import ParetoSearch.Fault

/-!
# Arguments with a standard value

A caller may leave an argument out, say that there is none, or give a value.
Where an argument must have a value, saying that there is none is a fault; where
it need not, that switches off what the argument is for.
-/

namespace ParetoSearch

inductive Argument (β : Type) where
  | leftOut
  | nothing
  | given (x : β)

namespace Argument

variable {α β γ : Type}

/-- The value, or the standard one where the argument is left out. -/
def required (a : Argument β) (standard : β) : Except (Fault α) β :=
  match a with
  | .leftOut => .ok standard
  | .nothing => .error .valueMissing
  | .given x => .ok x

/-- The value or none, with a standard value where the argument is left out. -/
def optional (a : Argument β) (standard : β) : Option β :=
  match a with
  | .leftOut => some standard
  | .nothing => none
  | .given x => some x

/-- Left out and nothing come to the same. -/
def value? : Argument β → Option β
  | .given x => some x
  | _ => none

/-- Whether the argument is mentioned at all, if only to say that there is none. -/
def mentioned : Argument β → Bool
  | .leftOut => false
  | _ => true

/-- A switch that is on unless it is turned off; nothing turns it off. -/
def isOn (a : Argument Bool) : Bool := (a.optional true).getD false

/-- What is left out counts as said to be nothing. -/
def orNothing : Argument β → Argument β
  | .leftOut => .nothing
  | a => a

end Argument
end ParetoSearch
