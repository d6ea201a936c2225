import ParetoSearch.Fault

/-!
# Names and their completion

A registry keeps values under names.  A lookup takes a full name, or the
beginning of exactly one name; the empty text begins none.
-/

namespace ParetoSearch

/-- Values under distinct names. -/
structure Registry (β : Type) where
  entries : List (String × β)

namespace Registry

variable {α β : Type}

def empty : Registry β := ⟨[]⟩

def replace (name : String) (value : β) : List (String × β) → List (String × β)
  | [] => [(name, value)]
  | (n, v) :: rest => if n = name then (n, value) :: rest else (n, v) :: replace name value rest

def register (r : Registry β) (name : String) (value : β) : Registry β :=
  ⟨replace name value r.entries⟩

def get? (r : Registry β) (name : String) : Option β := r.entries.lookup name

/-- The order of names is by code point. -/
def sortNames (names : List String) : List String :=
  names.mergeSort fun a b => !decide (b < a)

def names (r : Registry β) : List String := sortNames (r.entries.map Prod.fst)

def begins (start name : String) : Bool := start.toList.isPrefixOf name.toList

/-- The registered names that a text stands for. -/
def candidates (r : Registry β) (name : String) : List String :=
  if name = "" then [] else r.names.filter (begins name)

/-- The full name, with the value kept under it. -/
def complete (wanted : Wanted) (r : Registry β) (name : String) :
    Except (Fault α) (String × β) :=
  match r.get? name with
  | some v => .ok (name, v)
  | none =>
    match r.candidates name with
    | [] => .error (.unsupportedName wanted name r.names)
    | [full] =>
      match r.get? full with
      | some v => .ok (full, v)
      | none => .error (.unsupportedName wanted name r.names)
    | many => .error (.ambiguousName wanted name many)

end Registry
end ParetoSearch
