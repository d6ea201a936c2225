import ParetoSearch.Variation.Crossover

/-!
# Mutation of one individual

Polynomial mutation moves a selected variable towards its lower bound when its
draw is below one half and towards the upper one otherwise, with a distance that
is likely to be small.
-/

namespace ParetoSearch

/-- A way from an individual to a changed one. -/
abbrev Mutation (σ α : Type) := Tensor α → Work σ α (Tensor α)

structure PolynomialMutation (α : Type) where
  eta : α
  /-- The chance of each variable; without one, one variable in all is expected. -/
  probability : Option α
  bounds : Bounds α

namespace PolynomialMutation

variable {σ α : Type} [Scalar α]

open Scalar (two half)

def validProbability : Option α → Bool
  | none => true
  | some p => decide (0 ≤ p) && decide (p ≤ 1)

/-- The chance is judged first, then the bounds, then `eta`. -/
def make? (eta : Argument α) (probability : Option α) (bounds : Argument (Bounds α)) :
    Except (Fault α) (PolynomialMutation α) := do
  match probability with
  | some p => if !validProbability probability then .error (.probability p)
  | none => pure ()
  let b ← bounds.required .unit
  let _ ← b.pairs
  let e ← eta.required (20 : Nat)
  if e + 1 == 0 then .error .divisionByZero
  return ⟨e, probability, b⟩

def exponent (m : PolynomialMutation α) : α := 1 / (m.eta + 1)

/-- How far below its value a variable goes, as a share of the range of its
bounds; not positive. -/
def down (m : PolynomialMutation α) (u toLower : α) : α :=
  Scalar.power (two * u + (1 - two * u) * Scalar.power toLower (m.eta + 1)) m.exponent - 1

/-- How far above, likewise; not negative. -/
def up (m : PolynomialMutation α) (u toUpper : α) : α :=
  1 - Scalar.power (two * (1 - u) + two * (u - half) * Scalar.power toUpper (m.eta + 1)) m.exponent

/-- Where a selected variable moves to, before it is clipped. -/
def moved (m : PolynomialMutation α) (lower upper x u : α) : α :=
  let span := upper - lower
  let delta :=
    if u < half then m.down u (1 - (x - lower) / span)
    else m.up u (1 - (upper - x) / span)
  x + delta * span

/-- The chance of each of `n` variables. -/
def chance (m : PolynomialMutation α) (n : Nat) : Except (Fault α) α :=
  match m.probability with
  | some p => .ok p
  | none => if n = 0 then .error .divisionByZero else .ok (1 / (n : α))

/-- Where a variable ends up, selected or not. -/
def settle (m : PolynomialMutation α) (cell : α × α × α) (draw : Bool × α) : α :=
  if draw.1 then m.moved cell.2.1 cell.2.2 cell.1 draw.2 else cell.1

/-- The individual after the draws: which variables are selected, and where
those go. -/
def apply (m : PolynomialMutation α) (selected : List Bool) (us : List α) (x : Tensor α) :
    Except (Fault α) (Tensor α) := do
  let cells ← Tensor.pairUp x (.vector (← m.bounds.pairs))
  m.bounds.clip (← Tensor.combine m.settle cells (.vector (selected.zip us)))

/-- A draw for each variable selects it.  If any is selected, each has a draw for
its move; otherwise the individual stays as it is. -/
def mutate (m : PolynomialMutation α) (dice : Dice σ α) : Mutation σ α := fun x => do
  let n ← Work.lift x.length?
  let us ← dice.draws n
  let chance ← Work.lift (m.chance n)
  let selected := us.map fun u => decide (u < chance)
  if selected.all (!·) then return x
  Work.lift (m.apply selected (← dice.draws n) x)

end PolynomialMutation

namespace Mutation

variable {σ α : Type} [Scalar α]

def keep : Mutation σ α := fun x => return x

/-- Every variable moves by the same amount. -/
def shift (d : α) : Mutation σ α := fun x => return x.map (· + d)

end Mutation
end ParetoSearch
