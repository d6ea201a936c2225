import ParetoSearch.Argument
import ParetoSearch.Draws
import ParetoSearch.Variation.Bounds

/-!
# Recombination of two parents

Simulated binary crossover moves the two values of a variable apart or together
by a spread factor drawn for it, around their unchanged mean, and may exchange
them.  The rules on one variable are pure functions of the draws; the operator
only says when what is drawn.
-/

namespace ParetoSearch

/-- A way from two parents to children. -/
abbrev Crossover (σ α : Type) := Tensor α → Tensor α → Work σ α (List (Tensor α))

structure SimulatedBinary (α : Type) where
  eta : α
  probability : α
  bounds : Bounds α

namespace SimulatedBinary

variable {σ α : Type} [Scalar α]

open Scalar (two half)

/-- The chance of recombining is judged before `eta`, and the bounds come last. -/
def make? (eta probability : Argument α) (bounds : Argument (Bounds α)) :
    Except (Fault α) (SimulatedBinary α) := do
  let p ← probability.required 1
  if !(decide (0 ≤ p) && decide (p ≤ 1)) then .error (.probability p)
  let e ← eta.required (15 : Nat)
  if e < 0 then .error (.etaNegative e)
  return ⟨e, p, ← bounds.required .unit⟩

def exponent (c : SimulatedBinary α) : α := 1 / (c.eta + 1)

/-- How far apart the children of a variable lie, as a multiple of their
parents' distance. -/
def spread (c : SimulatedBinary α) (u : α) : α :=
  if u ≤ half then Scalar.power (two * u) c.exponent
  else Scalar.power (1 / (two * (1 - u))) c.exponent

/-- The first child's value; the second's has the parents exchanged. -/
def blend (beta p q : α) : α := half * ((1 + beta) * p + (1 - beta) * q)

def blendBack (beta p q : α) : α := half * ((1 - beta) * p + (1 + beta) * q)

/-- The children before they are exchanged, one pair a variable. -/
def children (c : SimulatedBinary α) (us : List α) (p q : Tensor α) :
    Except (Fault α) (Tensor (α × α)) := do
  let parents ← Tensor.pairUp p q
  Tensor.combine (fun beta (x, y) => (blend beta x y, blendBack beta x y))
    (.vector (us.map c.spread)) parents

/-- Exchange the two values of a variable whose draw is below one half. -/
def exchange (u : α) (pair : α × α) : α × α := if u < half then (pair.2, pair.1) else pair

def exchanged (us : List α) (pairs : Tensor (α × α)) : Except (Fault α) (Tensor (α × α)) :=
  Tensor.combine exchange (.vector us) pairs

/-- One draw decides whether to recombine.  If so, each variable has a draw for
its spread and then each has one for its exchange. -/
def cross (c : SimulatedBinary α) (dice : Dice σ α) : Crossover σ α := fun p q => do
  if c.probability ≤ (← dice.draw) then return [p, q]
  let n ← Work.lift p.length?
  let pairs ← Work.lift (c.children (← dice.draws n) p q)
  let pairs ← Work.lift (exchanged (← dice.draws n) pairs)
  return [← Work.lift (c.bounds.clip (pairs.map Prod.fst)),
    ← Work.lift (c.bounds.clip (pairs.map Prod.snd))]

end SimulatedBinary

namespace Crossover

variable {σ α : Type} [Scalar α]

def middle (p q : Tensor α) : Except (Fault α) (Tensor α) :=
  Tensor.combine (fun x y => (x + y) / Scalar.two) p q

/-- The middle of the parents, and the second of them. -/
def mean : Crossover σ α := fun p q => do return [← Work.lift (middle p q), q]

/-- The parents the other way round. -/
def swap : Crossover σ α := fun p q => return [q, p]

/-- Both parents and their middle. -/
def three : Crossover σ α := fun p q => do return [p, q, ← Work.lift (middle p q)]

end Crossover
end ParetoSearch
