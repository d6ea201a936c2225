import ParetoSearch.Solution
import ParetoSearch.Variation.Mutation

/-!
# From parents to offspring

Two parents are recombined and every child mutated; without recombination one
parent gives one mutated child.  Offspring take the shape of their parents in
turn and nothing else of them.
-/

namespace ParetoSearch

structure Variation (σ α : Type) where
  crossover : Option (Crossover σ α)
  mutation : Mutation σ α

namespace Variation

variable {σ α : Type} [Scalar α]

/-- How many parents an offspring family has. -/
def arity (v : Variation σ α) : Nat := if v.crossover.isSome then 2 else 1

/-- A child to be measured, shaped like a parent. -/
def child (parent : Solution (Tensor α) α) (decision : Tensor α) : Solution (Tensor α) α :=
  .unevaluated decision parent.objectives.length parent.constraints.length

def descendants (v : Variation σ α) : List (Solution (Tensor α) α) → Work σ α (List (Tensor α))
  | [p] => return [p.decision]
  | [p, q] =>
    match v.crossover with
    | some cross => cross p.decision q.decision
    | none => return [p.decision]
  | _ => return []

def evolve (v : Variation σ α) (parents : List (Solution (Tensor α) α)) :
    Work σ α (List (Solution (Tensor α) α)) := do
  if parents.length ≠ v.arity then Work.fail (.parentCount v.arity parents.length)
  let decisions ← v.descendants parents
  decisions.zipIdx.mapM fun (x, i) => do
    let x ← v.mutation x
    match parents[i % parents.length]? with
    | some parent => return child parent x
    | none => Work.fail (.parentCount v.arity parents.length)

end Variation
end ParetoSearch
