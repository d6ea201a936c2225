import ParetoSearch.Problem.Zdt
import ParetoSearch.Draws

/-!
# Starting populations

Solutions that are brought along come first, as they are; a sampler fills the
other places with solutions that are still to be measured.
-/

namespace ParetoSearch

/-- A way to make up the variables of one individual. -/
abbrev Sampler (σ α : Type) := Work σ α (Tensor α)

namespace Sampler

variable {σ α : Type} [Scalar α]

def uniform (dice : Dice σ α) (lower upper : α) (n : Nat) : Work σ α (Tensor α) := do
  return .vector (← dice.uniform lower upper n)

/-- Within the bounds of the ZDT problems. -/
def zdt (dice : Dice σ α) : Work σ α (Tensor α) := uniform dice 0 1 ZdtProblem.variableCount

/-- Given samples in turn, each read only when its turn comes.  With none given
there is no turn to take, a remainder by zero. -/
def fixed : Work (Cycle (Nested α)) α (Tensor α) := do
  match (← get).next? with
  | some (x, c) =>
    set c
    Work.lift (Tensor.ofNested? x)
  | none => Work.fail .divisionByZero

end Sampler

structure Initialization (σ α : Type) where
  problem : FunctionProblem α
  size : Nat
  sampler : Sampler σ α
  injected : List Ref

namespace Initialization

variable {σ α : Type} [Scalar α]

def make? (problem : FunctionProblem α) (size : Int) (sampler : Sampler σ α)
    (injected : List Ref) : Except (Fault α) (Initialization σ α) :=
  if size ≤ 0 then .error (.sizeNotPositive size)
  else if size < injected.length then .error (.tooManyInjected injected.length size)
  else .ok ⟨problem, size.toNat, sampler, injected⟩

def sample (i : Initialization σ α) : Work (World σ α) α Ref := do
  let s ← Work.lift i.problem.newSolution
  let x ← World.drawn i.sampler
  if x.shape ≠ [i.problem.variableCount.toNat] then
    Work.fail (.sampleShape i.problem.variableCount x.shape)
  World.insert { s with decision := x }

def populate (i : Initialization σ α) : Work (World σ α) α (List Ref) := do
  return i.injected ++ (← (List.range (i.size - i.injected.length)).mapM fun _ => i.sample)

end Initialization
end ParetoSearch
