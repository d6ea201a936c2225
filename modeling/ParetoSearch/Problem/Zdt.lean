import ParetoSearch.Problem.Basic
import ParetoSearch.Dominance

/-!
# The ZDT problems

Three problems of two objectives over variables in `[0, 1]`.  The first variable
is the first objective and places a point along the front; the others move it
away, and their mean enters as `distance`.  Each front is known in closed form;
the third is what no other point of a curve dominates.
-/

namespace ParetoSearch
namespace Zdt

variable {α : Type} [Scalar α]

open Scalar (ratio)

/-- One on the front; the mean of the other variables sets how far off. -/
def distance (x : Tensor α) : α :=
  let others := x.entries.drop (Tensor.size x.shape.tail)
  1 + (9 : Nat) * Vector.total others / (((x.leading : Int) - 1 : Int) : α)

/-- Both objectives, the second as the distance times a shape. -/
def response (shape : α → α → α) : Response α := fun x => do
  let first ← x.part? 0
  let g := distance x
  Tensor.join [first, first.map fun v => g * shape v (v / g)]

def wave (x : α) : α := Scalar.sin ((10 : Nat) * Scalar.pi * x)

def zdt1 : Response α := response fun _ ratio => 1 - Scalar.sqrt ratio

def zdt2 : Response α := response fun _ ratio => 1 - ratio * ratio

def zdt3 : Response α := response fun x ratio => 1 - Scalar.sqrt ratio - ratio * wave x

/-- Points of a curve over equally spaced first objectives. -/
def curve (shape : α → α) (last : α) (n : Nat) : List (List α) :=
  (Vector.spaced 0 last n).map fun f => [f, shape f]

def front1 (n : Nat) : List (List α) := curve (fun f => 1 - Scalar.sqrt f) 1 n

def front2 (n : Nat) : List (List α) := curve (fun f => 1 - f * f) 1 n

def front3 (n : Nat) : List (List α) :=
  nondominated (curve (fun f => 1 - Scalar.sqrt f - f * wave f) (ratio 852 1000) (4 * n))

end Zdt

/-- The problems of the suite. -/
inductive ZdtProblem where
  | zdt1 | zdt2 | zdt3
  deriving DecidableEq, Repr

namespace ZdtProblem

variable {α : Type} [Scalar α]

def all : List ZdtProblem := [.zdt1, .zdt2, .zdt3]

def name : ZdtProblem → String
  | .zdt1 => "zdt1"
  | .zdt2 => "zdt2"
  | .zdt3 => "zdt3"

def ofName? (name : String) : Option ZdtProblem := all.find? fun p => p.name == name

def variableCount : Nat := 30

def frontSize : Nat := 500

def response : ZdtProblem → Response α
  | .zdt1 => Zdt.zdt1
  | .zdt2 => Zdt.zdt2
  | .zdt3 => Zdt.zdt3

def front : ZdtProblem → Nat → List (List α)
  | .zdt1 => Zdt.front1
  | .zdt2 => Zdt.front2
  | .zdt3 => Zdt.front3

/-- Points of a front, as rows of two columns. -/
def sample? (p : ZdtProblem) (n : Int) : Except (Fault α) (Tensor α) := do
  let rows := p.front (← Vector.count? n)
  return ⟨[rows.length, 2], rows.flatten⟩

def problem? (p : ZdtProblem) : Except (Fault α) (Problem α) := do
  return ⟨← FunctionProblem.make? p.response variableCount 2 none 0 1 p.name, false⟩

end ZdtProblem
end ParetoSearch
