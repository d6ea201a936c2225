import ParetoSearch.Problem.Zdt

/-!
# Sample problems

Small functions to search with: a linear trade-off, the convex trade-off of one
variable between zero and two, a simplex, and functions that answer with one
number, with the same vector throughout, with a value that is not a number, or
not at all.  The constraint functions are violated beyond one half of the first
variable or below a quarter of the last.
-/

namespace ParetoSearch

inductive SampleObjective where
  | sum | schaffer | identity | tri | scalar | constant | nan | fail
  | zdt (problem : ZdtProblem)

inductive SampleConstraint where
  | half | halfScalar | two | never

namespace SampleObjective

variable {α : Type} [Scalar α]

def square (x : α) : α := x * x

/-- What is left of one after two shares. -/
def remainder (a b : Tensor α) : Tensor α :=
  ⟨a.shape, a.entries.zipWith (fun x y => 1 - x - y) b.entries⟩

/-- Sums run over all entries; the other functions take the first variables apart
from the rest, and answer row by row where those are rows. -/
def response : SampleObjective → Response α
  | .sum => fun x =>
    .ok (.vector [Vector.total x.entries, Vector.total (x.entries.map (1 - ·))])
  | .schaffer => fun x => do
    let a ← x.part? 0
    Tensor.join [a.map square, a.map fun v => square (v - Scalar.two)]
  | .identity => .ok
  | .tri => fun x => do
    let a ← x.part? 0
    let b ← x.part? 1
    Tensor.join [a, b, remainder a b]
  | .scalar => fun x => .ok (.scalar (Vector.total x.entries))
  | .constant => fun _ => .ok (.vector [1, 1])
  | .nan => fun x => do Tensor.join [.scalar Scalar.unset, ← x.part? 0]
  | .fail => fun _ => .error .evaluationFailed
  | .zdt problem => problem.response

/-- What each function is asked for by. -/
def name : SampleObjective → String
  | .sum => "sum"
  | .schaffer => "schaffer"
  | .identity => "identity"
  | .tri => "tri"
  | .scalar => "scalar"
  | .constant => "constant"
  | .nan => "nan"
  | .fail => "fail"
  | .zdt problem => problem.name

/-- What a problem is called after its function; most of these functions are
written in place and have no name of their own. -/
def label : SampleObjective → String
  | .fail => "_fail"
  | .zdt problem => problem.name
  | _ => "<lambda>"

def all : List SampleObjective :=
  [.sum, .schaffer, .identity, .tri, .scalar, .constant, .nan, .fail] ++ ZdtProblem.all.map .zdt

def ofName? (name : String) : Option SampleObjective := all.find? fun o => o.name == name

end SampleObjective

namespace SampleConstraint

variable {α : Type} [Scalar α]

/-- A single entry where it passes a test, and zero where it does not.  Several
entries at once cannot be tested. -/
def orZero (passes : α → Bool) (t : Tensor α) : Except (Fault α) (Tensor α) :=
  match t.entries with
  | [x] => .ok (if passes x then t else .scalar 0)
  | _ => .error .shapeMismatch

/-- How far the first variable is above one half. -/
def overHalf (x : Tensor α) : Except (Fault α) (Tensor α) := do
  orZero (fun v => decide (0 < v)) ((← x.part? 0).map (· - Scalar.half))

/-- How far the last variable is below one quarter. -/
def underQuarter (x : Tensor α) : Except (Fault α) (Tensor α) := do
  orZero (fun v => decide (v < 0)) ((← x.part? (-1)).map (· - Scalar.ratio 1 4))

def response : SampleConstraint → Response α
  | .half => fun x => do Tensor.join [← overHalf x]
  | .halfScalar => overHalf
  | .two => fun x => do Tensor.join [← overHalf x, ← underQuarter x]
  | .never => fun _ => .ok (.vector [1])

def name : SampleConstraint → String
  | .half => "half"
  | .halfScalar => "half_scalar"
  | .two => "two"
  | .never => "never"

def all : List SampleConstraint := [.half, .halfScalar, .two, .never]

def ofName? (name : String) : Option SampleConstraint := all.find? fun c => c.name == name

end SampleConstraint
end ParetoSearch
