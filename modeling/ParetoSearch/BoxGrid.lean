import ParetoSearch.Dominance

/-!
# The grid of boxes

Objective space is cut into boxes, one size per objective.  A vector lies in the
box whose index is the floor of each objective over its size.
-/

namespace ParetoSearch

variable {α : Type} [Scalar α]

/-- Box indices over the common shape of objectives and sizes. -/
def Tensor.boxIndex (objectives sizes : Tensor α) : Except (Fault α) (Tensor Int) :=
  return (← Tensor.pairUp objectives sizes).map fun p => Scalar.floor (p.1 / p.2)

/-- At least one size, each positive and finite. -/
structure BoxSizes (α : Type) [Scalar α] where
  sizes : List α
  nonempty : sizes ≠ []
  positive : sizes.all (fun e => !decide (e ≤ 0) && Scalar.isFinite e) = true

namespace BoxSizes

def ofList? (sizes : List α) : Except (Fault α) (BoxSizes α) :=
  if h : sizes = [] then .error .boxSizesShape
  else if p : sizes.all (fun e => !decide (e ≤ 0) && Scalar.isFinite e) = true then
    .ok ⟨sizes, h, p⟩
  else .error (.boxSizesValue sizes)

/-- One size for all objectives, or a vector of them. -/
def ofTensor? (t : Tensor α) : Except (Fault α) (BoxSizes α) :=
  if t.shape.length ≤ 1 then ofList? t.entries else .error .boxSizesShape

def last (b : BoxSizes α) : α := b.sizes.getLast b.nonempty

/-- The last size serves all further objectives. -/
def expand (b : BoxSizes α) (n : Nat) : List α :=
  b.sizes.take n ++ List.replicate (n - b.sizes.length) b.last

/-- A negative count leaves that many sizes off the end. -/
def expandTo (b : BoxSizes α) (n : Int) : Except (Fault α) (List α) :=
  if n < 0 then .ok (b.sizes.take (b.sizes.length - n.natAbs))
  else do return b.expand (← Vector.count? n)

/-- The box a vector lies in. -/
def index (b : BoxSizes α) (f : List α) : List Int :=
  f.zipWith (fun x e => Scalar.floor (x / e)) (b.expand f.length)

/-- The corner of a box with the least objectives. -/
def corner (b : BoxSizes α) (box : List Int) : List α :=
  box.zipWith (fun (k : Int) e => (k : α) * e) (b.expand box.length)

/-- How far a vector lies from the lower corner of its box. -/
def cornerDistance (b : BoxSizes α) (f : List α) : α :=
  Vector.norm (f.zipWith (· - ·) (b.corner (b.index f)))

def sameBox (b : BoxSizes α) (f g : List α) : Bool := b.index f == b.index g

end BoxSizes
end ParetoSearch
