import ParetoSearch.Tensor

/-!
# Normalization

Objectives are shifted and scaled so that the least and greatest values of a
reference become zero and one.  An objective without range is only shifted.
-/

namespace ParetoSearch

structure Normalizer (α : Type) where
  minimum : List α
  span : List α

namespace Normalizer

variable {α : Type} [Scalar α]

/-- A range that is not positive counts as one, so nothing is divided by zero. -/
def spanOf (lower upper : α) : α := if 0 < upper - lower then upper - lower else 1

/-- The bounds of rows of one width. -/
def ofRows (rows : List (List α)) : Normalizer α :=
  let lower := Vector.columnFold Scalar.lesser rows
  let upper := Vector.columnFold Scalar.greater rows
  ⟨lower, lower.zipWith spanOf upper⟩

def ofReference? (rows : List (List α)) : Except (Fault α) (Normalizer α) :=
  if rows.isEmpty then .error .emptyNormalization else .ok (ofRows rows)

/-- Only a vector of rows has bounds. -/
def ofTensor? (t : Tensor α) : Except (Fault α) (Normalizer α) :=
  match t.shape with
  | [n, width] => ofReference? (Tensor.chunks n width t.entries)
  | _ => .error .emptyNormalization

def scaleRow (n : Normalizer α) (row : List α) : List α :=
  (row.zipWith (· - ·) n.minimum).zipWith (· / ·) n.span

def scaleRows (n : Normalizer α) (rows : List (List α)) : List (List α) := rows.map n.scaleRow

def scaleTensor (n : Normalizer α) (t : Tensor α) : Except (Fault α) (Tensor α) := do
  let shifted := (← Tensor.pairUp t (.vector n.minimum)).map fun p => p.1 - p.2
  return (← Tensor.pairUp shifted (.vector n.span)).map fun p => p.1 / p.2

end Normalizer
end ParetoSearch
