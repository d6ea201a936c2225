import ParetoSearch.Tensor

/-!
# Bounds of variables
-/

namespace ParetoSearch

/-- Least and greatest values: one pair for all variables, or one a variable. -/
structure Bounds (α : Type) where
  lower : List α
  upper : List α

namespace Bounds

variable {α : Type} [Scalar α]

/-- From zero to one. -/
def unit : Bounds α := ⟨[0], [1]⟩

def pairs (b : Bounds α) : Except (Fault α) (List (α × α)) := Vector.pairUp b.lower b.upper

/-- Bring every variable within its bounds. -/
def clip (b : Bounds α) (x : Tensor α) : Except (Fault α) (Tensor α) := do
  let raised ← Tensor.combine Scalar.greater x (.vector b.lower)
  Tensor.combine Scalar.lesser raised (.vector b.upper)

end Bounds
end ParetoSearch
