import ParetoSearch.Solution
import ParetoSearch.Dominance

/-!
# Fronts

Indicators work on the feasible points of a set that no feasible point of it
dominates, in the order of the set.
-/

namespace ParetoSearch

/-- A set of points: plain numbers, or solutions of which the feasible ones
count; or nothing in place of one, which shows only when the points are asked
for. -/
inductive PointSet (X α : Type) where
  | points (t : Tensor α)
  | solutions (members : List (Solution X α))
  | nothing

namespace PointSet

variable {X α : Type} [Scalar α]

/-- Numbers without rows are one row. -/
def pointRows (t : Tensor α) : List (List α) :=
  match t.shape with
  | n :: width :: _ => if t.entries.isEmpty then [] else Tensor.chunks n width t.entries
  | _ => if t.entries.isEmpty then [] else [t.entries]

/-- The objectives of the feasible solutions. -/
def feasibleRows (members : List (Solution X α)) : Except (Fault α) (List (List α)) :=
  Vector.stack ((members.filter Solution.feasible).map Solution.objectives)

/-- With more than two lengths, the marks number vectors along the last one, and
must run over the same places. -/
def markedRows (t : Tensor α) (marks : Tensor Bool) : Except (Fault α) (List (List α)) :=
  let shape := t.shape.dropLast
  let width := t.shape.getLastD 1
  if marks.shape = shape then
    let rows := Tensor.chunks (Tensor.size shape) width t.entries
    .ok (((rows.zip marks.entries).filter Prod.snd).map Prod.fst)
  else .error .noPosition

/-- The vectors that count and that none of them dominates. -/
def front : PointSet X α → Except (Fault α) (List (List α))
  | .points t => do
    if t.shape.length ≤ 2 || t.entries.isEmpty then return nondominated (pointRows t)
    else markedRows t (← t.nondominatedMask?)
  | .solutions members => do return nondominated (← feasibleRows members)
  | .nothing => .error .notASet

end PointSet
end ParetoSearch
