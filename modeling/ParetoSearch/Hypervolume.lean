import ParetoSearch.Vector

/-!
# Volume of a union of boxes

Each point spans a box up to the reference point.  The union is cut into slabs
at the points' first coordinates; in the slab behind the k-th point, in the
order of that coordinate, lie the first k points, and the rest of the
coordinates give the volume of the slab's section.
-/

namespace ParetoSearch
namespace Hypervolume

variable {α : Type} [Scalar α]

/-- Insert by first coordinate, behind equal ones. -/
def place (p : α × List α) : List (α × List α) → List (α × List α)
  | [] => [p]
  | q :: rest => if p.1 < q.1 then p :: q :: rest else q :: place p rest

def byFirst (points : List (α × List α)) : List (α × List α) :=
  points.foldl (fun sorted p => place p sorted) []

def split : List α → Option (α × List α)
  | [] => none
  | x :: xs => some (x, xs)

/-- Slabs from left to right.  `seen` holds the sections entered so far; a slab
without width is left out. -/
def slabs (slice : List (List α) → α) (reference : α) :
    List (List α) → List (α × List α) → α
  | _, [] => 0
  | seen, (x, rest) :: others =>
    let entered := rest :: seen
    let next := match others with
      | [] => reference
      | (y, _) :: _ => y
    let later := slabs slice reference entered others
    if next == x then later else (next - x) * slice entered + later

/-- The volume of the union of the boxes from points inside up to the reference
point. -/
def volume : List α → List (List α) → α
  | _, [] => 0
  | [], _ :: _ => 1
  | [r], points =>
    match Scalar.least? (points.filterMap List.head?) with
    | none => 0
    | some x => r - x
  | r :: rs, points => slabs (volume rs) r [] (byFirst (points.filterMap split))

end Hypervolume
end ParetoSearch
