import ParetoSearch.Argument
import ParetoSearch.Front
import ParetoSearch.Normalizer
import ParetoSearch.Hypervolume

/-!
# Quality indicators

An indicator is bound to its reference when it is built and then measures sets.
The distance-based ones have no finite value on a set without feasible points:
their answer is then `Quality.unreached`.
-/

namespace ParetoSearch

inductive Quality (α : Type) where
  | measured (value : α)
  | unreached

/-- A reference front, and the scaling taken from it. -/
structure Frame (α : Type) where
  normalizer : Option (Normalizer α)
  reference : List (List α)

namespace Frame

variable {X α : Type} [Scalar α]

def scale (f : Frame α) (rows : List (List α)) : List (List α) :=
  match f.normalizer with
  | none => rows
  | some n => n.scaleRows rows

def ofFront (normalize : Bool) (front : List (List α)) : Frame α :=
  let normalizer := if normalize then some (Normalizer.ofRows front) else none
  ⟨normalizer, Frame.scale ⟨normalizer, []⟩ front⟩

def ofSet? (indicator : String) (normalize : Bool) (set : PointSet X α) :
    Except (Fault α) (Frame α) := do
  let front ← set.front
  if front.isEmpty then .error (.emptyReference indicator) else .ok (ofFront normalize front)

/-- Reference points that are themselves the frame. -/
def ofPoint (point : List α) : Frame α := ⟨none, [point]⟩

def width (f : Frame α) : Nat := (f.reference.headD []).length

/-- The front of a set on the scale of the frame. -/
def front (f : Frame α) (set : PointSet X α) : Except (Fault α) (List (List α)) := do
  match ← set.front with
  | [] => return []
  | row :: rest =>
    if row.length ≠ f.width then .error (.objectiveWidths row.length f.width)
    else return f.scale (row :: rest)

end Frame

namespace Distance

variable {α : Type} [Scalar α]

def euclidean (a b : List α) : α :=
  Scalar.sqrt (Vector.total (a.zipWith (fun x y => (x - y) * (x - y)) b))

def manhattan (a b : List α) : α :=
  Vector.total (a.zipWith (fun x y => Scalar.abs (x - y)) b)

/-- The least distance from a point to a list of others. -/
def nearest (d : List α → List α → α) (a : List α) : List (List α) → α
  | [] => 0
  | b :: rest => rest.foldl (fun best c => Scalar.lesser best (d a c)) (d a b)

/-- From each row to the nearest of the others given. -/
def nearestAll (source target : List (List α)) : List α :=
  source.map fun a => nearest euclidean a target

end Distance

/-- An indicator with its reference. -/
inductive Indicator (α : Type) where
  | hypervolume (frame : Frame α) (point : List α)
  | generational (frame : Frame α) (power : Option α)
  | inverted (frame : Frame α) (power : Option α)
  | epsilon (frame : Frame α)
  | worstGap (frame : Frame α)
  | spacing

namespace Indicator

variable {X α : Type} [Scalar α]

/-- The power mean of distances, except that the count divides outside. -/
def powerMean (power : α) (distances : List α) : Except (Fault α) α :=
  if power == 0 then .error .divisionByZero
  else
    let sum := Vector.total (distances.map fun d => Scalar.power d power)
    .ok (Scalar.pow sum (1 / power) / (distances.length : α))

/-- Without a power there is no mean. -/
def aggregate (power : Option α) (distances : List α) : Except (Fault α) α :=
  match power with
  | none => .error .valueMissing
  | some p => powerMean p distances

/-- The smallest amount by which `a` must improve to be nowhere worse than `b`. -/
def shift (a b : List α) : Except (Fault α) α :=
  match Scalar.greatest? (a.zipWith (· - ·) b) with
  | none => .error .shapeMismatch
  | some x => .ok x

/-- The extreme over a list that is not empty. -/
def extreme (f : α → α → α) : List α → α
  | [] => 0
  | x :: xs => xs.foldl f x

def coverShift (front reference : List (List α)) : Except (Fault α) α := do
  let shifts ← reference.mapM fun r => do
    return extreme Scalar.lesser (← front.mapM fun a => shift a r)
  return extreme Scalar.greater shifts

/-- Distances from each row to the nearest other row. -/
def neighbourDistances (rows : List (List α)) : List α :=
  (List.range rows.length).map fun i =>
    Distance.nearest Distance.manhattan (rows.getD i []) (rows.eraseIdx i)

/-- The sample deviation of the distances to the nearest neighbours. -/
def spacingOf (rows : List (List α)) : α :=
  if rows.length < 2 then 0
  else
    let nearest := neighbourDistances rows
    let mean := Vector.mean nearest
    Scalar.sqrt (Vector.total (nearest.map fun d => (mean - d) * (mean - d))
      / ((rows.length - 1 : Nat) : α))

/-- Strictly below the reference point in every objective. -/
def inside (point row : List α) : Bool := (row.zipWith (fun x r => decide (x < r)) point).all id

/-- The volume between the points and a reference point; no volume without a
coordinate. -/
def boundedVolume (point : List α) (front : List (List α)) : Except (Fault α) α :=
  if point.isEmpty && !front.isEmpty then .error .shapeMismatch
  else .ok (Hypervolume.volume point (front.filter (inside point)))

/-- Measure a front by a rule for fronts that have a point. -/
def onFront (frame : Frame α) (set : PointSet X α)
    (rule : List (List α) → Except (Fault α) α) : Except (Fault α) (Quality α) := do
  let front ← frame.front set
  if front.isEmpty then return .unreached else return .measured (← rule front)

def evaluate (i : Indicator α) (set : PointSet X α) : Except (Fault α) (Quality α) :=
  match i with
  | .hypervolume frame point => do
    return .measured (← boundedVolume point (← frame.front set))
  | .generational frame power =>
    onFront frame set fun front => aggregate power (Distance.nearestAll front frame.reference)
  | .inverted frame power =>
    onFront frame set fun front => aggregate power (Distance.nearestAll frame.reference front)
  | .epsilon frame => onFront frame set fun front => coverShift front frame.reference
  | .worstGap frame =>
    onFront frame set fun front =>
      .ok (extreme Scalar.greater (Distance.nearestAll frame.reference front))
  | .spacing => do return .measured (spacingOf (← set.front))

end Indicator

/-- The indicators on offer. -/
inductive IndicatorKind where
  | hypervolume | generational | inverted | epsilon | worstGap | spacing
  deriving DecidableEq, Repr

/-- What an indicator is built from. -/
structure IndicatorArguments (X α : Type) where
  reference : Argument (PointSet X α) := .leftOut
  referencePoint : Argument (Tensor α) := .leftOut
  power : Argument α := .leftOut
  normalize : Argument Bool := .leftOut

namespace IndicatorKind

variable {X α : Type} [Scalar α]

def label : IndicatorKind → String
  | .hypervolume => "Hypervolume"
  | .generational => "GenerationalDistance"
  | .inverted => "InvertedGenerationalDistance"
  | .epsilon => "AdditiveEpsilonIndicator"
  | .worstGap => "MaximumParetoFrontError"
  | .spacing => "Spacing"

def all : List IndicatorKind :=
  [.hypervolume, .generational, .inverted, .epsilon, .worstGap, .spacing]

def ofLabel? (label : String) : Option IndicatorKind := all.find? fun k => k.label == label

/-- Whether an argument is mentioned that the indicator does not take. -/
def refuses (kind : IndicatorKind) (a : IndicatorArguments X α) : Bool :=
  match kind with
  | .hypervolume => a.power.mentioned || a.normalize.mentioned
  | .generational | .inverted => a.referencePoint.mentioned
  | .epsilon | .worstGap => a.referencePoint.mentioned || a.power.mentioned
  | .spacing =>
    a.reference.mentioned || a.referencePoint.mentioned || a.power.mentioned
      || a.normalize.mentioned

/-- The frame of an indicator that needs a reference. -/
def frame? (kind : IndicatorKind) (a : IndicatorArguments X α) : Except (Fault α) (Frame α) :=
  match a.reference with
  | .leftOut => .error .argumentMissing
  | .nothing => .error .notASet
  | .given set => Frame.ofSet? kind.label a.normalize.isOn set

/-- A reference point of further lengths than one has a width and spans no
volume. -/
def ofPoint? (point : Tensor α) : Except (Fault α) (Indicator α) :=
  match point.shape with
  | [] => .error .noPosition
  | [_] => .ok (.hypervolume (.ofPoint point.entries) point.entries)
  | n :: _ => .ok (.hypervolume (.ofPoint (List.replicate n 0)) [])

/-- A reference point measures raw objectives; without one the bounds of the
reference set are one in every objective. -/
def hypervolume? (a : IndicatorArguments X α) : Except (Fault α) (Indicator α) :=
  match a.referencePoint, a.reference with
  | .given point, _ => ofPoint? point
  | _, .given set => do
    let frame ← Frame.ofSet? IndicatorKind.hypervolume.label true set
    return .hypervolume frame (List.replicate frame.width 1)
  | _, _ => .error .noReferenceOrPoint

def build (kind : IndicatorKind) (a : IndicatorArguments X α) :
    Except (Fault α) (Indicator α) :=
  if kind.refuses a then .error .argumentUnexpected
  else match kind with
    | .hypervolume => hypervolume? a
    | .generational => do return .generational (← kind.frame? a) (a.power.optional 1)
    | .inverted => do return .inverted (← kind.frame? a) (a.power.optional 1)
    | .epsilon => do return .epsilon (← kind.frame? a)
    | .worstGap => do return .worstGap (← kind.frame? a)
    | .spacing => .ok .spacing

end IndicatorKind
end ParetoSearch
