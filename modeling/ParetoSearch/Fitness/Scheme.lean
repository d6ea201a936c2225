import ParetoSearch.Argument
import ParetoSearch.Normalizer
import ParetoSearch.Dominance

/-!
# Fitness schemes

A scheme gives a population its indicator matrix: entry `(i, j)` measures how
far row `i` is from covering row `j`.  The fitness of a member is minus the sum
of `exp (- I / (c * kappa))` over what the others do to it, with `c` the scale of
the matrix.
-/

namespace ParetoSearch

/-- How a population is measured, apart from the pressure of selection. -/
structure Scheme (α : Type) where
  matrix : List (List α) → Except (Fault α) (List (List α))
  kappa : α
  /-- Scale objectives to the bounds of the population, and the matrix by its
  largest entry. -/
  normalize : Bool

namespace Scheme

variable {α : Type} [Scalar α]

def epsilonMatrix (rows : List (List α)) : Except (Fault α) (List (List α)) :=
  rows.mapM fun a => rows.mapM fun b =>
    match Scalar.greatest? (a.zipWith (· - ·) b) with
    | none => .error .shapeMismatch
    | some x => .ok x

/-- Where the volumes of a population are measured from. -/
inductive Anchor (α : Type) where
  | point (p : List α)
  /-- The same coordinate in every objective, where there is one. -/
  | uniform (coordinate : Option α)
  /-- One beyond the worst value of each objective. -/
  | beyondWorst

def Anchor.resolve (rows : List (List α)) : Anchor α → Except (Fault α) (List α)
  | .point p => .ok p
  | .uniform (some c) => .ok (List.replicate (rows.headD []).length c)
  | .uniform none => if rows.isEmpty then .ok [] else .error .valueMissing
  | .beyondWorst =>
    if rows.isEmpty then .error .shapeMismatch
    else .ok ((Vector.columnFold Scalar.greater rows).map (· + 1))

/-- The volume of the box from a row up to the anchor; nothing beyond it counts. -/
def boxVolume (anchor row : List α) : Except (Fault α) α := do
  let pairs ← Vector.pairUp anchor row
  return Vector.product (pairs.map fun p => Scalar.greater (p.1 - p.2) 0)

/-- The gain in volume of `b` over `a`, negative when `a` dominates it. -/
def volumeGain (a b : List α) (va vb overlap : α) : α :=
  if dominates a b then vb - va else va + vb - overlap - va

def volumeMatrix (anchor : Anchor α) (rows : List (List α)) :
    Except (Fault α) (List (List α)) := do
  let point ← anchor.resolve rows
  let sized ← rows.mapM fun row => do return (row, ← boxVolume point row)
  sized.mapM fun (a, va) => sized.mapM fun (b, vb) => do
    return volumeGain a b va vb (← boxVolume point (a.zipWith Scalar.greater b))

def kappaChecked (matrix : List (List α) → Except (Fault α) (List (List α))) (kappa : α)
    (normalize : Bool) : Except (Fault α) (Scheme α) :=
  if kappa ≤ 0 then .error (.kappaNotPositive kappa) else .ok ⟨matrix, kappa, normalize⟩

def epsilon? (kappa : α) (normalize : Bool) : Except (Fault α) (Scheme α) :=
  kappaChecked epsilonMatrix kappa normalize

/-- A given point wins over `rho`, which places the anchor among scaled
objectives. -/
def anchorOf (normalize : Bool) (rho : Option α) : Option (List α) → Anchor α
  | some p => .point p
  | none => if normalize then .uniform rho else .beyondWorst

def hypervolume? (kappa : α) (normalize : Bool) (rho : Option α) (point : Option (List α)) :
    Except (Fault α) (Scheme α) :=
  kappaChecked (volumeMatrix (anchorOf normalize rho point)) kappa normalize

/-- Objectives on the scale of the population. -/
def prepare (s : Scheme α) (rows : List (List α)) : Except (Fault α) (List (List α)) :=
  if s.normalize then
    if rows.isEmpty then .error .shapeMismatch
    else .ok ((Normalizer.ofRows rows).scaleRows rows)
  else .ok rows

/-- The largest size of an entry, where it is positive. -/
def scaleOf (s : Scheme α) (matrix : List (List α)) : α :=
  if s.normalize then
    match Scalar.greatest? (matrix.flatten.map Scalar.abs) with
    | some x => if 0 < x then x else 1
    | none => 1
  else 1

/-- What each member does to each other, nothing to itself. -/
def contributions (s : Scheme α) (scale : α) (matrix : List (List α)) : List (List α) :=
  matrix.zipIdx.map fun (row, i) => row.zipIdx.map fun (x, j) =>
    if i = j then 0 else Scalar.exp (-x / (scale * s.kappa))

end Scheme

/-- The schemes on offer. -/
inductive SchemeKind where
  | epsilon | hypervolume
  deriving DecidableEq, Repr

/-- What a scheme is built from. -/
structure SchemeArguments (α : Type) where
  kappa : Argument α := .leftOut
  normalize : Argument Bool := .leftOut
  rho : Argument α := .leftOut
  referencePoint : Argument (Tensor α) := .leftOut

namespace SchemeKind

variable {α : Type} [Scalar α]

def label : SchemeKind → String
  | .epsilon => "AdditiveEpsilonIndicatorFitnessEvaluator"
  | .hypervolume => "HypervolumeFitnessEvaluator"

def standardKappa : α := Scalar.ratio 1 20

def standardRho : α := Scalar.two

/-- The coordinate of the anchor, in the scheme that has one. -/
def rho? (kind : SchemeKind) (a : SchemeArguments α) : Option α :=
  match kind with
  | .epsilon => none
  | .hypervolume => a.rho.optional standardRho

/-- What objectives that are not rows run into. -/
def flatFault (kind : SchemeKind) (a : SchemeArguments α) (t : Tensor α) : Fault α :=
  match kind, a.referencePoint with
  | .epsilon, _ => .noPosition
  | .hypervolume, .given point =>
    match Tensor.pairUp point t with
    | .error e => e
    | .ok _ => .noAxis
  | .hypervolume, _ => if a.normalize.isOn then .noPosition else .noAxis

/-- A number places the anchor at that coordinate in every objective. -/
def build (kind : SchemeKind) (a : SchemeArguments α) : Except (Fault α) (Scheme α) := do
  let kappa ← a.kappa.required standardKappa
  match kind with
  | .epsilon =>
    if a.rho.mentioned || a.referencePoint.mentioned then .error .argumentUnexpected
    else Scheme.epsilon? kappa a.normalize.isOn
  | .hypervolume =>
    Scheme.hypervolume? kappa a.normalize.isOn (a.rho.optional standardRho)
      (a.referencePoint.value?.map Tensor.entries)

end SchemeKind
end ParetoSearch
