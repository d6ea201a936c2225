import ParetoSearch.Registry.Names
import ParetoSearch.Indicator

/-!
# The registry of indicators

Under each name stands a way to build an indicator and whether it needs a
reference set.  A request for several indicators is checked as a whole before
any of them is built.
-/

namespace ParetoSearch

/-- A way to build indicators of some type `ι`. -/
structure IndicatorEntry (X α ι : Type) where
  build : IndicatorArguments X α → Except (Fault α) ι
  needsReference : Bool

namespace IndicatorRegistry

variable {X α ι : Type}

abbrev Table (X α ι : Type) := Registry (IndicatorEntry X α ι)

def needsReference (r : Table X α ι) (name : String) : Except (Fault α) Bool := do
  let (_, entry) ← r.complete .indicator name
  return entry.needsReference

/-- Whether the arguments bring a reference set. -/
def hasReference (a : IndicatorArguments X α) : Bool :=
  a.reference.value?.isSome

/-- Build an indicator by its name or the beginning of it. -/
def get (r : Table X α ι) (name : String) (a : IndicatorArguments X α) :
    Except (Fault α) ι := do
  let (full, entry) ← r.complete .indicator name
  if entry.needsReference && !hasReference a then .error (.referenceMissing full)
  else entry.build a

/-- A name as it was given, the full one, and what stands under it. -/
structure Request (X α ι : Type) where
  given : String
  full : String
  entry : IndicatorEntry X α ι

/-- One request a distinct name, in the order of first mention. -/
def requests (r : Table X α ι) (names : List String) :
    Except (Fault α) (List (Request X α ι)) :=
  names.eraseDups.mapM fun name => do
    let (full, entry) ← r.complete .indicator name
    return ⟨name, full, entry⟩

/-- Build what is asked for, with the reference set only where it is needed. -/
def Request.build (q : Request X α ι) (reference : Option (PointSet X α)) :
    Except (Fault α) ι :=
  if q.entry.needsReference then
    q.entry.build { reference := reference.elim .nothing .given }
  else q.entry.build {}

/-- Measure a set by several indicators, each under the name it was asked by. -/
def compute (measure : ι → PointSet X α → Except (Fault α) (Quality α)) (r : Table X α ι)
    (set : PointSet X α) (names : List String) (reference : Option (PointSet X α)) :
    Except (Fault α) (List (String × Quality α)) := do
  let qs ← requests r names
  let missing := (qs.filter fun q => q.entry.needsReference).map Request.full
  if !missing.isEmpty && reference.isNone then
    .error (.referencesMissing (Registry.sortNames missing.eraseDups))
  else
    qs.mapM fun q => do
      return (q.given, ← measure (← q.build reference) set)

variable [Scalar α]

/-- An indicator and the name of its kind. -/
structure Labelled (α : Type) where
  label : String
  indicator : Indicator α

def Labelled.measure (l : Labelled α) (set : PointSet X α) : Except (Fault α) (Quality α) :=
  l.indicator.evaluate set

/-- A spacing entry passes over whatever it is given. -/
def spacingEntry : IndicatorEntry X α (Labelled α) :=
  ⟨fun _ => .ok ⟨IndicatorKind.spacing.label, .spacing⟩, false⟩

/-- Pass on the reference set, given or not, and nothing else; an indicator
without a reference passes over that too. -/
def referenceEntry (kind : IndicatorKind) (needs : Bool) : IndicatorEntry X α (Labelled α) :=
  ⟨fun a => do
    let arguments : IndicatorArguments X α :=
      if kind = .spacing then {} else { reference := a.reference.orNothing }
    return ⟨kind.label, ← kind.build arguments⟩, needs⟩

/-- A reference that is left out counts as nothing. -/
def standardEntry (kind : IndicatorKind) : IndicatorEntry X α (Labelled α) :=
  ⟨fun a => do
    return ⟨kind.label, ← kind.build { a with reference := a.reference.orNothing }⟩, true⟩

/-- The registry a program starts with. -/
def standard : Table X α (Labelled α) :=
  Registry.empty
    |>.register "hypervolume" (standardEntry .hypervolume)
    |>.register "generational" (standardEntry .generational)
    |>.register "inverted" (standardEntry .inverted)
    |>.register "epsilon" (standardEntry .epsilon)
    |>.register "error" (standardEntry .worstGap)
    |>.register "spacing" spacingEntry

end IndicatorRegistry
end ParetoSearch
