import ParetoSearch.Catalogue
import ParetoSearch.Container

/-!
# Configurations

A configuration says what to optimise: one problem, by its name in the catalogue
or by the path of something that makes it, the box sizes of its archive, and
perhaps a file with the reference set.  It is checked when it is made and does
not change after that.
-/

namespace ParetoSearch

/-- Something that makes a problem without being given anything. -/
structure Maker (α : Type) where
  label : String
  make : Unit → Except (Fault α) (Problem α)

/-- A file by its name, and what reading its table gives. -/
structure ReferenceFile (α : Type) where
  name : String
  table : Except TableFailure (Tensor α)

inductive ProblemChoice (α : Type) where
  | named (name : String)
  | made (maker : Maker α)

structure Configuration (α : Type) where
  problem : ProblemChoice α
  epsilon : Option (List α)
  file : Option (ReferenceFile α)
  catalogue : Catalogue α

namespace Configuration

variable {α : Type} [Scalar α]

/-- The part before the last point, and the part after it. -/
def splitPath (path : List Char) : List Char × List Char :=
  let last := (path.reverse.takeWhile fun c => c != '.').reverse
  (path.take (path.length - last.length - 1), last)

/-- Find what a path leads to among what is known.  A colon counts as a point. -/
def resolve (known : Registry (Maker α)) (path : String) : Except (Fault α) (Maker α) :=
  let dotted := path.toList.map fun c => if c = ':' then '.' else c
  match (splitPath dotted).1 with
  | [] => .error (.pathWithoutDots path)
  | '.' :: _ => .error .relativePath
  | _ =>
    match known.get? (String.ofList dotted) with
    | none => .error (.pathUnresolved path)
    | some maker => .ok maker

def choose (known : Registry (Maker α)) (name path : Option String) :
    Except (Fault α) (ProblemChoice α) :=
  match name, path with
  | none, none => .error .problemUnspecified
  | some name, some path => .error (.problemTwice name path)
  | some name, none => .ok (.named name)
  | none, some path => do return .made (← resolve known path)

/-- One number, or the numbers of a vector; rows are not numbers. -/
def numbers (t : Tensor α) : Except (Fault α) (List α) :=
  if t.shape.length ≤ 1 then .ok t.entries else .error .argumentUnexpected

/-- Sizes must be positive; no sizes are none. -/
def sizes? (given : Option (Nested α)) : Except (Fault α) (Option (List α)) :=
  match given with
  | none => .ok none
  | some nested => do
    let sizes ← numbers (← Tensor.ofNested? nested)
    if sizes.isEmpty then return none
    else if sizes.all fun e => decide (0 < e) then return some sizes
    else .error (.epsilonNotPositive sizes)

/-- A configuration for one problem, given by its name or by its maker. -/
def ofChoice? (catalogue : Catalogue α) (problem : ProblemChoice α)
    (epsilon : Option (Nested α)) (file : Option (ReferenceFile α)) :
    Except (Fault α) (Configuration α) := do
  return ⟨problem, ← sizes? epsilon, file, catalogue⟩

/-- The problem is settled before the sizes are looked at. -/
def make? (catalogue : Catalogue α) (known : Registry (Maker α)) (name path : Option String)
    (epsilon : Option (Nested α)) (file : Option (ReferenceFile α)) :
    Except (Fault α) (Configuration α) := do
  ofChoice? catalogue (← choose known name path) epsilon file

def label (c : Configuration α) : String :=
  match c.problem with
  | .named name => name
  | .made maker => maker.label

def policy (c : Configuration α) : Except (Fault α) (Policy α) :=
  Policy.ofSizes? (c.epsilon.map Tensor.vector)

/-- The name of what makes the problem; a problem named in the catalogue has no
maker. -/
def makerLabel (c : Configuration α) : Except (Fault α) String :=
  match c.problem with
  | .named _ => .error .noSuchOperation
  | .made maker => .ok maker.label

/-- No field of a configuration can be given another value. -/
def assign (_ : Configuration α) (_field : String) : Except (Fault α) (Configuration α) :=
  .error .fieldFrozen

/-- A fresh archive whose members are solutions themselves. -/
def archive (c : Configuration α) :
    Except (Fault α) (Container (Solution (List α) α) α) :=
  return .empty (← c.policy)

def makeProblem (c : Configuration α) : Except (Fault α) (Problem α) :=
  match c.problem with
  | .named name => c.catalogue.problem name
  | .made maker => maker.make ()

/-- Points without variables, one for each row; numbers without rows are one
point. -/
def referencePoints (t : Tensor α) : Except (Fault α) (List (Solution (List α) α)) :=
  let points := if t.shape.length < 2 then [.vector t.entries] else t.parts
  points.mapM fun point => Solution.make? [] point none []

/-- The rows of the reference set: a file goes before the catalogue. -/
def referenceRows (c : Configuration α) : Except (Fault α) (Tensor α) :=
  match c.file with
  | some file =>
    match file.table with
    | .ok t => .ok t
    | .error cause => .error (.referenceUnreadable file.name cause)
  | none =>
    match c.problem with
    | .made maker => .error (.noReferenceFor maker.label)
    | .named name => do
      match ← c.catalogue.reference name with
      | some t => return t
      | none => .error (.noReferenceFor name)

/-- The reference set, put into a fresh archive. -/
def referenceSet (c : Configuration α) :
    Except (Fault α) (Container (Solution (List α) α) α) := do
  let archive ← c.archive
  let points ← referencePoints (← c.referenceRows)
  let (archive, answer) := archive.addAll id points
  let _ ← answer
  return archive

end Configuration
end ParetoSearch
