import ParetoSearch.Tensor

/-!
# Solutions

A solution holds decision variables of a type of their own, its objectives (all
minimised), and how far each constraint is violated.  The numbers of objectives
and constraints never change.  Attributes are annotations under a name; the
fitness of a search is one of them.
-/

namespace ParetoSearch

structure Solution (X α : Type) where
  decision : X
  objectives : List α
  constraints : List α
  attributes : List (String × α)

/-- The name under which a search keeps its fitness. -/
def fitnessName : String := "fitness"

namespace Solution

variable {X α : Type}

def attribute? (s : Solution X α) (name : String) : Option α :=
  s.attributes.lookup name

def replaceAttribute (name : String) (value : α) : List (String × α) → List (String × α)
  | [] => [(name, value)]
  | (n, v) :: rest =>
    if n = name then (n, value) :: rest else (n, v) :: replaceAttribute name value rest

def setAttribute (s : Solution X α) (name : String) (value : α) : Solution X α :=
  { s with attributes := replaceAttribute name value s.attributes }

def fitness? (s : Solution X α) : Option α := s.attribute? fitnessName

def setFitness (s : Solution X α) (value : α) : Solution X α := s.setAttribute fitnessName value

/-- The entries of what arrives as a vector. -/
def vectorOf? (part : Part) (t : Tensor α) : Except (Fault α) (List α) :=
  if t.shape.length ≠ 1 then .error (.notAVector part t.shape) else .ok t.entries

/-- Objectives and constraints must arrive as vectors.  The objectives are judged
before the constraints are read. -/
def make? (decision : X) (objectives : Tensor α) (constraints : Option (Nested α))
    (attributes : List (String × α)) : Except (Fault α) (Solution X α) := do
  let f ← vectorOf? .objectives objectives
  match constraints with
  | none => return ⟨decision, f, [], attributes⟩
  | some given =>
    return ⟨decision, f, ← vectorOf? .constraints (← Tensor.ofNested? given), attributes⟩

/-- Without annotations, from answers of functions. -/
def ofTensors? (decision : X) (objectives : Tensor α) (constraints : Option (Tensor α)) :
    Except (Fault α) (Solution X α) := do
  let f ← vectorOf? .objectives objectives
  let c ← (constraints.mapM (vectorOf? .constraints) : Except (Fault α) (Option (List α)))
  return ⟨decision, f, c.getD [], []⟩

def setObjectives (s : Solution X α) (values : List α) : Except (Fault α) (Solution X α) :=
  if values.length = s.objectives.length then .ok { s with objectives := values }
  else .error (.objectiveCount s.objectives.length values.length)

def setConstraints (s : Solution X α) (values : List α) : Except (Fault α) (Solution X α) :=
  if values.length = s.constraints.length then .ok { s with constraints := values }
  else .error (.constraintCount s.constraints.length values.length)

variable [Scalar α]

/-- Objectives to be measured, no violation known, no annotation. -/
def unevaluated (decision : X) (objectives constraints : Nat) : Solution X α :=
  ⟨decision, List.replicate objectives Scalar.unset, List.replicate constraints 0, []⟩

/-- Variables at zero, as one vector. -/
def blank? (dimension objectives constraints : Int) :
    Except (Fault α) (Solution (Tensor α) α) :=
  if objectives ≤ 0 then .error (.noObjectives objectives)
  else do
    let n ← Vector.count? dimension
    return unevaluated (.vector (List.replicate n 0)) (← Vector.count? objectives)
      (← Vector.count? constraints)

/-- Every objective holds a number. -/
def evaluated (s : Solution X α) : Bool := s.objectives.all Scalar.isNumber

/-- The sizes of all violations together. -/
def violation (s : Solution X α) : α := Vector.total (s.constraints.map Scalar.abs)

def feasible (s : Solution X α) : Bool := s.violation == 0

def describe (number : α → String) (s : Solution X α) : String :=
  "Solution(objectives=" ++ Text.bracketed (s.objectives.map number) ++ ", constraints="
    ++ Text.bracketed (s.constraints.map number) ++ ")"

end Solution
end ParetoSearch
