import ParetoSearch.World

/-!
# Problems

A problem is a function from variables to objectives, perhaps with one to
constraint violations.  A batch computes all objectives before it stores any,
and likewise the constraints after that; one by one, each solution is finished
before the next.
-/

namespace ParetoSearch

/-- A function on one individual.  A single number stands for a vector of one. -/
abbrev Response (α : Type) := Tensor α → Except (Fault α) (Tensor α)

structure FunctionProblem (α : Type) where
  objectives : Response α
  constraints : Option (Response α)
  variableCount : Int
  objectiveCount : Int
  constraintCount : Int
  name : String

/-- A problem, and whether it takes a whole batch or only single solutions. -/
structure Problem (α : Type) extends FunctionProblem α where
  oneByOne : Bool

/-- Answers of one shape, for at least one individual. -/
def liftRows {σ α : Type} (call : Tensor α → Work σ α (Tensor α)) (rows : List (Tensor α)) :
    Work σ α (List (Tensor α)) := do
  let answers ← rows.mapM call
  if answers.isEmpty then Work.fail .shapeMismatch
  Work.lift (Tensor.alike (answers.map Tensor.atLeastVector))

/-- The answers of a function on each of several individuals.  However many share
the work, the answers come in order; only no worker at all is refused. -/
def liftResponse {α : Type} (f : Response α) (workers : Int) (rows : List (Tensor α)) :
    Except (Fault α) (Tensor α) := do
  if workers = 0 then .error .noWorkers
  Tensor.join (← ((liftRows (fun x => Work.lift (f x)) rows : Work Unit α _).run.run ()).1)

namespace FunctionProblem

variable {σ α : Type}

def validWorkers (workers : Int) : Bool := decide (1 ≤ workers) || workers == -1

def make? (objectives : Response α) (variableCount objectiveCount : Int)
    (constraints : Option (Response α)) (constraintCount workers : Int) (name : String) :
    Except (Fault α) (FunctionProblem α) :=
  if variableCount ≤ 0 then .error (.variablesNotPositive variableCount)
  else if objectiveCount ≤ 0 then .error (.noObjectives objectiveCount)
  else if constraints.isNone != (constraintCount == 0) then .error .constraintsApart
  else if !validWorkers workers then .error (.workers workers)
  else .ok ⟨objectives, constraints, variableCount, objectiveCount, constraintCount, name⟩

def newSolution [Scalar α] (p : FunctionProblem α) : Except (Fault α) (Solution (Tensor α) α) :=
  Solution.blank? p.variableCount p.objectiveCount p.constraintCount

def callObjectives (p : FunctionProblem α) (x : Tensor α) : Work (World σ α) α (Tensor α) := do
  World.count fun t => { t with objectives := t.objectives + 1 }
  Work.lift (p.objectives x)

def callConstraints (f : Response α) (x : Tensor α) : Work (World σ α) α (Tensor α) := do
  World.count fun t => { t with constraints := t.constraints + 1 }
  Work.lift (f x)

/-- Objectives are stored before the constraints are asked for. -/
def evaluate (p : FunctionProblem α) (r : Ref) : Work (World σ α) α Unit := do
  let x := ((← get).look r).decision
  let f ← p.callObjectives x
  World.update r fun s => s.setObjectives f.entries
  match p.constraints with
  | none => return
  | some rule =>
    let c ← callConstraints rule x
    World.update r fun s => s.setConstraints c.entries

def evaluateBatch (p : FunctionProblem α) (batch : List Ref) : Work (World σ α) α Unit := do
  if batch.isEmpty then return
  let w ← get
  let xs ← Work.lift (Tensor.alike (batch.map fun r => (w.look r).decision))
  let fs ← liftRows p.callObjectives xs
  (batch.zip fs).forM fun (r, f) => World.update r fun s => s.setObjectives f.entries
  match p.constraints with
  | none => return
  | some rule =>
    let cs ← liftRows (callConstraints rule) xs
    (batch.zip cs).forM fun (r, c) => World.update r fun s => s.setConstraints c.entries

def describe (p : FunctionProblem α) : String :=
  "FunctionProblem(name=" ++ Text.quoted p.name ++ ", n_vars=" ++ toString p.variableCount
    ++ ", n_obj=" ++ toString p.objectiveCount ++ ")"

end FunctionProblem

namespace Problem

variable {σ α : Type}

/-- Measure one solution.  A problem that only takes single solutions counts the
request. -/
def evaluate (p : Problem α) (r : Ref) : Work (World σ α) α Unit := do
  if p.oneByOne then World.count fun t => { t with evaluations := t.evaluations + 1 }
  p.toFunctionProblem.evaluate r

/-- Measure several, as one batch where the problem takes one. -/
def evaluateAll (p : Problem α) (solutions : List Ref) : Work (World σ α) α Unit :=
  if p.oneByOne then solutions.forM p.evaluate
  else p.evaluateBatch solutions

/-- A new solution with the variables given. -/
def insertNew [Scalar α] (p : Problem α) (x : Tensor α) : Work (World σ α) α Ref := do
  World.insert { ← Work.lift p.newSolution with decision := x }

/-- The objectives of one individual, measured on a new solution. -/
def objectivesAt [Scalar α] (p : Problem α) (x : Tensor α) : Except (Fault α) (List α) :=
  let work : Work (World Unit α) α (List α) := do
    let r ← p.insertNew x
    p.evaluate r
    return ((← get).look r).objectives
  (work.run.run (.start ())).1

def close (p : Problem α) : Work (World σ α) α Unit :=
  if p.oneByOne then World.count fun t => { t with closed := true } else return

/-- A problem that only takes single solutions shows no name. -/
def name? (p : Problem α) : Except (Fault α) String :=
  if p.oneByOne then .error .noSuchOperation else .ok p.name

/-- Whether the problem was closed, where that leaves a mark. -/
def closed? (p : Problem α) (t : Tally) : Option Bool :=
  if p.oneByOne then some t.closed else none

/-- How many single solutions were measured, where that is counted. -/
def calls? (p : Problem α) (t : Tally) : Option Nat :=
  if p.oneByOne then some t.evaluations else none

end Problem
end ParetoSearch
