import ParetoSearch.Search.Machine
import ParetoSearch.Initialization
import ParetoSearch.Tournament
import ParetoSearch.Variation.Family
import ParetoSearch.Registry.Schemes

/-!
# Searches put together

The usual collaborators: a problem of functions, a sampler, crossover and
mutation, and tournaments.  `Request.run` goes from functions on individuals to
an outcome; the first individual it draws fixes the shape of the problem.
-/

namespace ParetoSearch

/-- The parts of a search that the caller chooses. -/
structure Assembly (σ α : Type) [Scalar α] where
  problem : Problem α
  initialization : Initialization σ α
  variation : Variation σ α
  scheme : Scheme α
  /-- Without one, parents are chosen by tournaments of two on fitness. -/
  selection : Option (Tournament α)
  /-- Draws for the tournaments. -/
  dice : Dice σ α

namespace Assembly

variable {σ α : Type} [Scalar α]

/-- Larger fitness is better. -/
def fitnessComparator : Comparator α := .fitness true

def tournament (a : Assembly σ α) : Tournament α :=
  a.selection.getD (.binary fitnessComparator)

/-- Whether parents are chosen by the comparator of the search itself. -/
def selectsByFitness (a : Assembly σ α) : Bool := a.selection.isNone

def select (a : Assembly σ α) (population : List Ref) : Work (World σ α) α (List Ref) := do
  let w ← get
  World.drawn (a.tournament.select w.look a.dice a.variation.arity population)

def evolve (a : Assembly σ α) (parents : List Ref) : Work (World σ α) α (List Ref) := do
  let w ← get
  let children ← World.drawn (a.variation.evolve (parents.map w.look))
  children.mapM World.insert

def search (a : Assembly σ α) : Search σ α :=
  { founders := a.initialization.populate
    measure := a.problem.evaluateAll
    arity := a.variation.arity
    select := a.select
    evolve := a.evolve
    scheme := a.scheme
    close := a.problem.close }

end Assembly

/-- A whole run on functions of one individual. -/
structure Request (σ α : Type) [Scalar α] where
  sampler : Sampler σ α
  objectives : Response α
  constraints : Option (Response α)
  variation : Variation σ α
  size : Int
  generations : Int
  workers : Int
  indicator : String
  kappa : Argument α
  epsilon : Option (Nested α)
  dice : Dice σ α
  observer : Option (Machine.Observer σ α)

namespace Request

variable {σ α : Type} [Scalar α]

/-- The scheme a request names, when its numbers make sense. -/
def scheme? (q : Request σ α) : Except (Fault α) (Scheme α) :=
  if q.size ≤ 0 then .error (.populationSize q.size)
  else if q.generations < 0 then .error (.generationsNegative q.generations)
  else if !FunctionProblem.validWorkers q.workers then .error (.workers q.workers)
  else do
    let built ← SchemeRegistry.get SchemeRegistry.standard q.indicator { kappa := q.kappa }
    return built.scheme

/-- The violations of the first individual, where there is a rule. -/
def firstViolations (q : Request σ α) (x : Tensor α) :
    Work (World σ α) α (Option (Tensor α)) := do
  match q.constraints with
  | none => return none
  | some rule => return some (← FunctionProblem.callConstraints rule x).atLeastVector

/-- The search, with the first individual measured and a fresh archive. -/
def prepare (q : Request σ α) : Work (World σ α) α (Search σ α × Policy α) := do
  let scheme ← Work.lift q.scheme?
  let x ← World.drawn q.sampler
  World.count fun t => { t with objectives := t.objectives + 1 }
  let f := (← Work.lift (q.objectives x)).atLeastVector
  let c ← q.firstViolations x
  let n ← Work.lift x.extent?
  let violations := (c.map Tensor.leading).getD 0
  let problem ← Work.lift
    (FunctionProblem.make? q.objectives n f.leading q.constraints violations q.workers "problem")
  let first ← World.insert (← Work.lift (Solution.ofTensors? x f c))
  let initialization ← Work.lift (Initialization.make? problem q.size q.sampler [first])
  let policy ← Work.lift (do Policy.ofSizes? (← q.epsilon.mapM Tensor.ofNested?))
  let assembly : Assembly σ α :=
    ⟨⟨problem, false⟩, initialization, q.variation, scheme, none, q.dice⟩
  return (assembly.search, policy)

/-- Run, and close the problem whatever comes of it. -/
def run (q : Request σ α) : Work (World σ α) α (Outcome α) := do
  let (s, policy) ← q.prepare
  let (r, m) := (Machine.run s q.generations q.observer).run.run
    (.start (← get) (some (.empty policy)))
  set m.world
  s.close
  Work.lift r

end Request
end ParetoSearch
