import ParetoSearch.Search.Outcome
import ParetoSearch.Fitness.Tracker
import ParetoSearch.World

/-!
# The search, step by step

A search starts from a population, and each generation breeds offspring, measures
them, merges them with their parents and removes the worst until the size is as
before.  When to stop is up to the caller.

The collaborators are functions on the world of the run.  A step that fails
leaves the machine as far as it had come.
-/

namespace ParetoSearch

structure Machine (σ α : Type) [Scalar α] where
  world : World σ α
  population : List Ref
  tracker : Tracker α
  archive : Option (Container Ref α)
  evaluations : Nat
  generations : Nat
  ready : Bool

/-- What a search is made of. -/
structure Search (σ α : Type) where
  /-- The starting population. -/
  founders : Work (World σ α) α (List Ref)
  /-- Measure solutions, in order. -/
  measure : List Ref → Work (World σ α) α Unit
  /-- How many parents a family has. -/
  arity : Nat
  /-- Choose as many parents from a population. -/
  select : List Ref → Work (World σ α) α (List Ref)
  /-- The offspring of parents, as fresh solutions. -/
  evolve : List Ref → Work (World σ α) α (List Ref)
  scheme : Scheme α
  close : Work (World σ α) α Unit

namespace Machine

variable {σ α : Type} [Scalar α]

def start (world : World σ α) (archive : Option (Container Ref α)) : Machine σ α :=
  ⟨world, [], .start, archive, 0, 0, false⟩

def outside {β : Type} (w : Work (World σ α) α β) : Work (Machine σ α) α β :=
  w.within Machine.world fun world m => { m with world := world }

/-- Offer solutions to the archive, if one is kept. -/
def enrol (solutions : List Ref) : Work (Machine σ α) α Unit := do
  let m ← get
  match m.archive with
  | none => return
  | some a =>
    let (a, answer) := a.addAll m.world.look solutions
    set { m with archive := some a }
    let _ ← Work.lift answer

/-- Measure what is pending and account for all. -/
def take (s : Search σ α) (solutions pending : List Ref) : Work (Machine σ α) α Unit := do
  outside (s.measure pending)
  modify fun m => { m with evaluations := m.evaluations + solutions.length }
  enrol solutions

/-- Fitness for the population as it stands. -/
def assess (s : Search σ α) : Work (Machine σ α) α Unit := do
  let m ← get
  let (tracker, store) ←
    Work.lift (m.tracker.evaluate s.scheme m.world.store m.population)
  set { m with tracker := tracker, world := { m.world with store := store } }

def join (solutions : List Ref) : Work (Machine σ α) α Unit :=
  modify fun m => { m with population := m.population ++ solutions }

/-- Solutions that arrive measured are not measured again, and count all the
same. -/
def setUp (s : Search σ α) : Work (Machine σ α) α Unit := do
  if (← get).ready then Work.fail .alreadyStarted
  let solutions ← outside s.founders
  let world := (← get).world
  take s solutions (solutions.filter fun r => !(world.look r).evaluated)
  join solutions
  assess s
  modify fun m => { m with ready := true }

/-- Parents and their offspring. -/
def family (s : Search σ α) (population : List Ref) : Work (World σ α) α (List Ref) := do
  s.evolve (← s.select population)

section

variable (family : List Ref → Work (World σ α) α (List Ref)) (wanted : Nat)

/-- Families until there are as many offspring as wanted, from the offspring there are and the
machine.  Nothing bounds how many families that takes, and where it takes no end of them there
is no result. -/
def families : List Ref × Machine σ α → Option (Except (Fault α) (List Ref) × Machine σ α)
  | (offspring, m) =>
    if offspring.length < wanted then
      match (outside (family m.population)).run.run m with
      | (.ok children, m) => families.curry (offspring ++ children) m
      | (.error e, m) => some (.error e, m)
    else some (.ok offspring, m)
partial_fixpoint monotonicity fun _ _ hle (offspring, m) => by
  -- Only the next family is left to the recursion.
  dsimp only [Function.curry]
  split
  · split
    · exact hle _
    · exact .refl
  · exact .refl

end

/-- As many offspring as wanted, or some more. -/
def breed (s : Search σ α) (wanted : Nat) : Work (Machine σ α) α (List Ref) :=
  ExceptT.mk fun m => (families (family s) wanted ([], m)).getD (.error .endless, m)

/-- Remove the worst member and repair the fitness of the others. -/
def removeWorst : Work (Machine σ α) α Unit := do
  let m ← get
  let i ← Work.lift (Tracker.worstPlace m.world.store m.population)
  let (tracker, store, population) ←
    Work.lift (m.tracker.remove m.world.store m.population i)
  set { m with
    tracker := tracker, population := population, world := { m.world with store := store } }

def truncate : Nat → Work (Machine σ α) α Unit
  | 0 => return
  | n + 1 => do
    removeWorst
    truncate n

/-- One generation. -/
def iterate (s : Search σ α) : Work (Machine σ α) α Unit := do
  if !(← get).ready then Work.fail .iterateBeforeStart
  let size := (← get).population.length
  let offspring ← breed s size
  take s offspring offspring
  join offspring
  assess s
  truncate ((← get).population.length - size)
  modify fun m => { m with generations := m.generations + 1 }

/-- Set up at first, and then iterate. -/
def step (s : Search σ α) : Work (Machine σ α) α Unit := do
  if (← get).ready then iterate s else setUp s

/-- The state as it stands, to hand out. -/
def outcome : Work (Machine σ α) α (Outcome α) := do
  let m ← get
  if !m.ready then Work.fail .resultBeforeStart
  let fitness ← Work.lift m.tracker.fitness?
  Work.lift (Outcome.ofFitness? m.population fitness m.archive m.generations m.evaluations)

/-- Told of each generation before it runs; the answer says whether to stop. -/
abbrev Observer (σ α : Type) [Scalar α] := Outcome α → Nat → Work (World σ α) α Bool

def stops (observer : Option (Observer σ α)) (generation : Nat) : Work (Machine σ α) α Bool :=
  match observer with
  | none => return false
  | some f => do
    let o ← outcome
    outside (f o generation)

/-- So many further generations, numbered from `generation`. -/
def proceed (s : Search σ α) (observer : Option (Observer σ α)) :
    Nat → Nat → Work (Machine σ α) α Unit
  | 0, _ => return
  | n + 1, generation => do
    if ← stops observer generation then return
    iterate s
    proceed s observer n (generation + 1)

def run (s : Search σ α) (generations : Int) (observer : Option (Observer σ α)) :
    Work (Machine σ α) α (Outcome α) := do
  if generations < 0 then Work.fail (.generationsNegative generations)
  if !(← get).ready then setUp s
  proceed s observer generations.toNat 0
  outcome

def close (s : Search σ α) : Work (Machine σ α) α Unit := outside s.close

end Machine
end ParetoSearch
