import ParetoSearch.Search.Machine
import ParetoSearch.Initialization

/-!
# The setting of a run

Where a run takes its chance from, part by part, and what is written down about
it.  Sampling and tournaments share one source; crossover and mutation have one
each.
-/

namespace ParetoSearch

/-- A search as it stood before a generation. -/
structure Milestone where
  generation : Nat
  population : Nat
  generations : Int
  evaluations : Int
  front : Nat
  deriving Repr

structure Setting (α : Type) where
  search : Source α
  crossover : Source α
  mutation : Source α
  /-- Samples in turn, for a search that does not draw them. -/
  samples : Cycle (Nested α)
  /-- The latest comes last. -/
  log : List Milestone

namespace Setting

variable {α : Type} [Scalar α]

def searchDice : Dice (Setting α) α :=
  Dice.ofSource.within Setting.search fun s setting => { setting with search := s }

def crossoverDice : Dice (Setting α) α :=
  Dice.ofSource.within Setting.crossover fun s setting => { setting with crossover := s }

def mutationDice : Dice (Setting α) α :=
  Dice.ofSource.within Setting.mutation fun s setting => { setting with mutation := s }

def nextSample : Work (Setting α) α (Tensor α) :=
  Sampler.fixed.within Setting.samples fun c setting => { setting with samples := c }

/-- A machine that has written nothing down yet. -/
def clearLog (m : Machine (Setting α) α) : Machine (Setting α) α :=
  { m with world := { m.world with sources := { m.world.sources with log := [] } } }

/-- Write a milestone down, and stop at one generation. -/
def watch (stopAt : Option Int) : Machine.Observer (Setting α) α := fun outcome generation => do
  let front ← Work.lift (outcome.front (← get).store)
  let milestone : Milestone :=
    ⟨generation, outcome.population.length, outcome.generations, outcome.evaluations, front.length⟩
  modify fun w => { w with sources := { w.sources with log := w.sources.log ++ [milestone] } }
  return stopAt == some (generation : Int)

end Setting
end ParetoSearch
