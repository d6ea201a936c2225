import ParetoSearch.Container
import ParetoSearch.Ranking
import ParetoSearch.Store

/-!
# Outcomes

What a run hands out: references to the population and the archive as they stood,
and the fitness as numbers of its own.  The solutions behind the references stay
shared with the run.
-/

namespace ParetoSearch

structure Outcome (α : Type) [Scalar α] where
  population : List Ref
  fitness : List α
  archive : Option (Container Ref α)
  generations : Int
  evaluations : Int

/-- A fitness from outside: numbers of some shape, or a value of another type. -/
inductive GivenFitness (α : Type) where
  | array (t : Tensor α)
  | other (typeName : String)

namespace Outcome

variable {X α : Type} [Inhabited X] [Scalar α]

def ofFitness? (population : List Ref) (fitness : List α) (archive : Option (Container Ref α))
    (generations evaluations : Int) : Except (Fault α) (Outcome α) :=
  if fitness.length ≠ population.length then
    .error (.fitnessCount fitness.length population.length)
  else .ok ⟨population, fitness, archive, generations, evaluations⟩

/-- The fitness must be a vector with an entry for each member. -/
def make? (population : List Ref) (fitness : GivenFitness α)
    (archive : Option (Container Ref α)) (generations evaluations : Int) :
    Except (Fault α) (Outcome α) :=
  match fitness with
  | .other typeName => .error (.fitnessNotAnArray typeName)
  | .array t =>
    if t.shape.length ≠ 1 then .error (.notAVector .fitness t.shape)
    else ofFitness? population t.entries archive generations evaluations

/-- An outcome shows the container it was made with: what is removed from that
container later is missing here too, and the fitness stays. -/
def withPopulation (o : Outcome α) (population : List Ref) : Outcome α :=
  { o with population := population }

/-- No field of an outcome can be given another value. -/
def assign (_ : Outcome α) (_field : String) : Except (Fault α) (Outcome α) :=
  .error .fieldFrozen

def objectives (o : Outcome α) (store : Store X α) : Except (Fault α) (List (List α)) :=
  Vector.stack (o.population.map fun r => (store.look r).objectives)

/-- The members of rank zero. -/
def front (o : Outcome α) (store : Store X α) : Except (Fault α) (List Ref) := do
  let rows ← o.objectives store
  return ((o.population.zip (ranks rows)).filter fun p => p.2 == 0).map Prod.fst

end Outcome
end ParetoSearch
