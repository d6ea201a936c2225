import ParetoSearch.Fitness.Tracker
import ParetoSearch.Container

/-!
# A tracked population

A population together with the solutions behind it and what the tracker knows of
it.  Members may also come and go without the tracker, which then finds out by
the size of the population at the next removal.
-/

namespace ParetoSearch

structure Tracked (X α : Type) [Scalar α] where
  store : Store X α
  population : Container Ref α
  tracker : Tracker α

namespace Tracked

variable {X α : Type} [Inhabited X] [Scalar α]

/-- The first `n` solutions of a store, not evaluated yet. -/
def start (store : Store X α) (n : Nat) : Tracked X α :=
  ⟨store, ⟨.unrestricted, store.refs.take n⟩, .start⟩

/-- A rule that leaves everything as it was when it fails. -/
def change {β : Type} (t : Tracked X α) (r : Except (Fault α) (Tracked X α × β)) :
    Tracked X α × Except (Fault α) β :=
  match r with
  | .error e => (t, .error e)
  | .ok (next, answer) => (next, .ok answer)

def evaluate (scheme : Scheme α) (t : Tracked X α) : Tracked X α × Except (Fault α) Unit :=
  t.change do
    let (tracker, store) ← t.tracker.evaluate scheme t.store t.population.members
    return ({ t with tracker := tracker, store := store }, ())

def remove (t : Tracked X α) (index : Int) : Tracked X α × Except (Fault α) Unit :=
  t.change do
    let (tracker, store, members) ← t.tracker.remove t.store t.population.members index
    return (⟨store, { t.population with members := members }, tracker⟩, ())

def add (t : Tracked X α) (r : Ref) : Tracked X α × Except (Fault α) Bool :=
  t.change do
    let (population, added) ← t.population.add t.store.look r
    return ({ t with population := population }, added)

def removeAt (t : Tracked X α) (index : Int) : Tracked X α × Except (Fault α) Ref :=
  t.change do
    let (population, r) ← t.population.removeAt index
    return ({ t with population := population }, r)

def clear (t : Tracked X α) : Tracked X α := { t with population := t.population.clear }

/-- Each member with the fitness written into it. -/
def members (t : Tracked X α) : List (Ref × Option α) :=
  t.population.members.map fun r => (r, (t.store.look r).fitness?)

end Tracked
end ParetoSearch
