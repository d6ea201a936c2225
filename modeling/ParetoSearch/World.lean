import ParetoSearch.Store
import ParetoSearch.Work

/-!
# The world of a run

What a run changes outside itself: the store of solutions, what has been asked
of the problem, and the sources it draws from.
-/

namespace ParetoSearch

/-- What has been asked of a problem: each call of its two functions, and each
request to measure one solution by itself. -/
structure Tally where
  objectives : Nat := 0
  constraints : Nat := 0
  evaluations : Nat := 0
  closed : Bool := false

structure World (σ α : Type) where
  store : Store (Tensor α) α
  tally : Tally
  sources : σ

namespace World

variable {σ α : Type}

def start (sources : σ) : World σ α := ⟨.empty, {}, sources⟩

def look (w : World σ α) (r : Ref) : Solution (Tensor α) α := w.store.look r

/-- Work on the sources alone. -/
def drawn {β : Type} (w : Work σ α β) : Work (World σ α) α β :=
  w.within World.sources fun s world => { world with sources := s }

def count (f : Tally → Tally) : Work (World σ α) α Unit :=
  modify fun w => { w with tally := f w.tally }

/-- Change one solution by a rule that may refuse. -/
def update (r : Ref) (rule : Solution (Tensor α) α → Except (Fault α) (Solution (Tensor α) α)) :
    Work (World σ α) α Unit := do
  let w ← get
  let s ← Work.lift (rule (w.look r))
  set { w with store := w.store.put r s }

def insert (s : Solution (Tensor α) α) : Work (World σ α) α Ref := do
  let w ← get
  let (store, r) := w.store.insert s
  set { w with store := store }
  return r

end World
end ParetoSearch
