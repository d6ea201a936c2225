import ParetoSearch.Fault

/-!
# Work

Work changes a state and may fail.  What was changed before it failed stays
changed: a draw is not undone, and a solution that was measured stays measured.
-/

namespace ParetoSearch

abbrev Work (σ α : Type) := ExceptT (Fault α) (StateM σ)

namespace Work

variable {σ τ α β : Type}

/-- A rule that touches no state. -/
def lift (r : Except (Fault α) β) : Work σ α β := ExceptT.mk (pure r)

def fail (e : Fault α) : Work σ α β := lift (.error e)

/-- Work on a part of a larger state. -/
def within (part : σ → τ) (put : τ → σ → σ) (w : Work τ α β) : Work σ α β :=
  ExceptT.mk fun s =>
    let (r, t) := w.run.run (part s)
    (r, put t s)

/-- One piece of work after another on the same state, each with its answer. -/
def series : List (Work σ α β) → σ → List (Except (Fault α) β)
  | [], _ => []
  | w :: rest, s =>
    let (r, s) := w.run.run s
    r :: series rest s

end Work
end ParetoSearch
