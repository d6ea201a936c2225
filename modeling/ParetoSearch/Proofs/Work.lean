import Mathlib.Data.List.Forall2
import ParetoSearch.Work

/-!
# How work ends

How a run of several steps goes on after a step that does not fail, and what holds when
it ends, whether it succeeds or fails (`Work.Ends`).
-/

namespace ParetoSearch

theorem ok_bind {ε β γ : Type} (x : β) (f : β → Except ε γ) : (Except.ok x >>= f) = f x := rfl

theorem of_bind_ok {ε β γ : Type} {x : Except ε β} {f : β → Except ε γ} {z : γ}
    (h : (x >>= f) = .ok z) : ∃ y, x = .ok y ∧ f y = .ok z := by
  cases x with
  | error e => cases h
  | ok y => exact ⟨y, rfl, h⟩

theorem mapM_ok {ε β γ : Type} {f : β → Except ε γ} {g : β → γ} {xs : List β}
    (h : ∀ x ∈ xs, f x = .ok (g x)) : xs.mapM f = .ok (xs.map g) := by
  induction xs with
  | nil => rfl
  | cons x rest ih =>
    rw [List.forall_mem_cons] at h
    rw [List.mapM_cons, h.1, ok_bind, ih h.2, ok_bind]
    rfl

theorem of_mapM_ok {ε β γ : Type} {f : β → Except ε γ} {xs : List β} {ys : List γ}
    (h : xs.mapM f = .ok ys) : ys.length = xs.length ∧ ∀ y ∈ ys, ∃ x ∈ xs, f x = .ok y := by
  induction xs generalizing ys with
  | nil =>
    cases h
    exact ⟨rfl, fun y hy => absurd hy List.not_mem_nil⟩
  | cons x rest ih =>
    rw [List.mapM_cons] at h
    obtain ⟨first, hx, h⟩ := of_bind_ok h
    obtain ⟨tail, hrest, h⟩ := of_bind_ok h
    cases h
    obtain ⟨hlength, hmem⟩ := ih hrest
    refine ⟨congrArg (· + 1) hlength, fun y hy => ?_⟩
    rcases List.mem_cons.mp hy with rfl | hy
    · exact ⟨x, List.mem_cons_self, hx⟩
    · obtain ⟨x', hx', hy'⟩ := hmem y hy
      exact ⟨x', List.mem_cons_of_mem _ hx', hy'⟩

theorem mapM_ok_iff {ε β γ : Type} {f : β → Except ε γ} {xs : List β} {ys : List γ} :
    xs.mapM f = .ok ys ↔ List.Forall₂ (fun x y => f x = .ok y) xs ys := by
  induction xs generalizing ys with
  | nil =>
    rw [List.mapM_nil, List.forall₂_nil_left_iff]
    exact ⟨fun h => by cases h; rfl, fun h => by rw [h]; rfl⟩
  | cons x rest ih =>
    rw [List.mapM_cons]
    constructor
    · intro h
      obtain ⟨y, hy, h⟩ := of_bind_ok h
      obtain ⟨tail, htail, h⟩ := of_bind_ok h
      cases h
      exact .cons hy (ih.mp htail)
    · rintro (_ | ⟨hy, htail⟩)
      rw [hy, ok_bind, ih.mpr htail]
      rfl

theorem of_mapM_error {ε β γ : Type} {f : β → Except ε γ} {xs : List β} {e : ε}
    (h : xs.mapM f = .error e) : ∃ x ∈ xs, f x = .error e := by
  induction xs with
  | nil => cases h
  | cons x rest ih =>
    rw [List.mapM_cons] at h
    cases hx : f x with
    | error e' =>
      rw [hx] at h
      cases h
      exact ⟨x, List.mem_cons_self, hx⟩
    | ok y =>
      rw [hx, ok_bind] at h
      cases hrest : rest.mapM f with
      | error e' =>
        rw [hrest] at h
        cases h
        obtain ⟨x', hx', he⟩ := ih hrest
        exact ⟨x', List.mem_cons_of_mem _ hx', he⟩
      | ok ys =>
        rw [hrest] at h
        cases h

/-- A fold whose steps succeed and keep a property succeeds and keeps it. -/
theorem foldlM_ok {ε β γ : Type} {f : β → γ → Except ε β} {P : β → Prop} {xs : List γ} {b : β}
    (hb : P b) (hstep : ∀ x ∈ xs, ∀ b, P b → ∃ b', f b x = .ok b' ∧ P b') :
    ∃ b', xs.foldlM f b = .ok b' ∧ P b' := by
  induction xs generalizing b with
  | nil => exact ⟨b, rfl, hb⟩
  | cons x rest ih =>
    obtain ⟨b', hfirst, hb'⟩ := hstep x List.mem_cons_self b hb
    rw [List.foldlM_cons, hfirst, ok_bind]
    exact ih hb' fun x hx => hstep x (List.mem_cons_of_mem _ hx)

namespace Work

variable {σ α β γ : Type}

theorem run_bind {w : Work σ α β} {s t : σ} {x : β} (h : w.run.run s = (.ok x, t))
    (f : β → Work σ α γ) : (w >>= f).run.run s = (f x).run.run t := by
  rw [ExceptT.run_bind, StateT.run_bind, h]
  rfl

theorem run_bind_fault {w : Work σ α β} {s t : σ} {e : Fault α}
    (h : w.run.run s = (.error e, t)) (f : β → Work σ α γ) :
    (w >>= f).run.run s = (.error e, t) := by
  rw [ExceptT.run_bind, StateT.run_bind, h]
  rfl

theorem run_get (s : σ) : (get : Work σ α σ).run.run s = (.ok s, s) := rfl

theorem run_lift {r : Except (Fault α) β} {x : β} (h : r = .ok x) (s : σ) :
    (lift r : Work σ α β).run.run s = (.ok x, s) := by
  rw [h]
  rfl

/-- What holds of the answer and the state where work succeeds, and of the fault and the
state where it fails. -/
def Ends (w : Work σ α β) (s : σ) (done : β → σ → Prop) (failed : Fault α → σ → Prop) : Prop :=
  match w.run.run s with
  | (.ok x, t) => done x t
  | (.error e, t) => failed e t

section

variable {w : Work σ α β} {f : β → Work σ α γ} {s t : σ} {x : β} {e : Fault α}
  {P : β → σ → Prop} {F : Fault α → σ → Prop}

theorem ends_of_run (h : w.run.run s = (.ok x, t)) (hx : P x t) : w.Ends s P F := by
  rw [Ends, h]
  exact hx

theorem ends_of_fault (h : w.run.run s = (.error e, t)) (he : F e t) :
    w.Ends s P F := by
  rw [Ends, h]
  exact he

theorem Ends.of_ok (h : w.Ends s P F) (hrun : w.run.run s = (.ok x, t)) : P x t := by
  rwa [Ends, hrun] at h

theorem Ends.of_error (h : w.Ends s P F) (hrun : w.run.run s = (.error e, t)) :
    F e t := by
  rwa [Ends, hrun] at h

/-- What cannot fail succeeds. -/
theorem Ends.run (h : w.Ends s P F) (hF : ∀ e t, ¬ F e t) :
    ∃ x t, w.run.run s = (.ok x, t) ∧ P x t := by
  unfold Ends at h
  split at h
  case h_1 x t hrun => exact ⟨x, t, hrun, h⟩
  case h_2 e t _ => exact absurd h (hF e t)

/-- What holds whether work succeeds or fails holds of the state it leaves. -/
theorem Ends.state {Q : σ → Prop} (h : w.Ends s (fun _ t => Q t) fun _ t => Q t) :
    Q (w.run.run s).2 := by
  unfold Ends at h
  split at h
  case h_1 x t hrun => rw [hrun]; exact h
  case h_2 e t hrun => rw [hrun]; exact h

theorem ends_of_state {Q : σ → Prop} (h : Q (w.run.run s).2) :
    w.Ends s (fun _ t => Q t) fun _ t => Q t := by
  cases hrun : w.run.run s with
  | mk answer t =>
    rw [hrun] at h
    cases answer with
    | ok x => exact ends_of_run hrun h
    | error e => exact ends_of_fault hrun h

theorem ends_congr {w' : Work σ α β} (h : w.run.run s = w'.run.run s) :
    w.Ends s P F ↔ w'.Ends s P F := by
  rw [Ends, Ends, h]

theorem Ends.mono {P' : β → σ → Prop} {F' : Fault α → σ → Prop}
    (h : w.Ends s P F) (hdone : ∀ x t, P x t → P' x t)
    (hfailed : ∀ e t, F e t → F' e t) : w.Ends s P' F' := by
  unfold Ends at h ⊢
  split
  case h_1 x t hrun => rw [hrun] at h; exact hdone x t h
  case h_2 e t hrun => rw [hrun] at h; exact hfailed e t h

theorem Ends.bind {Q : γ → σ → Prop} (h : w.Ends s P F)
    (hf : ∀ x t, P x t → (f x).Ends t Q F) : (w >>= f).Ends s Q F := by
  rw [Ends, ExceptT.run_bind, StateT.run_bind]
  cases hrun : w.run.run s with
  | mk answer t =>
    rw [Ends, hrun] at h
    cases answer with
    | ok x => exact hf x t h
    | error e => exact h

theorem Ends.and {P' : β → σ → Prop} {F' : Fault α → σ → Prop} (h : w.Ends s P F)
    (h' : w.Ends s P' F') : w.Ends s (fun x t => P x t ∧ P' x t) fun e t => F e t ∧ F' e t := by
  unfold Ends at h h' ⊢
  split
  case h_1 x t hrun => rw [hrun] at h h'; exact ⟨h, h'⟩
  case h_2 e t hrun => rw [hrun] at h h'; exact ⟨h, h'⟩

/-- Work on a part changes nothing else. -/
theorem ends_within {τ : Type} {part : σ → τ} {put : τ → σ → σ} {w : Work τ α β}
    {P : β → τ → Prop} {F : Fault α → τ → Prop} (h : w.Ends (part s) P F) :
    (w.within part put).Ends s (fun x t => ∃ u, t = put u s ∧ P x u)
      fun e t => ∃ u, t = put u s ∧ F e u := by
  have hwithin : (w.within part put).run.run s =
      ((w.run.run (part s)).1, put (w.run.run (part s)).2 s) := rfl
  cases hrun : w.run.run (part s) with
  | mk answer u =>
    rw [hrun] at hwithin
    cases answer with
    | ok x => exact ends_of_run hwithin ⟨u, rfl, h.of_ok hrun⟩
    | error e => exact ends_of_fault hwithin ⟨u, rfl, h.of_error hrun⟩

theorem ends_trivial (w : Work σ α β) (s : σ) : w.Ends s (fun _ _ => True) fun _ _ => True := by
  unfold Ends
  split <;> trivial

theorem ends_self (w : Work σ α β) (s : σ) : w.Ends s (fun x t => w.run.run s = (.ok x, t))
    fun e t => w.run.run s = (.error e, t) := by
  unfold Ends
  split
  case h_1 h => exact h
  case h_2 h => exact h

theorem ends_pure : (pure x : Work σ α β).Ends s P F ↔ P x s := Iff.rfl

theorem ends_get_bind {f : σ → Work σ α β} :
    (get >>= f).Ends s P F ↔ (f s).Ends s P F := Iff.rfl

theorem ends_modify {g : σ → σ} {Q : PUnit → σ → Prop} :
    (modify g : Work σ α PUnit).Ends s Q F ↔ Q ⟨⟩ (g s) := Iff.rfl

theorem ends_set {Q : PUnit → σ → Prop} :
    (set t : Work σ α PUnit).Ends s Q F ↔ Q ⟨⟩ t := Iff.rfl

theorem ends_forM {f : γ → Work σ α PUnit} {xs : List γ} {I : σ → Prop} (hs : I s)
    (hstep : ∀ x ∈ xs, ∀ s, I s → (f x).Ends s (fun _ t => I t) F) :
    (xs.forM f).Ends s (fun _ t => I t) F := by
  induction xs generalizing s with
  | nil => exact hs
  | cons x rest ih =>
    rw [List.forM]
    refine (hstep x List.mem_cons_self s hs).bind fun _ t ht => ?_
    exact ih ht fun x hx => hstep x (List.mem_cons_of_mem _ hx)

/-- What is kept may speak of the part that is done, and a loop that fails has done a part. -/
theorem ends_forM_prefix {f : γ → Work σ α PUnit} {xs : List γ} {I : List γ → σ → Prop}
    {G : List γ → γ → σ → Prop} (hs : I [] s)
    (hstep : ∀ done x rest, xs = done ++ x :: rest → ∀ t, I done t →
      (f x).Ends t (fun _ u => I (done ++ [x]) u) fun _ u => G done x u) :
    (xs.forM f).Ends s (fun _ t => I xs t)
      fun _ t => ∃ done x rest, xs = done ++ x :: rest ∧ G done x t := by
  induction xs generalizing s I G with
  | nil => exact hs
  | cons x rest ih =>
    rw [List.forM]
    refine ((hstep [] x rest rfl s hs).mono (fun _ _ h => h) ?_).bind fun _ t ht => ?_
    · exact fun _ _ h => ⟨[], x, rest, rfl, h⟩
    · refine (ih (I := fun done => I (x :: done)) (G := fun done => G (x :: done)) ht ?_).mono
        (fun _ _ h => h) ?_
      · intro done y rest' hrest
        exact hstep (x :: done) y rest' (congrArg (x :: ·) hrest)
      · rintro _ _ ⟨done, y, rest', hrest, h⟩
        exact ⟨x :: done, y, rest', congrArg (x :: ·) hrest, h⟩

/-- What is kept may speak of the answers so far. -/
theorem ends_mapM {f : γ → Work σ α β} {xs : List γ} {I : List β → σ → Prop} (hs : I [] s)
    (hstep : ∀ x ∈ xs, ∀ ys s, I ys s → (f x).Ends s (fun y t => I (ys ++ [y]) t) F) :
    (xs.mapM f).Ends s I F := by
  induction xs generalizing s I with
  | nil => exact hs
  | cons x rest ih =>
    rw [List.mapM_cons]
    refine (hstep x List.mem_cons_self [] s hs).bind fun y t ht => ?_
    have hrest := ih (I := fun ys => I (y :: ys)) ht fun x hx ys s hys =>
      hstep x (List.mem_cons_of_mem _ hx) (y :: ys) s hys
    exact hrest.bind fun ys u hu => ends_pure.mpr hu

theorem ends_mapM_length (f : γ → Work σ α β) (xs : List γ) (s : σ) :
    (xs.mapM f).Ends s (fun ys _ => ys.length = xs.length) fun _ _ => True := by
  induction xs generalizing s with
  | nil => exact rfl
  | cons x rest ih =>
    rw [List.mapM_cons]
    refine (ends_trivial (f x) s).bind fun y t _ => (ih t).bind fun ys u hys => ?_
    exact ends_pure.mpr (congrArg (· + 1) hys)

theorem ends_lift {r : Except (Fault α) β} (hok : ∀ x, r = .ok x → P x s)
    (herror : ∀ e, r = .error e → F e s) : (lift r).Ends s P F := by
  cases r with
  | ok x => exact hok x rfl
  | error e => exact herror e rfl

theorem ends_lift_bind {r : Except (Fault α) β} {Q : γ → σ → Prop}
    (hok : ∀ x, r = .ok x → (f x).Ends s Q F) (herror : ∀ e, r = .error e → F e s) :
    (lift r >>= f).Ends s Q F := by
  cases r with
  | ok x => exact hok x rfl
  | error e => exact herror e rfl

end

end Work
end ParetoSearch
