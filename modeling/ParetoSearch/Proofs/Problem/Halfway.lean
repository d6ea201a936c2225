import ParetoSearch.Problem.Sample
import ParetoSearch.Proofs.Arithmetic.Extended
import ParetoSearch.Proofs.Problem.Batch

/-!
# Measuring that fails halfway

A function that fails, or that answers with the wrong number of values, ends the work, and
what was stored before that stays stored.  Objectives are stored before the constraints are
asked for.  So a solution whose constraints cannot be computed is left with the objectives
of this measuring and the constraints it had before, and reports that it is evaluated
(`FunctionProblem.constraints_left_behind`).  That is as far as it goes: a single solution
keeps its constraints, it keeps everything where the objectives fail, and on solutions of
one kind no batch stops between two of its members (`FunctionProblem.failed_measuring`).
-/

namespace ParetoSearch

variable {σ α β : Type}

/-! ## Work that leaves the solutions alone -/

/-- Every solution is left as it is, whether work succeeds or fails. -/
def Work.Idle (work : Work (World σ α) α β) : Prop :=
  ∀ w, work.Ends w (fun _ t => t.store = w.store) fun _ t => t.store = w.store

namespace Work

theorem idle_lift (r : Except (Fault α) β) : (lift r : Work (World σ α) α β).Idle :=
  fun _ => ends_lift (fun _ _ => rfl) fun _ _ => rfl

theorem Idle.bind {γ : Type} {work : Work (World σ α) α β} {f : β → Work (World σ α) α γ}
    (h : work.Idle) (hf : ∀ x, (f x).Idle) : (work >>= f).Idle := by
  intro w
  refine (h w).bind fun x t ht => (hf x t).mono ?_ ?_
  · exact fun _ _ hu => hu.trans ht
  · exact fun _ _ hu => hu.trans ht

theorem idle_mapM {f : β → Work (World σ α) α β} (h : ∀ x, (f x).Idle) (xs : List β) :
    (xs.mapM f).Idle := by
  induction xs with
  | nil => exact fun _ => rfl
  | cons x rest ih =>
    rw [List.mapM_cons]
    exact (h x).bind fun y => ih.bind fun ys _ => rfl

end Work

theorem liftRows_idle {call : Tensor α → Work (World σ α) α (Tensor α)}
    (h : ∀ x, (call x).Idle) (rows : List (Tensor α)) : (liftRows call rows).Idle := by
  rw [liftRows]
  refine (Work.idle_mapM h rows).bind fun ys => ?_
  by_cases hempty : ys.isEmpty = true
  · rw [if_pos hempty]
    exact Work.idle_lift _
  · rw [if_neg hempty]
    exact Work.idle_lift _

namespace FunctionProblem

theorem callObjectives_idle (p : FunctionProblem α) (x : Tensor α) :
    (p.callObjectives x : Work (World σ α) α (Tensor α)).Idle :=
  Work.Idle.bind (fun _ => rfl) fun _ => Work.idle_lift _

theorem callConstraints_idle (rule : Response α) (x : Tensor α) :
    (callConstraints rule x : Work (World σ α) α (Tensor α)).Idle :=
  Work.Idle.bind (fun _ => rfl) fun _ => Work.idle_lift _

end FunctionProblem

/-- What a rule refuses is not written. -/
theorem World.update_refused (r : Ref)
    (rule : Solution (Tensor α) α → Except (Fault α) (Solution (Tensor α) α)) (w : World σ α) :
    (update r rule).Ends w (fun _ _ => True) fun _ t => t = w := by
  rw [update, Work.ends_get_bind]
  refine Work.Ends.bind (P := fun _ _ => True) (Work.ends_lift (fun _ _ => trivial) ?_) ?_
  · exact fun _ _ => rfl
  · exact fun _ _ _ => Work.ends_set.mpr trivial

/-! ## A pass that stops -/

namespace Store.Changed

variable {X : Type} [Inhabited X] {change : Solution X α → Solution X α} {refs : List Ref}
  {s t : Store X α} {r : Ref}

theorem eq_of_nil (h : s.Changed change [] t) : t = s := (nil change s).unique h

theorem look_of_not_mem (h : s.Changed change refs t) (hr : r ∉ refs) : t.look r = s.look r := by
  rw [h.look_eq, if_neg fun hmem => hr hmem.1]

theorem look_cases (h : s.Changed change refs t) (r : Ref) :
    t.look r = change (s.look r) ∨ t.look r = s.look r := by
  rw [h.look_eq]
  split
  case isTrue => exact Or.inl rfl
  case isFalse => exact Or.inr rfl

end Store.Changed

namespace Fills

variable {f : Response α}
  {set : Solution (Tensor α) α → List α → Except (Fault α) (Solution (Tensor α) α)}
  {places : Solution (Tensor α) α → Nat}
  {change : Solution (Tensor α) α → Solution (Tensor α) α} {a b : Nat}
  {call : Tensor α → Work (World σ α) α (Tensor α)} {batch : List Ref} {w : World σ α}

/-- An answer that does not fit is not stored. -/
theorem ask_stops (h : Fills f set places change) (hcall : Calls f a b call)
    (hidle : ∀ x, (call x).Idle) {r : Ref} {x : Tensor α} (hx : x = (w.look r).decision) :
    (do
      let y ← call x
      World.update r fun z => set z y.entries).Ends w
      (fun _ t => f.Fits (places (w.look r)) (w.look r).decision ∧
        t.store = w.store.put r (change (w.look r)))
      fun _ t => ¬ f.Fits (places (w.look r)) (w.look r).decision ∧ t.store = w.store := by
  have hkept : (call x >>= fun y => World.update r fun z => set z y.entries).Ends w
      (fun _ _ => True) fun _ t => t.store = w.store := by
    refine (hidle x w).bind fun y t ht => (World.update_refused r _ t).mono (fun _ _ h => h) ?_
    rintro _ _ rfl
    exact ht
  refine ((h.ask_ends hcall hx).and hkept).mono ?_ fun _ _ h => h
  rintro _ _ ⟨⟨hfits, rfl⟩, -⟩
  exact ⟨hfits, rfl⟩

/-- Answers are stored one after another, up to the first that does not fit. -/
theorem store_stops (h : Fills f set places change)
    (hanswers : ∀ r ∈ batch, ∃ y, f (w.look r).decision = .ok y) :
    (batch.forM fun r => World.update r fun x => set x (f.values (w.look r).decision)).Ends w
      (fun _ _ => True)
      fun _ t => ∃ done r rest, batch = done ++ r :: rest ∧
        (∀ q ∈ done, f.Fits (places (w.look q)) (w.look q).decision) ∧
        ¬ f.Fits (places (w.look r)) (w.look r).decision ∧
        w.store.Changed change done t.store := by
  refine (Work.ends_forM_prefix
    (I := fun done t => (∀ q ∈ done, f.Fits (places (w.look q)) (w.look q).decision) ∧
      w.store.Changed change done t.store)
    (G := fun done r t => (∀ q ∈ done, f.Fits (places (w.look q)) (w.look q).decision) ∧
      ¬ f.Fits (places (w.look r)) (w.look r).decision ∧ w.store.Changed change done t.store)
    ⟨fun q hq => absurd hq List.not_mem_nil, .nil change _⟩ ?_).mono (fun _ _ _ => trivial)
    fun _ _ h => h
  rintro done r rest rfl t ⟨hdone, hchanged⟩
  have hdecision : (t.look r).decision = (w.look r).decision :=
    hchanged.keeps (g := Solution.decision) h.decision_eq r
  obtain ⟨y, hy⟩ := hanswers r (List.mem_append_right done List.mem_cons_self)
  rw [← hdecision] at hy ⊢
  rw [Response.values_of_ok hy]
  refine ((h.update_ends hy).and (World.update_refused r _ t)).mono ?_ ?_
  · rintro _ _ ⟨⟨hfits, rfl⟩, -⟩
    have hr : f.Fits (places (w.look r)) (w.look r).decision := by
      by_cases hmem : r ∈ done
      · exact hdone r hmem
      · have hlook : t.look r = w.look r := hchanged.look_of_not_mem hmem
        rwa [hlook] at hfits
    refine ⟨?_, hchanged.append h.again (.put change t.store r)⟩
    rw [List.forall_mem_append, List.forall_mem_singleton]
    exact ⟨hdone, hr⟩
  · rintro _ u ⟨hfails, hu⟩
    rw [hu]
    refine ⟨hdone, fun hfits => hfails ?_, hchanged⟩
    rw [hdecision] at hfits
    rcases hchanged.look_cases r with hlook | hlook
    · change t.look r = change (w.look r) at hlook
      rw [hlook]
      exact h.fits_change _ hfits
    · change t.look r = w.look r at hlook
      rwa [hlook]

/-- A pass that fails has rewritten the members in front of one, and on members of one
kind none at all. -/
theorem pass_stops (h : Fills f set places change) (hcall : Calls f a b call)
    (hidle : ∀ x, (call x).Idle) (hbatch : batch ≠ []) {xs : List (Tensor α)}
    (hxs : xs = batch.map fun r => (w.look r).decision) :
    (do
      let ys ← liftRows call xs
      (batch.zip ys).forM fun (r, y) => World.update r fun x => set x y.entries).Ends w
      (fun _ _ => True)
      fun _ t => ∃ done, done <+: batch ∧ done ≠ batch ∧ w.store.Changed change done t.store ∧
        (f.Plain → (∀ r ∈ batch, ∀ q ∈ batch, places (w.look q) = places (w.look r)) →
          done = []) := by
  subst hxs
  refine (((hcall.liftRows_ends _ w).and (hcall.liftRows_even _ w)).and
    (liftRows_idle hidle _ w)).mono (fun _ _ h => h) ?_ |>.bind ?_
  · rintro _ t ⟨-, ht⟩
    exact ⟨[], List.nil_prefix, hbatch.symm, ht ▸ .nil change _, fun _ _ => rfl⟩
  rintro ys t ⟨⟨⟨hanswers, hys, rfl⟩, heven⟩, -⟩
  rw [List.forall_mem_map] at hanswers
  rw [List.map_map] at hys
  rw [forM_zip hys fun r values => World.update r fun x => set x values]
  generalize w.tally.plus _ _ _ = tally
  refine (h.store_stops (w := { w with tally := tally }) hanswers).mono (fun _ _ h => h) ?_
  rintro _ t ⟨done, r, rest, rfl, hdone, hfails, hchanged⟩
  refine ⟨done, List.prefix_append _ _, fun hall => ?_, hchanged, fun hplain hplaces => ?_⟩
  · exact absurd (List.self_eq_append_right.mp hall) (List.cons_ne_nil r rest)
  -- A member in front of the one that does not fit would have an answer as long as its.
  cases done with
  | nil => rfl
  | cons q done =>
    have hq : q ∈ q :: done ++ r :: rest := List.mem_cons_self
    have hr : r ∈ q :: done ++ r :: rest := List.mem_append_right _ List.mem_cons_self
    have hlength := heven hplain _ (List.mem_map_of_mem hq) _ (List.mem_map_of_mem hr)
    have hfits : f.Fits (places (w.look r)) (w.look r).decision := by
      obtain ⟨y, hy⟩ := hanswers r hr
      refine ⟨y, hy, ?_⟩
      rw [← Response.values_of_ok hy, hplaces q hq r hr]
      exact hlength.trans (hdone q List.mem_cons_self).length_values
    exact absurd hfits hfails

end Fills

/-! ## Where a measuring stops -/

namespace FunctionProblem

/-- The objectives of a solution can be computed and stored. -/
def ObjectivesFit (p : FunctionProblem α) (x : Solution (Tensor α) α) : Prop :=
  p.objectives.Fits x.objectives.length x.decision

/-- The constraints of a solution can be computed and stored, if there are any. -/
def ConstraintsFit (p : FunctionProblem α) (x : Solution (Tensor α) α) : Prop :=
  ∀ rule, p.constraints = some rule → rule.Fits x.constraints.length x.decision

variable {p : FunctionProblem α} {batch : List Ref} {w t : World σ α}

theorem constraintsFit_of_some {rule : Response α} (h : p.constraints = some rule)
    {x : Solution (Tensor α) α} :
    p.ConstraintsFit x ↔ rule.Fits x.constraints.length x.decision := by
  refine ⟨fun hfits => hfits rule h, fun hfits other hother => ?_⟩
  rw [h] at hother
  cases hother
  exact hfits

/-- What is left of a batch that failed: the objectives of its first members are stored, or
those of all members, and the constraints of the first. -/
inductive Stops (p : FunctionProblem α) (batch done : List Ref) (w t : World σ α) : Prop where
  | answering (hfails : p.Plain → w.OneKind batch → ¬ ∀ r ∈ batch, p.ObjectivesFit (w.look r))
      (hchanged : w.store.Changed (Solution.answered p.objectives) done t.store)
  | judging (rule : Response α) (hrule : p.constraints = some rule)
      (hfits : ∀ r ∈ batch, p.ObjectivesFit (w.look r))
      (measured : Store (Tensor α) α)
      (hmeasured : w.store.Changed (Solution.answered p.objectives) batch measured)
      (hchanged : measured.Changed (Solution.judged rule) done t.store)

theorem evaluate_stops (p : FunctionProblem α) (r : Ref) (w : World σ α) :
    (p.evaluate r).Ends w (fun _ _ => True)
      fun _ t =>
        (¬ p.ObjectivesFit (w.look r) ∧ t.store = w.store) ∨
        (p.ObjectivesFit (w.look r) ∧ ¬ p.ConstraintsFit (w.look r) ∧
          t.store = w.store.put r ((w.look r).answered p.objectives)) := by
  rw [evaluate, Work.ends_get_bind, ← bind_assoc]
  refine (((Solution.answered_fills p.objectives).ask_stops p.callObjectives_calls
    p.callObjectives_idle rfl).mono (fun _ _ h => h) fun _ _ h => Or.inl h).bind ?_
  rintro ⟨⟩ t ⟨hobjectives, ht⟩
  cases hconstraints : p.constraints with
  | none => exact Work.ends_pure.mpr trivial
  | some rule =>
    have hchanged : w.store.Changed (Solution.answered p.objectives) [r] t.store :=
      ht ▸ .put _ w.store r
    have hdecision : (t.look r).decision = (w.look r).decision :=
      hchanged.keeps (g := Solution.decision) (fun _ => rfl) r
    have hplaces : (t.look r).constraints = (w.look r).constraints :=
      hchanged.keeps (g := Solution.constraints) (fun _ => rfl) r
    refine ((Solution.judged_fills rule).ask_stops (callConstraints_calls rule)
      (callConstraints_idle rule) hdecision.symm).mono (fun _ _ _ => trivial) ?_
    rintro _ u ⟨hfails, hu⟩
    rw [hdecision, hplaces, ← constraintsFit_of_some hconstraints] at hfails
    exact Or.inr ⟨hobjectives, hfails, hu.trans ht⟩

theorem batchwise_stops (p : FunctionProblem α) (batch : List Ref) (w : World σ α) :
    (p.batchwise.evaluateAll batch).Ends w (fun _ _ => True)
      fun _ t => ∃ done, done <+: batch ∧ done ≠ batch ∧ p.Stops batch done w t ∧
        (p.Plain → w.OneKind batch → done = []) := by
  change (p.evaluateBatch batch).Ends w _ _
  rw [evaluateBatch]
  split
  case isTrue => trivial
  case isFalse hempty =>
  have hbatch : batch ≠ [] := by simpa using hempty
  obtain ⟨first, hfirst⟩ := List.exists_mem_of_ne_nil batch hbatch
  rw [Work.ends_get_bind]
  refine Work.Ends.bind
    (P := fun xs t => xs = batch.map (fun r => (w.look r).decision) ∧ w = t) ?_ ?_
  · refine Work.ends_lift (fun xs hxs => ⟨Tensor.of_alike_ok hxs, rfl⟩) fun e he => ?_
    refine ⟨[], List.nil_prefix, hbatch.symm, .answering (fun _ hkind => ?_) (.nil _ _),
      fun _ _ => rfl⟩
    rw [Tensor.alike_ok (List.forall_mem_map.mpr (hkind.shape_eq first hfirst))] at he
    cases he
  rintro _ _ ⟨rfl, rfl⟩
  rw [← bind_assoc]
  refine ((((Solution.answered_fills p.objectives).pass_ends p.callObjectives_calls rfl).and
    ((Solution.answered_fills p.objectives).pass_stops p.callObjectives_calls
      p.callObjectives_idle hbatch rfl)).mono (fun _ _ h => h) ?_).bind ?_
  · rintro _ t ⟨hfails, done, hprefix, hne, hchanged, hdone⟩
    refine ⟨done, hprefix, hne, .answering (fun hplain hkind => ?_) hchanged,
      fun hplain hkind => ?_⟩
    · exact hfails hplain.objectives_plain hbatch hkind.objectives_eq
    · exact hdone hplain.objectives_plain hkind.objectives_eq
  rintro ⟨⟩ t ⟨⟨hobjectives, store, hmeasured, rfl⟩, -⟩
  cases hconstraints : p.constraints with
  | none => exact Work.ends_pure.mpr trivial
  | some rule =>
    have hdecision : ∀ r, (store.look r).decision = (w.look r).decision :=
      hmeasured.keeps (g := Solution.decision) fun _ => rfl
    have hplaces : ∀ r, (store.look r).constraints = (w.look r).constraints :=
      hmeasured.keeps (g := Solution.constraints) fun _ => rfl
    refine ((Solution.judged_fills rule).pass_stops (callConstraints_calls rule)
      (callConstraints_idle rule) hbatch ?_).mono (fun _ _ _ => trivial) ?_
    · exact List.map_congr_left fun r _ => (hdecision r).symm
    rintro _ t ⟨done, hprefix, hne, hchanged, hdone⟩
    refine ⟨done, hprefix, hne, .judging rule hconstraints hobjectives store hmeasured hchanged,
      ?_⟩
    intro hplain hkind
    refine hdone (hplain.constraints_plain rule hconstraints) fun r hr q hq => ?_
    change (store.look q).constraints.length = (store.look r).constraints.length
    rw [hplaces, hplaces]
    exact hkind.constraints_eq r hr q hq

/-- On solutions of one kind a batch does as one solution does: without objectives that can
be stored nothing changes, and otherwise all objectives are stored and no constraints. -/
theorem batchwise_stops_even (hplain : p.Plain) (hkind : w.OneKind batch) :
    (p.batchwise.evaluateAll batch).Ends w (fun _ _ => True)
      fun _ t =>
        (¬ (∀ r ∈ batch, p.ObjectivesFit (w.look r)) ∧ t.store = w.store) ∨
        ((∀ r ∈ batch, p.ObjectivesFit (w.look r)) ∧
          ¬ (∀ r ∈ batch, p.ConstraintsFit (w.look r)) ∧
          w.store.Changed (Solution.answered p.objectives) batch t.store) := by
  refine ((p.batchwise_ends batch w).and (p.batchwise_stops batch w)).mono
    (fun _ _ _ => trivial) ?_
  rintro _ t ⟨hsuits, done, -, -, hstops, hdone⟩
  cases hdone hplain hkind
  cases hstops with
  | answering hfails hchanged =>
    exact Or.inl ⟨hfails hplain hkind, hchanged.eq_of_nil⟩
  | judging rule hrule hfits measured hmeasured hchanged =>
    refine Or.inr ⟨hfits, fun hjudged => ?_, hchanged.eq_of_nil ▸ hmeasured⟩
    exact hsuits hplain hkind.shape_eq (hkind.uniform p) fun r hr => ⟨hfits r hr, hjudged r hr⟩

/-- What a failure leaves behind.  It writes constraints into no single solution, and into a
batch only if its members are not of one kind; and it writes objectives only if those are
what could be stored before something failed. -/
theorem failed_measuring (p : FunctionProblem α) (w : World σ α) {t : World σ α} {e : Fault α} :
    (∀ r, (p.evaluate r).run.run w = (.error e, t) →
      (¬ p.ObjectivesFit (w.look r) ∧ t.store = w.store) ∨
      (p.ObjectivesFit (w.look r) ∧ ¬ p.ConstraintsFit (w.look r) ∧
        t.store = w.store.put r ((w.look r).answered p.objectives))) ∧
    ∀ batch, (p.batchwise.evaluateAll batch).run.run w = (.error e, t) →
      (∃ done, done <+: batch ∧ done ≠ batch ∧ p.Stops batch done w t) ∧
      (p.Plain → w.OneKind batch →
        (¬ (∀ r ∈ batch, p.ObjectivesFit (w.look r)) ∧ t.store = w.store) ∨
        ((∀ r ∈ batch, p.ObjectivesFit (w.look r)) ∧
          ¬ (∀ r ∈ batch, p.ConstraintsFit (w.look r)) ∧
          w.store.Changed (Solution.answered p.objectives) batch t.store)) := by
  refine ⟨fun r hrun => (p.evaluate_stops r w).of_error hrun, fun batch hrun => ⟨?_, ?_⟩⟩
  · obtain ⟨done, hprefix, hne, hstops, -⟩ := (p.batchwise_stops batch w).of_error hrun
    exact ⟨done, hprefix, hne, hstops⟩
  · exact fun hplain hkind => (batchwise_stops_even hplain hkind).of_error hrun

/-- Both objectives are one, and the one value that the constraint function answers with is
not enough for two constraints. -/
noncomputable def lopsided : FunctionProblem (Extended ℝ) :=
  ⟨SampleObjective.constant.response, some SampleConstraint.never.response, 1, 2, 2, "constant"⟩

/-- Two solutions of the problem before they are measured. -/
noncomputable def unmeasured : World Unit (Extended ℝ) where
  store := .ofList [.unevaluated (.vector [0]) 2 2, .unevaluated (.vector [1]) 2 2]
  tally := {}
  sources := ()

theorem lopsided_plain : lopsided.Plain := by
  constructor
  · intro x y h
    cases h
    exact ⟨rfl, rfl⟩
  · intro rule hrule x y h
    cases hrule
    cases h
    exact ⟨rfl, rfl⟩

theorem unmeasured_oneKind : unmeasured.OneKind [⟨0⟩, ⟨1⟩] := by
  constructor <;> decide +revert

theorem failed_measuring_lopsided :
    make? SampleObjective.constant.response 1 2 (some SampleConstraint.never.response) 2 1
      "constant" = .ok lopsided ∧
    (∃ t, (lopsided.evaluate ⟨0⟩).run.run unmeasured = (.error (.constraintCount 2 1), t) ∧
      t.store = unmeasured.store.put ⟨0⟩
        ((unmeasured.look ⟨0⟩).answered lopsided.objectives)) ∧
    ∃ t, (lopsided.batchwise.evaluateAll [⟨0⟩, ⟨1⟩]).run.run unmeasured =
        (.error (.constraintCount 2 1), t) ∧
      unmeasured.store.Changed (Solution.answered lopsided.objectives) [⟨0⟩, ⟨1⟩] t.store := by
  have hfits : ∀ r ∈ [(⟨0⟩ : Ref), ⟨1⟩], lopsided.ObjectivesFit (unmeasured.look r) := by
    simp only [List.forall_mem_cons, List.not_mem_nil, false_implies, implies_true, and_true]
    exact ⟨⟨_, rfl, rfl⟩, _, rfl, rfl⟩
  refine ⟨rfl, ⟨_, rfl, ?_⟩, _, rfl, ?_⟩
  · obtain ⟨hfails, -⟩ | ⟨-, -, hstore⟩ := (failed_measuring lopsided unmeasured).1 ⟨0⟩ rfl
    · exact absurd (hfits ⟨0⟩ List.mem_cons_self) hfails
    · exact hstore
  · obtain ⟨hfails, -⟩ | ⟨-, -, hstore⟩ := ((failed_measuring lopsided unmeasured).2
      [⟨0⟩, ⟨1⟩] rfl).2 lopsided_plain unmeasured_oneKind
    · exact absurd hfits hfails
    · exact hstore

/-- Measuring fails, and yet the solution is evaluated, with the constraints that it had
before. -/
theorem constraints_left_behind : ∃ t,
    (lopsided.evaluate ⟨0⟩).run.run unmeasured = (.error (.constraintCount 2 1), t) ∧
      (unmeasured.look ⟨0⟩).objectives = [.nan, .nan] ∧
      (unmeasured.look ⟨0⟩).evaluated = false ∧
      (t.look ⟨0⟩).objectives = [.finite 1, .finite 1] ∧
      (t.look ⟨0⟩).constraints = (unmeasured.look ⟨0⟩).constraints ∧
      (t.look ⟨0⟩).evaluated = true := by
  obtain ⟨t, hrun, hlook⟩ : ∃ t : World Unit (Extended ℝ),
      (lopsided.evaluate ⟨0⟩).run.run unmeasured = (.error (.constraintCount 2 1), t) ∧
        t.look ⟨0⟩ = ⟨.vector [0], [.finite 1, .finite 1], [.finite 0, .finite 0], []⟩ :=
    ⟨_, rfl, rfl⟩
  refine ⟨t, hrun, rfl, rfl, ?_⟩
  rw [hlook]
  refine ⟨rfl, rfl, ?_⟩
  simp [Solution.evaluated]

end FunctionProblem
end ParetoSearch
