import ParetoSearch.Proofs.Search.Assembled
import ParetoSearch.Proofs.Search.Steady
import ParetoSearch.Proofs.Tournament

/-!
# Parts that never fail

A search that is put together from the usual parts never fails if the functions in them do
not (`Assembly.Sound`): those of the problem, the sampler, recombination and mutation
answer vectors of one length each, and draws fall in range.  Then all solutions keep one
shape (`World.Stocked`), which is why no batch is ragged, no answer has the wrong length
and no parent is missing (`Assembly.search_reliable`).
-/

namespace ParetoSearch

variable {σ α : Type}

/-! ## Solutions of one shape -/

/-- How long the three vectors of a solution are. -/
structure Dimensions where
  decision : Nat
  objectives : Nat
  constraints : Nat

structure Tensor.IsVector (n : Nat) (x : Tensor α) : Prop where
  shape_eq : x.shape = [n]
  entries_length : x.entries.length = n

structure Solution.Shaped (d : Dimensions) (x : Solution (Tensor α) α) : Prop where
  decision_vector : x.decision.IsVector d.decision
  objectives_length : x.objectives.length = d.objectives
  constraints_length : x.constraints.length = d.constraints

namespace World

/-- So many solutions, all of one shape. -/
structure Stocked (d : Dimensions) (n : Nat) (w : World σ α) : Prop where
  size_eq : w.store.size = n
  shaped : ∀ r : Ref, r.index < n → (w.look r).Shaped d

variable {d : Dimensions} {n : Nat} {w w' : World σ α}

theorem Stocked.at_size (h : w.Stocked d n) : w.Stocked d w.store.size :=
  ⟨rfl, fun r hr => h.shaped r (h.size_eq ▸ hr)⟩

theorem Stocked.drawn (h : w.Stocked d n) (sources : σ) :
    ({ w with sources := sources } : World σ α).Stocked d n := ⟨h.size_eq, h.shaped⟩

theorem Stocked.put (h : w.Stocked d n) (r : Ref) {x : Solution (Tensor α) α} (hx : x.Shaped d) :
    ({ w with store := w.store.put r x } : World σ α).Stocked d n := by
  refine ⟨(Store.size_put _ r x).trans h.size_eq, fun q hq => ?_⟩
  show ((w.store.put r x).look q).Shaped d
  by_cases hqr : q = r
  · rw [hqr, Store.look_put_self (by rw [h.size_eq, ← hqr]; exact hq)]
    exact hx
  · rw [Store.look_put_of_ne hqr]
    exact h.shaped q hq

theorem Stocked.insert (h : w.Stocked d n) {x : Solution (Tensor α) α} (hx : x.Shaped d) :
    ({ w with store := (w.store.insert x).1 } : World σ α).Stocked d (n + 1) := by
  refine ⟨(Array.size_push _).trans (congrArg (· + 1) h.size_eq), fun q hq => ?_⟩
  show ((w.store.insert x).1.look q).Shaped d
  rcases Nat.lt_succ_iff_lt_or_eq.mp hq with hold | hlast
  · rw [look_insert_of_lt x (by rw [h.size_eq]; exact hold)]
    exact h.shaped q hold
  · have hq' : q = ⟨w.store.size⟩ := congrArg Ref.mk (hlast.trans h.size_eq.symm)
    rw [hq', look_insert_self]
    exact hx

theorem Stocked.annotated (h : w.Stocked d n) (hannotated : w.Annotated w') : w'.Stocked d n := by
  refine ⟨hannotated.size_eq.trans h.size_eq, fun r hr => ?_⟩
  have hsame := hannotated.sameData r
  have hshaped := h.shaped r hr
  exact ⟨hsame.decision_eq ▸ hshaped.decision_vector,
    hsame.objectives_eq ▸ hshaped.objectives_length,
    hsame.constraints_eq ▸ hshaped.constraints_length⟩

theorem Stocked.holds (h : w.Stocked d n) {r : Ref} (hr : r.index < n) :
    w.Holds d.objectives r :=
  ⟨h.size_eq ▸ hr, (h.shaped r hr).objectives_length⟩

theorem Stocked.update_ends (h : w.Stocked d n) {r : Ref} (hr : r.index < n)
    {rule : Solution (Tensor α) α → Except (Fault α) (Solution (Tensor α) α)}
    (hrule : ∀ x, x.Shaped d → ∃ y, rule x = .ok y ∧ y.Shaped d) :
    (update r rule).Ends w (fun _ w' => w'.Stocked d n) fun _ _ => False := by
  obtain ⟨y, hy, hshaped⟩ := hrule (w.look r) (h.shaped r hr)
  refine Work.ends_of_run (x := ()) (t := { w with store := w.store.put r y }) ?_ (h.put r hshaped)
  rw [update, Work.run_bind (Work.run_get w), Work.run_bind (Work.run_lift hy w)]
  rfl

/-- Work on the sources that never fails. -/
theorem drawn_ends {β : Type} {work : Work σ α β} {P : β → σ → Prop}
    (h : work.Ends w.sources P fun _ _ => False) :
    (drawn work).Ends w (fun x w' => ∃ sources, w' = { w with sources := sources } ∧ P x sources)
      fun _ _ => False :=
  (Work.ends_within h).mono (fun _ _ h => h) fun _ _ hfailed => hfailed.elim fun _ h => h.2

/-- Several new solutions of the same shape. -/
theorem Stocked.insert_mapM_ends (h : w.Stocked d n) {xs : List (Solution (Tensor α) α)}
    (hxs : ∀ x ∈ xs, x.Shaped d) :
    (xs.mapM World.insert).Ends w (fun children w' => w'.Stocked d w'.store.size ∧
      w.Extends w' ∧ w.New w' children ∧ children.length = xs.length) fun _ _ => False := by
  have hstocked : (xs.mapM World.insert).Ends w (fun _ w' => w'.Stocked d w'.store.size)
      fun _ _ => False := by
    refine Work.ends_mapM (I := fun _ (w' : World σ α) => w'.Stocked d w'.store.size)
      h.at_size ?_
    exact fun x hx _ w' hw' => (hw'.insert (hxs x hx)).at_size
  refine (hstocked.and (World.insert_mapM_ends xs w)).mono ?_ fun _ _ hfalse => hfalse.1
  intro children w' hends
  obtain ⟨hw', hext, hfresh, hlooks⟩ := hends
  exact ⟨hw', hext, hfresh.toNew, by rw [← hlooks, List.length_map]⟩

end World

/-! ## Problems -/

/-- Answers vectors of one length with vectors of another, or with a number for a vector of
one. -/
def Answers (f : Response α) (n m : Nat) : Prop :=
  ∀ x : Tensor α, x.IsVector n → ∃ y, f x = .ok y ∧ y.atLeastVector.IsVector m

theorem Tensor.entries_atLeastVector (y : Tensor α) : y.atLeastVector.entries = y.entries := by
  rw [atLeastVector]
  split
  · rfl
  · rfl

theorem Tensor.alike_ok {shape : List Nat} {ts : List (Tensor α)}
    (h : ∀ t ∈ ts, t.shape = shape) : (alike ts : Except (Fault α) (List (Tensor α))) = .ok ts := by
  cases ts with
  | nil => rfl
  | cons t rest =>
    rw [List.forall_mem_cons] at h
    refine if_pos (List.all_eq_true.mpr fun q hq => ?_)
    exact decide_eq_true ((h.2 q hq).trans h.1.symm)

section

variable {d : Dimensions} {n m : Nat} {w : World σ α}

theorem Answers.counted_ends {f : Response α} {k : Nat} (hf : Answers f k m) (count : Tally → Tally)
    (h : w.Stocked d n) {x : Tensor α} (hx : x.IsVector k) :
    (do
      World.count count
      Work.lift (f x) : Work (World σ α) α (Tensor α)).Ends w
      (fun y w' => w'.Stocked d n ∧ y.atLeastVector.IsVector m) fun _ _ => False := by
  obtain ⟨y, hy, hvector⟩ := hf x hx
  have hcount : (World.count count : Work (World σ α) α Unit).run.run w =
      (.ok (), { w with tally := count w.tally }) := rfl
  refine Work.ends_of_run (x := y) (t := { w with tally := count w.tally }) ?_
    ⟨⟨h.size_eq, h.shaped⟩, hvector⟩
  rw [Work.run_bind hcount, hy]
  rfl

theorem liftRows_ends {call : Tensor α → Work (World σ α) α (Tensor α)} {rows : List (Tensor α)}
    (hrows : rows ≠ []) (h : w.Stocked d n)
    (hcall : ∀ x ∈ rows, ∀ w : World σ α, w.Stocked d n →
      (call x).Ends w (fun y w' => w'.Stocked d n ∧ y.atLeastVector.IsVector m) fun _ _ => False) :
    (liftRows call rows).Ends w
      (fun ys w' => w'.Stocked d n ∧ ∀ y ∈ ys, y.entries.length = m) fun _ _ => False := by
  have hanswers : (rows.mapM call).Ends w
      (fun ys w' => w'.Stocked d n ∧ ∀ y ∈ ys, y.atLeastVector.IsVector m) fun _ _ => False := by
    refine Work.ends_mapM
      (I := fun (ys : List (Tensor α)) (w' : World σ α) =>
        w'.Stocked d n ∧ ∀ y ∈ ys, y.atLeastVector.IsVector m)
      ⟨h, fun y hy => absurd hy List.not_mem_nil⟩ ?_
    intro x hx ys w' hw'
    refine (hcall x hx w' hw'.1).mono ?_ fun _ _ hfalse => hfalse
    intro y w'' hy
    refine ⟨hy.1, fun z hz => ?_⟩
    rcases List.mem_append.mp hz with hold | hnew
    · exact hw'.2 z hold
    · rw [List.mem_singleton.mp hnew]
      exact hy.2
  rw [liftRows]
  refine ((hanswers.and (Work.ends_mapM_length call rows w)).mono (fun _ _ h => h)
    fun _ _ hfalse => hfalse.1).bind ?_
  intro answers w' hends
  obtain ⟨⟨hw', hvector⟩, hlength⟩ := hends
  have hsome : answers.isEmpty = false := by
    rw [List.isEmpty_eq_false_iff, ← List.length_pos_iff_ne_nil, hlength]
    exact List.length_pos_iff_ne_nil.mpr hrows
  have halike : (Tensor.alike (answers.map Tensor.atLeastVector) :
      Except (Fault α) (List (Tensor α))) = .ok (answers.map Tensor.atLeastVector) := by
    have hshapes : ∀ y ∈ answers.map Tensor.atLeastVector, y.shape = [m] := by
      rw [List.forall_mem_map]
      exact fun y hy => (hvector y hy).shape_eq
    exact Tensor.alike_ok hshapes
  rw [hsome]
  refine Work.ends_of_run (Work.run_lift halike w') ⟨hw', ?_⟩
  rw [List.forall_mem_map]
  exact fun y hy => (hvector y hy).entries_length

/-- Stored answers fit, and so the solutions keep their shape. -/
theorem World.Stocked.forM_update_ends (h : w.Stocked d n) {batch : List Ref}
    (hbatch : ∀ r ∈ batch, r.index < n) {ys : List (Tensor α)}
    {rule : Tensor α → Solution (Tensor α) α → Except (Fault α) (Solution (Tensor α) α)}
    (hrule : ∀ y ∈ ys, ∀ x : Solution (Tensor α) α, x.Shaped d →
      ∃ z, rule y x = .ok z ∧ z.Shaped d) :
    ((batch.zip ys).forM fun (r, y) => (World.update r (rule y) : Work (World σ α) α Unit)).Ends w
      (fun _ w' => w'.Stocked d n) fun _ _ => False := by
  refine Work.ends_forM h fun p hp w' hw' => ?_
  obtain ⟨hr, hy⟩ := List.of_mem_zip hp
  exact hw'.update_ends (hbatch p.1 hr) (hrule p.2 hy)

end

namespace Solution.Shaped

variable {d : Dimensions} {x : Solution (Tensor α) α} (h : x.Shaped d) {values : List α}

include h

theorem setObjectives_ok (hvalues : values.length = d.objectives) :
    ∃ y, x.setObjectives values = .ok y ∧ y.Shaped d :=
  ⟨_, if_pos (hvalues.trans h.objectives_length.symm),
    h.decision_vector, hvalues, h.constraints_length⟩

theorem setConstraints_ok (hvalues : values.length = d.constraints) :
    ∃ y, x.setConstraints values = .ok y ∧ y.Shaped d :=
  ⟨_, if_pos (hvalues.trans h.constraints_length.symm),
    h.decision_vector, h.objectives_length, hvalues⟩

end Solution.Shaped

/-- A problem whose functions never fail and answer as many numbers as they should. -/
structure FunctionProblem.Sound (p : FunctionProblem α) (d : Dimensions) : Prop where
  objectives_answer : Answers p.objectives d.decision d.objectives
  constraints_answer : ∀ rule, p.constraints = some rule →
    Answers rule d.decision d.constraints

namespace FunctionProblem.Sound

variable {p : FunctionProblem α} {d : Dimensions} (hp : p.Sound d) {n : Nat} {w : World σ α}
  (h : w.Stocked d n)

include hp h

theorem evaluate_ends {r : Ref} (hr : r.index < n) :
    (p.evaluate r).Ends w (fun _ w' => w'.Stocked d n) fun _ _ => False := by
  have hdecision := (h.shaped r hr).decision_vector
  rw [evaluate, Work.ends_get_bind]
  refine (hp.objectives_answer.counted_ends _ h hdecision).bind ?_
  intro f w' hf
  have hobjectives : f.entries.length = d.objectives :=
    f.entries_atLeastVector ▸ hf.2.entries_length
  refine (hf.1.update_ends hr fun x hx => hx.setObjectives_ok hobjectives).bind ?_
  intro _ w'' hw''
  cases hrule : p.constraints with
  | none => exact hw''
  | some rule =>
    refine ((hp.constraints_answer rule hrule).counted_ends _ hw'' hdecision).bind ?_
    intro c w''' hc
    have hconstraints : c.entries.length = d.constraints :=
      c.entries_atLeastVector ▸ hc.2.entries_length
    exact hc.1.update_ends hr fun x hx => hx.setConstraints_ok hconstraints

theorem evaluateBatch_ends {batch : List Ref} (hbatch : ∀ r ∈ batch, r.index < n) :
    (p.evaluateBatch batch).Ends w (fun _ w' => w'.Stocked d n) fun _ _ => False := by
  rw [evaluateBatch]
  split
  case isTrue => exact h
  case isFalse hempty =>
    rw [Work.ends_get_bind]
    have hrows : batch.map (fun r => (w.look r).decision) ≠ [] := by simpa using hempty
    have hvectors : ∀ x ∈ batch.map (fun r => (w.look r).decision), x.IsVector d.decision := by
      rw [List.forall_mem_map]
      exact fun r hr => (h.shaped r (hbatch r hr)).decision_vector
    have halike : (Work.lift (Tensor.alike (batch.map fun r => (w.look r).decision)) :
        Work (World σ α) α (List (Tensor α))).run.run w =
        (.ok (batch.map fun r => (w.look r).decision), w) :=
      Work.run_lift (Tensor.alike_ok fun x hx => (hvectors x hx).shape_eq) w
    rw [Work.ends_congr (Work.run_bind halike _)]
    refine (liftRows_ends hrows h fun x hx w' hw' =>
      hp.objectives_answer.counted_ends _ hw' (hvectors x hx)).bind ?_
    intro fs w' hfs
    refine (hfs.1.forM_update_ends hbatch fun f hf x hx =>
      hx.setObjectives_ok (hfs.2 f hf)).bind ?_
    intro _ w'' hw''
    cases hrule : p.constraints with
    | none => exact hw''
    | some rule =>
      refine (liftRows_ends hrows hw'' fun x hx v hv =>
        (hp.constraints_answer rule hrule).counted_ends _ hv (hvectors x hx)).bind ?_
      intro cs w''' hcs
      exact hcs.1.forM_update_ends hbatch fun c hc x hx => hx.setConstraints_ok (hcs.2 c hc)

end FunctionProblem.Sound

/-- Measuring changes what is measured, and nothing of its shape. -/
theorem Problem.evaluateAll_ends {p : Problem α} {d : Dimensions}
    (hp : p.toFunctionProblem.Sound d) {n : Nat} {w : World σ α} (h : w.Stocked d n)
    {solutions : List Ref} (hsolutions : ∀ r ∈ solutions, r.index < n) :
    (p.evaluateAll solutions).Ends w (fun _ w' => w'.Stocked d n) fun _ _ => False := by
  rw [evaluateAll]
  by_cases hone : p.oneByOne = true
  · rw [if_pos hone]
    refine Work.ends_forM h fun r hr w' hw' => ?_
    rw [evaluate, if_pos hone]
    refine Work.Ends.bind (P := fun _ (w'' : World σ α) => w''.Stocked d n)
      ⟨hw'.size_eq, hw'.shaped⟩ ?_
    exact fun _ w'' hw'' => hp.evaluate_ends hw'' (hsolutions r hr)
  · rw [if_neg hone]
    exact hp.evaluateBatch_ends h hsolutions

/-! ## Offspring -/

/-- Recombination that gives one child at least, and mutation, on vectors of one length. -/
structure Variation.Sound (v : Variation σ α) (n : Nat) : Prop where
  crossover_ends : ∀ cross, v.crossover = some cross → ∀ x y s, x.IsVector n → y.IsVector n →
    (cross x y).Ends s (fun children _ => children ≠ [] ∧ ∀ z ∈ children, z.IsVector n)
      fun _ _ => False
  mutation_ends : ∀ x s, x.IsVector n →
    (v.mutation x).Ends s (fun y _ => y.IsVector n) fun _ _ => False

namespace Variation.Sound

variable {v : Variation σ α} {d : Dimensions} (hv : v.Sound d.decision)
  {parents : List (Solution (Tensor α) α)} (harity : parents.length = v.arity)
  (hparents : ∀ p ∈ parents, p.Shaped d) (s : σ)

include hv harity hparents

theorem descendants_ends : (v.descendants parents).Ends s
    (fun children _ => children ≠ [] ∧ ∀ x ∈ children, x.IsVector d.decision)
    fun _ _ => False := by
  rw [arity] at harity
  cases hcross : v.crossover with
  | none =>
    rw [hcross] at harity
    obtain ⟨p, rfl⟩ := List.length_eq_one_iff.mp harity
    refine Work.ends_pure.mpr ⟨List.cons_ne_nil _ _, fun x hx => ?_⟩
    rw [List.mem_singleton.mp hx]
    exact (hparents p (List.mem_singleton_self p)).decision_vector
  | some cross =>
    rw [hcross] at harity
    obtain ⟨p, q, rfl⟩ := List.length_eq_two.mp harity
    rw [List.forall_mem_cons, List.forall_mem_singleton] at hparents
    rw [descendants, hcross]
    exact hv.crossover_ends cross hcross _ _ s hparents.1.decision_vector
      hparents.2.decision_vector

variable [Scalar α]

theorem evolve_ends : (v.evolve parents).Ends s
    (fun children _ => children ≠ [] ∧ ∀ x ∈ children, x.Shaped d) fun _ _ => False := by
  have hsome : 0 < parents.length := by
    rw [harity, arity]
    split
    · exact Nat.two_pos
    · exact Nat.one_pos
  rw [evolve, if_neg (not_not.mpr harity)]
  refine (hv.descendants_ends harity hparents s).bind ?_
  intro decisions s' hdecisions
  refine ((Work.ends_mapM (I := fun (children : List (Solution (Tensor α) α)) (_ : σ) =>
    ∀ x ∈ children, x.Shaped d) (fun x hx => absurd hx List.not_mem_nil) ?_).and
      (Work.ends_mapM_length _ _ s')).mono ?_ fun _ _ hfalse => hfalse.1
  · intro p hp children s'' hchildren
    have hdecision := hdecisions.2 p.1 (List.fst_mem_of_mem_zipIdx hp)
    refine (hv.mutation_ends p.1 s'' hdecision).bind ?_
    intro x _ hx
    -- The parent whose turn it is gives its shape, and there is one for any remainder.
    have hturn := Nat.mod_lt p.2 hsome
    have hparent := hparents _ (List.getElem_mem hturn)
    simp only [List.getElem?_eq_getElem hturn]
    refine Work.ends_pure.mpr fun y hy => ?_
    rcases List.mem_append.mp hy with hold | hnew
    · exact hchildren y hold
    · rw [List.mem_singleton.mp hnew]
      refine ⟨hx, ?_, ?_⟩
      · exact List.length_replicate.trans hparent.objectives_length
      · exact List.length_replicate.trans hparent.constraints_length
  · intro children _ hends
    refine ⟨fun hnil => hdecisions.1 ?_, hends.1⟩
    rw [hnil, List.length_zipIdx] at hends
    exact List.length_eq_zero_iff.mp hends.2.symm

end Variation.Sound

variable [Scalar α]

/-! ## Starting populations -/

/-- A sampler that answers vectors of the length that the problem asks for. -/
structure Initialization.Sound (i : Initialization σ α) (d : Dimensions) : Prop where
  newSolution_ok : ∃ x, i.problem.newSolution = .ok x ∧ x.Shaped d
  variableCount_eq : i.problem.variableCount = d.decision
  sampler_ends : ∀ s, i.sampler.Ends s (fun x _ => x.IsVector d.decision) fun _ _ => False
  injected_le : i.injected.length ≤ i.size

namespace Initialization.Sound

variable {i : Initialization σ α} {d : Dimensions} (hi : i.Sound d) {n : Nat} {w : World σ α}
  (h : w.Stocked d n)

include hi h

theorem sample_ends : i.sample.Ends w
    (fun r w' => w'.Stocked d w'.store.size ∧ w.Extends w' ∧ r.index < w'.store.size)
    fun _ _ => False := by
  obtain ⟨x, hx, hshaped⟩ := hi.newSolution_ok
  rw [sample, Work.ends_congr (Work.run_bind (Work.run_lift hx w) _)]
  refine (World.drawn_ends (hi.sampler_ends w.sources)).bind ?_
  intro decision w' hends
  obtain ⟨sources, rfl, hdecision⟩ := hends
  have hcount : ¬ decision.shape ≠ [i.problem.variableCount.toNat] := by
    rw [hi.variableCount_eq, hdecision.shape_eq]
    exact fun hne => hne rfl
  rw [if_neg hcount]
  have hgrown := (h.drawn sources).insert (x := { x with decision := decision })
    ⟨hdecision, hshaped.objectives_length, hshaped.constraints_length⟩
  have hext := World.insert_extends w { x with decision := decision }
  refine Work.ends_of_run (x := ⟨w.store.size⟩) rfl ⟨hgrown.at_size,
    ⟨hext.size_le, fun r hr _ => hext.look_eq hr⟩, ?_⟩
  show w.store.size < (w.store.insert _).1.size
  rw [hgrown.size_eq, h.size_eq]
  exact Nat.lt_succ_self n

theorem populate_ends (hinjected : ∀ r ∈ i.injected, r.index < n) : i.populate.Ends w
    (fun founders w' => w'.Stocked d w'.store.size ∧ w.Extends w' ∧ founders.length = i.size ∧
      ∀ r ∈ founders, r.index < w'.store.size) fun _ _ => False := by
  have hsamples : ((List.range (i.size - i.injected.length)).mapM fun _ => i.sample).Ends w
      (fun samples w' => w'.Stocked d w'.store.size ∧ w.Extends w' ∧
        ∀ r ∈ samples, r.index < w'.store.size) fun _ _ => False := by
    refine Work.ends_mapM
      (I := fun (samples : List Ref) (w' : World σ α) => w'.Stocked d w'.store.size ∧
        w.Extends w' ∧ ∀ r ∈ samples, r.index < w'.store.size)
      ⟨h.at_size, .refl w, fun r hr => absurd hr List.not_mem_nil⟩ ?_
    intro _ _ samples w' hw'
    obtain ⟨hstocked, hext, hold⟩ := hw'
    refine (hi.sample_ends hstocked).mono ?_ fun _ _ hfalse => hfalse
    intro r w'' hends
    obtain ⟨hstocked', hext', hr⟩ := hends
    refine ⟨hstocked', hext.trans hext', fun q hq => ?_⟩
    rcases List.mem_append.mp hq with hq | hq
    · exact Nat.lt_of_lt_of_le (hold q hq) hext'.size_le
    · rw [List.mem_singleton.mp hq]
      exact hr
  rw [populate]
  refine ((hsamples.and (Work.ends_mapM_length _ _ w)).mono (fun _ _ h => h)
    fun _ _ hfalse => hfalse.1).bind ?_
  intro samples w' hends
  obtain ⟨⟨hstocked, hext, hstored⟩, hlength⟩ := hends
  refine Work.ends_pure.mpr ⟨hstocked, hext, ?_, fun r hr => ?_⟩
  · rw [List.length_append, hlength, List.length_range]
    exact Nat.add_sub_cancel' hi.injected_le
  · rcases List.mem_append.mp hr with hr | hr
    · exact Nat.lt_of_lt_of_le (h.size_eq ▸ hinjected r hr) hext.size_le
    · exact hstored r hr

end Initialization.Sound

/-! ## Tournaments -/

/-- Draws that give as many places as are wanted, all in range. -/
def Dice.Lands (dice : Dice σ α) : Prop :=
  ∀ (bound n : Nat) (s : σ), 0 < bound → (dice.roll n s).1.length = n ∧
    ∀ u ∈ (dice.roll n s).1,
      0 ≤ Scalar.floor (u * (bound : α)) ∧ Scalar.floor (u * (bound : α)) < bound

theorem Dice.Lands.landsIn {dice : Dice σ α} (h : dice.Lands) {bound : Nat} (hbound : 0 < bound) :
    dice.LandsIn bound := by
  intro n s
  obtain ⟨hlength, hrange⟩ := h bound n s hbound
  exact ⟨(List.length_map _).trans hlength, List.forall_mem_map.mpr hrange⟩

/-- A judge who always answers finds a winner among the members. -/
theorem Judge.select_ends {ι : Type} (judge : Judge ι α) {members : List ι}
    (hjudge : ∀ p ∈ members, ∀ q ∈ members, ∃ answer, judge p q = .ok answer) {rounds : Nat}
    (hrounds : 0 < rounds) {dice : Dice σ α} (hdice : dice.Lands) (hmembers : members ≠ [])
    (arity : Nat) (s : σ) :
    (judge.select rounds dice arity members).Ends s
      (fun parents _ => parents.length = arity ∧ ∀ p ∈ parents, p ∈ members)
      fun _ _ => False := by
  have hlands := hdice.landsIn (List.length_pos_iff_ne_nil.mpr hmembers)
  have hplay : ∀ s, ∃ w, (judge.play rounds dice members).run.run s =
      (.ok w, (dice.roll rounds s).2) ∧ w ∈ members := by
    intro s
    obtain ⟨first, rest, -, hfirst, hrest, hplay⟩ := judge.play_run hlands hrounds s
    have hstep : ∀ m ∈ rest, ∀ best, best ∈ members →
        ∃ w, judge.better best m = .ok w ∧ w ∈ members := by
      intro m hm best hbest
      obtain ⟨o, ho⟩ := hjudge m (hrest m hm) best hbest
      by_cases hlt : o = .lt
      · exact ⟨m, better_of_lt (hlt ▸ ho), hrest m hm⟩
      · exact ⟨best, better_of_ne_lt ho hlt, hbest⟩
    obtain ⟨w, hscan, hw⟩ := foldlM_ok (P := fun w => w ∈ members) hfirst hstep
    exact ⟨w, by rw [hplay, hscan], hw⟩
  obtain ⟨parents, s', hrun, hparents⟩ :=
    select_run (P := fun _ w => w ∈ members) hmembers hplay arity s
  refine Work.ends_of_run hrun ⟨?_, ?_⟩
  · rw [← hparents.length_eq, Dice.length_fields, Int.toNat_natCast]
  · intro p hp
    obtain ⟨i, hi, rfl⟩ := List.mem_iff_getElem.mp hp
    exact hparents.get (hparents.length_eq.symm ▸ hi) hi

/-! ## Searches -/

namespace Assembly

/-- Parts that never fail, all for solutions of one shape. -/
structure Sound (a : Assembly σ α) (d : Dimensions) : Prop where
  problem_sound : a.problem.toFunctionProblem.Sound d
  initialization_sound : a.initialization.Sound d
  variation_sound : a.variation.Sound d.decision
  dice_lands : a.dice.Lands
  rounds_pos : 0 < a.tournament.rounds
  compare_ok : ∀ x y : Solution (Tensor α) α, x.Shaped d → y.Shaped d →
    x.fitness?.isSome → y.fitness?.isSome →
      ∃ answer, a.tournament.comparator.compare x y = .ok answer

/-- All solutions have one shape, and those that are brought along are there. -/
def Sane (a : Assembly σ α) (d : Dimensions) (w : World σ α) : Prop :=
  w.Stocked d w.store.size ∧ ∀ r ∈ a.initialization.injected, r.index < w.store.size

variable {a : Assembly σ α} {d : Dimensions} {w w' : World σ α}

theorem Sane.grown (h : a.Sane d w) (hstocked : w'.Stocked d w'.store.size)
    (hsize : w.store.size ≤ w'.store.size) : a.Sane d w' :=
  ⟨hstocked, fun r hr => Nat.lt_of_lt_of_le (h.2 r hr) hsize⟩

theorem Sound.select_ends (ha : a.Sound d) (h : a.Sane d w) {population : List Ref}
    (hpopulation : population ≠ [])
    (hmembers : ∀ r ∈ population, r.index < w.store.size ∧ ((w.look r).fitness?).isSome) :
    (a.select population).Ends w
      (fun parents w' => a.Sane d w' ∧ w.Extends w' ∧ parents.length = a.variation.arity ∧
        ∀ r ∈ parents, r ∈ population) fun _ _ => False := by
  have hcompare : ∀ p ∈ population, ∀ q ∈ population,
      ∃ answer, a.tournament.comparator.compare (w.look p) (w.look q) = .ok answer := by
    intro p hp q hq
    obtain ⟨hstoredp, hratedp⟩ := hmembers p hp
    obtain ⟨hstoredq, hratedq⟩ := hmembers q hq
    exact ha.compare_ok _ _ (h.1.shaped p hstoredp) (h.1.shaped q hstoredq) hratedp hratedq
  have hselect := (a.tournament.judge w.look).select_ends hcompare ha.rounds_pos ha.dice_lands
    hpopulation a.variation.arity w.sources
  rw [select, Work.ends_get_bind]
  refine (World.drawn_ends hselect).mono ?_ fun _ _ hfalse => hfalse
  intro parents w' hends
  obtain ⟨sources, rfl, hlength, hparents⟩ := hends
  exact ⟨⟨h.1.drawn sources, h.2⟩, .of_store_eq [] rfl, hlength, hparents⟩

theorem Sound.evolve_ends (ha : a.Sound d) (h : a.Sane d w) {parents : List Ref}
    (harity : parents.length = a.variation.arity)
    (hparents : ∀ r ∈ parents, r.index < w.store.size) :
    (a.evolve parents).Ends w
      (fun children w' => a.Sane d w' ∧ w.Extends w' ∧ children ≠ [] ∧ w.New w' children)
      fun _ _ => False := by
  have hshaped : ∀ p ∈ parents.map w.look, p.Shaped d := by
    rw [List.forall_mem_map]
    exact fun r hr => h.1.shaped r (hparents r hr)
  have hlength : (parents.map w.look).length = a.variation.arity := by
    rw [List.length_map]
    exact harity
  have hevolve := ha.variation_sound.evolve_ends hlength hshaped w.sources
  rw [evolve, Work.ends_get_bind]
  refine (World.drawn_ends hevolve).bind ?_
  intro children w' hends
  obtain ⟨sources, rfl, hsome, hchildren⟩ := hends
  refine ((h.1.drawn sources).insert_mapM_ends hchildren).mono ?_ fun _ _ hfalse => hfalse
  intro refs w'' hends
  obtain ⟨hstocked, hext, hnew, hcount⟩ := hends
  refine ⟨h.grown hstocked hext.size_le, ⟨hext.size_le, fun r hr _ => hext.look_eq hr⟩,
    fun hnil => hsome ?_, ⟨hnew.new, hnew.stored⟩⟩
  rw [hnil] at hcount
  exact List.length_eq_zero_iff.mp hcount.symm

theorem Sound.measure_ends (ha : a.Sound d) (h : a.Sane d w) {solutions : List Ref}
    (hsolutions : ∀ r ∈ solutions, r.index < w.store.size) :
    (a.problem.evaluateAll solutions).Ends w
      (fun _ w' => a.Sane d w' ∧ w.ExtendsBut solutions w' ∧
        ∀ r ∈ solutions, w'.Holds d.objectives r) fun _ _ => False := by
  have hmeasured := Problem.evaluateAll_ends ha.problem_sound h.1 hsolutions
  refine (hmeasured.and (a.problem.evaluateAll_touches solutions w)).mono ?_
    fun _ _ hfalse => hfalse.1
  intro _ w' hends
  obtain ⟨hstocked, htouches⟩ := hends
  refine ⟨h.grown hstocked.at_size htouches.size_le, htouches, fun r hr => ?_⟩
  exact hstocked.holds (hsolutions r hr)

theorem search_reliable (ha : a.Sound d) :
    a.search.Reliable (a.Sane d) a.initialization.size d.objectives where
  sane_annotated := by
    intro w w' h hannotated
    exact h.grown (h.1.annotated hannotated).at_size (Nat.le_of_eq hannotated.size_eq.symm)
  founders_ends := by
    intro w h
    refine (ha.initialization_sound.populate_ends h.1 h.2).mono ?_ fun _ _ hfalse => hfalse
    intro founders w' hends
    obtain ⟨hstocked, hext, hlength, hstored⟩ := hends
    exact ⟨h.grown hstocked hext.size_le, hext, hlength, fun r hr =>
      ⟨hstored r hr, fun _ => hstocked.holds (hstored r hr)⟩⟩
  family_ends := by
    intro population w h _ hpopulation hmembers
    refine (ha.select_ends h hpopulation fun r hr =>
      ⟨(hmembers r hr).1.stored, (hmembers r hr).2⟩).bind ?_
    intro parents w' hselect
    obtain ⟨h', hext, hlength, hparents⟩ := hselect
    refine (ha.evolve_ends h' hlength fun r hr => ?_).mono ?_ fun _ _ hfalse => hfalse
    · exact Nat.lt_of_lt_of_le (hmembers r (hparents r hr)).1.stored hext.size_le
    · intro children w'' hevolve
      obtain ⟨h'', hext', hsome, hnew⟩ := hevolve
      exact ⟨h'', hext.trans hext', hsome, hnew.mono hext.size_le (Nat.le_refl _)⟩
  measure_ends := fun _ _ h hsolutions => ha.measure_ends h hsolutions

end Assembly
end ParetoSearch
