import ParetoSearch.Proofs.Search.Sound

/-!
# Whole batches and single solutions

A problem that takes whole batches computes all objectives before it stores any, and the
constraints after that.  One that takes single solutions is done with each of them before
it looks at the next.  On uniform solutions with variables of one shape the two succeed
together, and what they leave behind differs in the count of single solutions alone
(`FunctionProblem.singly_of_batchwise` and `FunctionProblem.batchwise_of_singly`).

Both write into a solution what the functions answer for its decision, and writing leaves
decisions as they are.  So it does not matter when a solution is written, nor how often:
`World.forM_changes` is the one loop behind a pass over the objectives, a pass over the
constraints, and a pass over whole solutions.
-/

namespace ParetoSearch

variable {σ α : Type}

/-! ## Counts -/

namespace Tally

/-- So many calls more. -/
def plus (t : Tally) (objectives constraints evaluations : Nat) : Tally :=
  { t with
    objectives := t.objectives + objectives, constraints := t.constraints + constraints
    evaluations := t.evaluations + evaluations }

theorem plus_zero_mul (t : Tally) (a b c : Nat) : t.plus (0 * a) (0 * b) (0 * c) = t := by
  rw [Nat.zero_mul, Nat.zero_mul, Nat.zero_mul]
  rfl

theorem plus_plus (t : Tally) (a b c a' b' c' : Nat) :
    (t.plus a b c).plus a' b' c' = t.plus (a + a') (b + b') (c + c') := by
  simp only [plus, Nat.add_assoc]

/-- The same once more. -/
theorem plus_mul (t : Tally) (n a b c : Nat) :
    (t.plus a b c).plus (n * a) (n * b) (n * c) =
      t.plus ((n + 1) * a) ((n + 1) * b) ((n + 1) * c) := by
  rw [plus_plus, Nat.succ_mul, Nat.succ_mul, Nat.succ_mul, Nat.add_comm (n * a),
    Nat.add_comm (n * b), Nat.add_comm (n * c)]

end Tally

/-! ## Answers -/

namespace Response

/-- The numbers that are answered; where a function fails there are none. -/
def values (f : Response α) (x : Tensor α) : List α :=
  match f x with
  | .ok y => y.entries
  | .error _ => []

/-- The answer is so many numbers. -/
def Fits (f : Response α) (n : Nat) (x : Tensor α) : Prop :=
  ∃ y, f x = .ok y ∧ y.entries.length = n

/-- Every answer is a number or a vector. -/
def Plain (f : Response α) : Prop :=
  ∀ x y, f x = .ok y → y.atLeastVector.IsVector y.entries.length

variable {f : Response α} {n : Nat} {x : Tensor α}

theorem values_of_ok {y : Tensor α} (h : f x = .ok y) : f.values x = y.entries := by
  rw [values, h]

theorem map_values {xs ys : List (Tensor α)} (h : xs.map f = ys.map .ok) :
    xs.map f.values = ys.map Tensor.entries := by
  induction xs generalizing ys with
  | nil =>
    rw [List.map_eq_nil_iff.mp h.symm]
    rfl
  | cons x rest ih =>
    cases ys with
    | nil => cases h
    | cons y ys =>
      obtain ⟨hfirst, hrest⟩ := List.cons_eq_cons.mp h
      rw [List.map_cons, List.map_cons, values_of_ok hfirst, ih hrest]

theorem Fits.length_values (h : f.Fits n x) : (f.values x).length = n := by
  obtain ⟨y, hy, hlength⟩ := h
  rw [values_of_ok hy, hlength]

end Response

theorem Tensor.of_alike_ok {xs ys : List (Tensor α)}
    (h : (alike xs : Except (Fault α) (List (Tensor α))) = .ok ys) : ys = xs := by
  cases xs with
  | nil =>
    cases h
    rfl
  | cons x rest =>
    rw [alike] at h
    split at h
    · cases h
      rfl
    · cases h

theorem Tensor.of_alike_shape {xs ys : List (Tensor α)}
    (h : (alike xs : Except (Fault α) (List (Tensor α))) = .ok ys) {x y : Tensor α}
    (hx : x ∈ xs) (hy : y ∈ xs) : y.shape = x.shape := by
  cases xs with
  | nil => cases hx
  | cons first rest =>
    have hall : rest.all (fun q => q.shape = first.shape) = true := by
      by_contra hall
      rw [alike, if_neg hall] at h
      cases h
    have hshape : ∀ z ∈ first :: rest, z.shape = first.shape := by
      rw [List.all_eq_true] at hall
      exact List.forall_mem_cons.mpr ⟨rfl, fun z hz => of_decide_eq_true (hall z hz)⟩
    rw [hshape x hx, hshape y hy]

/-- Calls of a function that are counted, so much each, and then answered or not. -/
def Calls (f : Response α) (a b : Nat)
    (call : Tensor α → Work (World σ α) α (Tensor α)) : Prop :=
  ∀ x w, (call x).Ends w
    (fun y t => f x = .ok y ∧ t = { w with tally := w.tally.plus a b 0 })
    fun _ _ => ∀ y, f x ≠ .ok y

theorem calls_counted (f : Response α) (a b : Nat) :
    Calls f a b fun x => (do
      World.count fun t => t.plus a b 0
      Work.lift (f x) : Work (World σ α) α (Tensor α)) := by
  intro x w
  refine Work.Ends.bind (P := fun _ t => t = { w with tally := w.tally.plus a b 0 })
    (Work.ends_modify.mpr rfl) ?_
  rintro ⟨⟩ t rfl
  refine Work.ends_lift (fun y hy => ⟨hy, rfl⟩) fun e he y hy => ?_
  rw [he] at hy
  cases hy

namespace FunctionProblem

theorem callObjectives_calls (p : FunctionProblem α) :
    Calls p.objectives 1 0 (p.callObjectives : Tensor α → Work (World σ α) α (Tensor α)) :=
  calls_counted p.objectives 1 0

theorem callConstraints_calls (rule : Response α) :
    Calls rule 0 1 (callConstraints rule : Tensor α → Work (World σ α) α (Tensor α)) :=
  calls_counted rule 0 1

end FunctionProblem

section

variable {f : Response α} {a b : Nat} {call : Tensor α → Work (World σ α) α (Tensor α)}

theorem Calls.mapM_ends (hcall : Calls f a b call) (rows : List (Tensor α)) (w : World σ α) :
    (rows.mapM call).Ends w
      (fun ys t => rows.map f = ys.map .ok ∧
        t = { w with tally := w.tally.plus (rows.length * a) (rows.length * b) 0 })
      fun _ _ => ∃ x ∈ rows, ∀ y, f x ≠ .ok y := by
  induction rows generalizing w with
  | nil =>
    refine ⟨rfl, ?_⟩
    change w = { w with tally := w.tally.plus (0 * a) (0 * b) (0 * 0) }
    rw [Tally.plus_zero_mul]
  | cons x rest ih =>
    rw [List.mapM_cons]
    refine ((hcall x w).mono (fun _ _ h => h) fun _ _ h => ⟨x, List.mem_cons_self, h⟩).bind ?_
    rintro y t ⟨hy, rfl⟩
    refine ((ih _).mono (fun _ _ h => h) fun _ _ h => ?_).bind ?_
    · obtain ⟨x', hx', hnone⟩ := h
      exact ⟨x', List.mem_cons_of_mem _ hx', hnone⟩
    · rintro ys t ⟨hys, rfl⟩
      refine Work.ends_pure.mpr ⟨by rw [List.map_cons, List.map_cons, hy, hys], ?_⟩
      exact congrArg (fun tally => ({ w with tally := tally } : World σ α))
        (w.tally.plus_mul rest.length a b 0)

/-- Lifted over rows, a function fails only where there are no rows, or no number of
entries fits all of them. -/
theorem Calls.liftRows_ends (hcall : Calls f a b call) (rows : List (Tensor α))
    (w : World σ α) :
    (liftRows call rows).Ends w
      (fun ys t => (∀ x ∈ rows, ∃ y, f x = .ok y) ∧
        ys.map Tensor.entries = rows.map f.values ∧
        t = { w with tally := w.tally.plus (rows.length * a) (rows.length * b) 0 })
      fun _ _ => f.Plain → rows ≠ [] → ∀ n, ¬ ∀ x ∈ rows, f.Fits n x := by
  rw [liftRows]
  refine ((hcall.mapM_ends rows w).mono (fun _ _ h => h) ?_).bind ?_
  · rintro e t ⟨x, hx, hnone⟩ - - n hfits
    obtain ⟨y, hy, -⟩ := hfits x hx
    exact hnone y hy
  · rintro ys t ⟨hys, rfl⟩
    have hlength : ys.length = rows.length := by
      simpa using (congrArg List.length hys).symm
    by_cases hempty : ys.isEmpty = true
    · rw [if_pos hempty]
      intro _ hrows
      rw [List.isEmpty_iff] at hempty
      rw [hempty] at hlength
      exact absurd (List.length_eq_zero_iff.mp hlength.symm) hrows
    · rw [if_neg hempty]
      have hanswered : ∀ y ∈ ys, ∃ x ∈ rows, f x = .ok y := by
        intro y hy
        exact List.mem_map.mp (hys ▸ List.mem_map_of_mem hy)
      refine Work.ends_lift (fun zs hzs => ⟨?_, ?_, rfl⟩) ?_
      · intro x hx
        obtain ⟨y, -, hy⟩ := List.mem_map.mp (hys ▸ List.mem_map_of_mem hx)
        exact ⟨y, hy.symm⟩
      · rw [Tensor.of_alike_ok hzs, List.map_map, Response.map_values hys]
        exact List.map_congr_left fun y _ => y.entries_atLeastVector
      · intro e he hplain _ n hfits
        have hshapes : ∀ z ∈ ys.map Tensor.atLeastVector, z.shape = [n] := by
          rw [List.forall_mem_map]
          intro y hy
          obtain ⟨x, hx, hxy⟩ := hanswered y hy
          have hlength := (hfits x hx).length_values
          rw [Response.values_of_ok hxy] at hlength
          rw [← hlength]
          exact (hplain x y hxy).shape_eq
        rw [Tensor.alike_ok hshapes] at he
        cases he

/-- Rows that could be lifted were answered with as many values each. -/
theorem Calls.liftRows_even (hcall : Calls f a b call) (rows : List (Tensor α))
    (w : World σ α) :
    (liftRows call rows).Ends w
      (fun _ _ => f.Plain → ∀ x ∈ rows, ∀ y ∈ rows, (f.values y).length = (f.values x).length)
      fun _ _ => True := by
  rw [liftRows]
  refine ((hcall.mapM_ends rows w).mono (fun _ _ h => h) fun _ _ _ => trivial).bind ?_
  rintro ys t ⟨hys, -⟩
  by_cases hempty : ys.isEmpty = true
  · rw [if_pos hempty]
    trivial
  rw [if_neg hempty]
  refine Work.ends_lift (fun zs hzs hplain => ?_) fun _ _ => trivial
  have hanswer : ∀ x ∈ rows, ∃ z ∈ ys.map Tensor.atLeastVector,
      z.shape = [(f.values x).length] := by
    intro x hx
    obtain ⟨y, hy, hxy⟩ := List.mem_map.mp (hys ▸ List.mem_map_of_mem hx)
    refine ⟨y.atLeastVector, List.mem_map_of_mem hy, ?_⟩
    rw [Response.values_of_ok hxy.symm]
    exact (hplain x y hxy.symm).shape_eq
  intro x hx y hy
  obtain ⟨z, hz, hxz⟩ := hanswer x hx
  obtain ⟨z', hz', hyz⟩ := hanswer y hy
  have hshape := Tensor.of_alike_shape hzs hz hz'
  rw [hxz, hyz] at hshape
  exact List.head_eq_of_cons_eq hshape

end

/-! ## Solutions rewritten one after another -/

namespace Store

variable {X : Type} [Inhabited X]

/-- What is behind some references, and is there, is rewritten. -/
structure Changed (change : Solution X α → Solution X α) (refs : List Ref)
    (s t : Store X α) : Prop where
  size_eq : t.size = s.size
  look_eq : ∀ q, t.look q =
    if q ∈ refs ∧ q.index < s.size then change (s.look q) else s.look q

namespace Changed

variable {change further : Solution X α → Solution X α} {refs : List Ref} {r : Ref}
  {s t u : Store X α}

theorem nil (change : Solution X α → Solution X α) (s : Store X α) : s.Changed change [] s :=
  ⟨rfl, fun _ => (if_neg fun h => absurd h.1 List.not_mem_nil).symm⟩

theorem put (change : Solution X α → Solution X α) (s : Store X α) (r : Ref) :
    s.Changed change [r] (s.put r (change (s.look r))) := by
  refine ⟨size_put _ _ _, fun q => ?_⟩
  rw [look_put]
  by_cases hqr : q = r
  · rw [hqr]
    simp only [List.mem_singleton]
  · simp only [List.mem_singleton, hqr, false_and, if_false]

/-- A solution that is rewritten again later is the same as one rewritten once. -/
theorem append {more : List Ref} (hagain : ∀ x, change (change x) = change x)
    (h : s.Changed change refs t) (h' : t.Changed change more u) :
    s.Changed change (refs ++ more) u := by
  refine ⟨h'.size_eq.trans h.size_eq, fun q => ?_⟩
  rw [h'.look_eq, h.look_eq, h.size_eq]
  by_cases hq : q.index < s.size
  · by_cases hrefs : q ∈ refs
    · simp only [List.mem_append, hrefs, hq, true_or, and_self, if_true, hagain, ite_self]
    · simp only [List.mem_append, hrefs, hq, false_or, false_and, if_false]
  · simp only [hq, and_false, if_false]

theorem cons (hagain : ∀ x, change (change x) = change x)
    (h : (s.put r (change (s.look r))).Changed change refs t) :
    s.Changed change (r :: refs) t :=
  (put change s r).append hagain h

theorem comp (h : s.Changed change refs t) (h' : t.Changed further refs u) :
    s.Changed (further ∘ change) refs u := by
  refine ⟨h'.size_eq.trans h.size_eq, fun q => ?_⟩
  rw [h'.look_eq, h.look_eq, h.size_eq]
  split
  · rfl
  · rfl

theorem unique (h : s.Changed change refs t) (h' : s.Changed change refs u) : u = t :=
  ext_look (h'.size_eq.trans h.size_eq.symm) fun q => (h'.look_eq q).trans (h.look_eq q).symm

/-- What the rule keeps of a solution is kept of all. -/
theorem keeps {β : Type} (h : s.Changed change refs t) {g : Solution X α → β}
    (hg : ∀ x, g (change x) = g x) (q : Ref) : g (t.look q) = g (s.look q) := by
  rw [h.look_eq]
  split
  · exact hg _
  · rfl

end Changed
end Store

/-- A rule for solutions that fit.  It leaves decisions alone, and to use it again changes
nothing more. -/
structure Rewrites (fits : Solution (Tensor α) α → Prop)
    (change : Solution (Tensor α) α → Solution (Tensor α) α) : Prop where
  decision_eq : ∀ x, (change x).decision = x.decision
  again : ∀ x, change (change x) = change x
  fits_change : ∀ x, fits x → fits (change x)

namespace World

variable {fits : Solution (Tensor α) α → Prop}
  {change : Solution (Tensor α) α → Solution (Tensor α) α} {a b c : Nat}
  {step : Ref → Work (World σ α) α Unit} {batch : List Ref} {w : World σ α}

theorem look_put (w : World σ α) (r q : Ref) (x : Solution (Tensor α) α) (t : Tally) :
    ({ w with store := w.store.put r x, tally := t } : World σ α).look q =
      if q = r ∧ q.index < w.store.size then x else w.look q :=
  Store.look_put w.store r q x

/-- Each step may rely on the decision that it finds being the one of the beginning. -/
theorem forM_changes (hrule : Rewrites fits change)
    (hstep : ∀ r ∈ batch, ∀ v : World σ α, (v.look r).decision = (w.look r).decision →
      (step r).Ends v
        (fun _ t => fits (v.look r) ∧
          t = { v with store := v.store.put r (change (v.look r)), tally := v.tally.plus a b c })
        fun _ _ => ¬ fits (v.look r)) :
    (batch.forM step).Ends w
      (fun _ t => (∀ r ∈ batch, fits (w.look r)) ∧ ∃ store,
        w.store.Changed change batch store ∧
          t = { w with
            store := store
            tally := w.tally.plus (batch.length * a) (batch.length * b) (batch.length * c) })
      fun _ _ => ¬ ∀ r ∈ batch, fits (w.look r) := by
  induction batch generalizing w with
  | nil =>
    refine ⟨fun r hr => absurd hr List.not_mem_nil, w.store, .nil change _, ?_⟩
    rw [List.length_nil, Tally.plus_zero_mul]
  | cons r rest ih =>
    rw [List.forM]
    refine ((hstep r List.mem_cons_self w rfl).mono (fun _ _ h => h) ?_).bind ?_
    · exact fun _ _ hfails hall => hfails (hall r List.mem_cons_self)
    · rintro ⟨⟩ t ⟨hfirst, rfl⟩
      let v : World σ α :=
        { w with store := w.store.put r (change (w.look r)), tally := w.tally.plus a b c }
      have hlook : ∀ q, v.look q = if q = r ∧ q.index < w.store.size then change (w.look r)
          else w.look q := fun q => look_put w r q _ _
      have hdecision : ∀ q, (v.look q).decision = (w.look q).decision := by
        intro q
        rw [hlook]
        split
        case isTrue h => rw [hrule.decision_eq, h.1]
        case isFalse => rfl
      have hback : (∀ q ∈ rest, fits (v.look q)) ↔ ∀ q ∈ rest, fits (w.look q) := by
        refine forall₂_congr fun q _ => ?_
        rw [hlook]
        split
        case isTrue h => rw [h.1]; exact ⟨fun _ => hfirst, hrule.fits_change _⟩
        case isFalse => rfl
      have hrest : ∀ q ∈ rest, ∀ v' : World σ α,
          (v'.look q).decision = (v.look q).decision → _ :=
        fun q hq v' hv' => hstep q (List.mem_cons_of_mem _ hq) v' (hv'.trans (hdecision q))
      refine (ih hrest).mono ?_ ?_
      · rintro _ _ ⟨hfits, store, hchanged, rfl⟩
        refine ⟨List.forall_mem_cons.mpr ⟨hfirst, hback.mp hfits⟩, store,
          hchanged.cons hrule.again, ?_⟩
        exact congrArg (fun tally => ({ w with store := store, tally := tally } : World σ α))
          (w.tally.plus_mul rest.length a b c)
      · exact fun _ _ hfails hall => hfails (hback.mpr (List.forall_mem_cons.mp hall).2)

theorem update_ends (r : Ref)
    (rule : Solution (Tensor α) α → Except (Fault α) (Solution (Tensor α) α))
    (w : World σ α) : (update r rule).Ends w
      (fun _ t => ∃ x, rule (w.look r) = .ok x ∧ t = { w with store := w.store.put r x })
      fun e _ => rule (w.look r) = .error e := by
  rw [update, Work.ends_get_bind]
  refine Work.Ends.bind (P := fun x t => rule (w.look r) = .ok x ∧ t = w) ?_ ?_
  · exact Work.ends_lift (fun x hx => ⟨hx, rfl⟩) fun _ he => he
  · rintro x t ⟨hx, rfl⟩
    exact Work.ends_set.mpr ⟨x, hx, rfl⟩

end World

/-! ## What a problem writes -/

/-- An answer is stored where it has as many numbers as there are places, and storing the
answer for the decision comes to a rule for solutions. -/
structure Fills (f : Response α)
    (set : Solution (Tensor α) α → List α → Except (Fault α) (Solution (Tensor α) α))
    (places : Solution (Tensor α) α → Nat)
    (change : Solution (Tensor α) α → Solution (Tensor α) α) : Prop
    extends Rewrites (fun x => f.Fits (places x) x.decision) change where
  set_eq : ∀ x, (f.values x.decision).length = places x →
    set x (f.values x.decision) = .ok (change x)
  length_of_set : ∀ x y, set x (f.values x.decision) = .ok y →
    (f.values x.decision).length = places x

/-- Values are written in place of what was there, if they are as many. -/
theorem Fills.of_write (f : Response α)
    {set : Solution (Tensor α) α → List α → Except (Fault α) (Solution (Tensor α) α)}
    {places : Solution (Tensor α) α → Nat}
    {write : Solution (Tensor α) α → List α → Solution (Tensor α) α}
    {fault : Solution (Tensor α) α → List α → Fault α}
    (hset : ∀ x values, set x values =
      if values.length = places x then .ok (write x values) else .error (fault x values))
    (hdecision : ∀ x values, (write x values).decision = x.decision)
    (hplaces : ∀ x values, places (write x values) = values.length)
    (hagain : ∀ x values, write (write x values) values = write x values) :
    Fills f set places fun x => write x (f.values x.decision) where
  decision_eq x := hdecision x _
  again x := by rw [hdecision, hagain]
  fits_change := by
    rintro x ⟨y, hy, -⟩
    refine ⟨y, by rw [hdecision]; exact hy, ?_⟩
    rw [hplaces, Response.values_of_ok hy]
  set_eq x h := by rw [hset, if_pos h]
  length_of_set := by
    intro x y h
    by_contra hlength
    rw [hset, if_neg hlength] at h
    cases h

namespace Solution

/-- With the objectives that a function answers. -/
def answered (f : Response α) (x : Solution (Tensor α) α) : Solution (Tensor α) α :=
  { x with objectives := f.values x.decision }

/-- With the violations that a function answers. -/
def judged (f : Response α) (x : Solution (Tensor α) α) : Solution (Tensor α) α :=
  { x with constraints := f.values x.decision }

theorem answered_fills (f : Response α) :
    Fills f setObjectives (fun x => x.objectives.length) (answered f) :=
  .of_write f (fun _ _ => rfl) (fun _ _ => rfl) (fun _ _ => rfl) fun _ _ => rfl

theorem judged_fills (f : Response α) :
    Fills f setConstraints (fun x => x.constraints.length) (judged f) :=
  .of_write f (fun _ _ => rfl) (fun _ _ => rfl) (fun _ _ => rfl) fun _ _ => rfl

end Solution

theorem forM_zip {batch : List Ref} {ys : List (Tensor α)} {values : Ref → List α}
    (h : ys.map Tensor.entries = batch.map values)
    (step : Ref → List α → Work (World σ α) α Unit) :
    ((batch.zip ys).forM fun (r, y) => step r y.entries) =
      batch.forM fun r => step r (values r) := by
  induction batch generalizing ys with
  | nil => rfl
  | cons r rest ih =>
    cases ys with
    | nil => cases h
    | cons y ys =>
      obtain ⟨hfirst, hrest⟩ := List.cons_eq_cons.mp h
      rw [List.zip_cons_cons, List.forM, List.forM, ih hrest, ← hfirst]

namespace Fills

variable {f : Response α}
  {set : Solution (Tensor α) α → List α → Except (Fault α) (Solution (Tensor α) α)}
  {places : Solution (Tensor α) α → Nat}
  {change : Solution (Tensor α) α → Solution (Tensor α) α}

/-- Storing what was answered for the decision of a solution. -/
theorem update_ends (h : Fills f set places change) {r : Ref} {v : World σ α} {y : Tensor α}
    (hy : f (v.look r).decision = .ok y) :
    (World.update r fun x => set x y.entries).Ends v
      (fun _ t => f.Fits (places (v.look r)) (v.look r).decision ∧
        t = { v with store := v.store.put r (change (v.look r)) })
      fun _ _ => ¬ f.Fits (places (v.look r)) (v.look r).decision := by
  rw [← Response.values_of_ok hy]
  refine (World.update_ends r _ v).mono ?_ ?_
  · rintro ⟨⟩ t ⟨z, hz, rfl⟩
    have hlength := h.length_of_set _ z hz
    rw [h.set_eq _ hlength] at hz
    cases hz
    exact ⟨⟨y, hy, Response.values_of_ok hy ▸ hlength⟩, rfl⟩
  · intro e t he hfits
    rw [h.set_eq _ hfits.length_values] at he
    cases he

/-- One call, and then the answer is stored. -/
theorem ask_ends (h : Fills f set places change) {a b : Nat}
    {call : Tensor α → Work (World σ α) α (Tensor α)} (hcall : Calls f a b call) {r : Ref}
    {x : Tensor α} {w : World σ α} (hx : x = (w.look r).decision) :
    (do
      let y ← call x
      World.update r fun z => set z y.entries).Ends w
      (fun _ t => f.Fits (places (w.look r)) (w.look r).decision ∧ t = { w with
        store := w.store.put r (change (w.look r)), tally := w.tally.plus a b 0 })
      fun _ _ => ¬ f.Fits (places (w.look r)) (w.look r).decision := by
  subst hx
  refine ((hcall _ w).mono (fun _ _ h => h) ?_).bind ?_
  · rintro e t hnone ⟨y, hy, -⟩
    exact hnone y hy
  · rintro y t ⟨hy, rfl⟩
    exact h.update_ends (v := { w with tally := w.tally.plus a b 0 }) hy

/-- A pass over several solutions: all calls first, and then the answers are stored. -/
theorem pass_ends (h : Fills f set places change) {a b : Nat}
    {call : Tensor α → Work (World σ α) α (Tensor α)} (hcall : Calls f a b call)
    {batch : List Ref} {xs : List (Tensor α)} {w : World σ α}
    (hxs : xs = batch.map fun r => (w.look r).decision) :
    (do
      let ys ← liftRows call xs
      (batch.zip ys).forM fun (r, y) => World.update r fun x => set x y.entries).Ends w
      (fun _ t => (∀ r ∈ batch, f.Fits (places (w.look r)) (w.look r).decision) ∧ ∃ store,
        w.store.Changed change batch store ∧ t = { w with
          store := store, tally := w.tally.plus (batch.length * a) (batch.length * b) 0 })
      fun _ _ => f.Plain → batch ≠ [] →
        (∀ r ∈ batch, ∀ q ∈ batch, places (w.look q) = places (w.look r)) →
        ¬ ∀ r ∈ batch, f.Fits (places (w.look r)) (w.look r).decision := by
  subst hxs
  refine ((hcall.liftRows_ends _ w).mono (fun _ _ h => h) ?_).bind ?_
  · intro _ _ hfails hplain hbatch hplaces hfits
    obtain ⟨first, hfirst⟩ := List.exists_mem_of_ne_nil batch hbatch
    refine hfails hplain (fun hnil => hbatch (List.map_eq_nil_iff.mp hnil))
      (places (w.look first)) (List.forall_mem_map.mpr fun r hr => ?_)
    rw [← hplaces first hfirst r hr]
    exact hfits r hr
  · rintro ys t ⟨hanswers, hys, rfl⟩
    rw [List.forall_mem_map] at hanswers
    rw [List.map_map] at hys
    rw [List.length_map, forM_zip hys fun r values => World.update r fun x => set x values]
    refine (World.forM_changes (a := 0) (b := 0) (c := 0) h.toRewrites ?_).mono ?_ ?_
    · intro r hr v hdecision
      obtain ⟨y, hy⟩ := hanswers r hr
      change (v.look r).decision = (w.look r).decision at hdecision
      change (World.update r fun x => set x (f.values (w.look r).decision)).Ends v _ _
      rw [Response.values_of_ok hy]
      exact h.update_ends (hdecision ▸ hy)
    · rintro ⟨⟩ t ⟨hfits, store, hchanged, rfl⟩
      exact ⟨hfits, store, hchanged, rfl⟩
    · exact fun _ _ hfails _ _ _ => hfails

/-- Solutions that a pass could be made over have as many places each. -/
theorem pass_even (h : Fills f set places change) {a b : Nat}
    {call : Tensor α → Work (World σ α) α (Tensor α)} (hcall : Calls f a b call)
    {batch : List Ref} {xs : List (Tensor α)} {w : World σ α}
    (hxs : xs = batch.map fun r => (w.look r).decision) :
    (do
      let ys ← liftRows call xs
      (batch.zip ys).forM fun (r, y) => World.update r fun x => set x y.entries).Ends w
      (fun _ _ => f.Plain → ∀ r ∈ batch, ∀ q ∈ batch, places (w.look q) = places (w.look r))
      fun _ _ => True := by
  have heven := (hcall.liftRows_even xs w).bind fun ys t hlengths =>
    (Work.ends_trivial ((batch.zip ys).forM fun (r, y) =>
      World.update r fun x => set x y.entries) t).mono (fun _ _ _ => hlengths) fun _ _ h => h
  refine ((h.pass_ends hcall hxs).and heven).mono ?_ fun _ _ _ => trivial
  rintro _ _ ⟨⟨hfits, -⟩, hlengths⟩ hplain r hr q hq
  subst hxs
  have hlength := hlengths hplain _ (List.mem_map_of_mem hr) _ (List.mem_map_of_mem hq)
  rwa [(hfits q hq).length_values, (hfits r hr).length_values] at hlength

end Fills

/-! ## One solution -/

namespace FunctionProblem

/-- The functions answer for a solution, with as many numbers as it has places. -/
structure Suits (p : FunctionProblem α) (x : Solution (Tensor α) α) : Prop where
  objectives_fit : p.objectives.Fits x.objectives.length x.decision
  constraints_fit : ∀ rule, p.constraints = some rule →
    rule.Fits x.constraints.length x.decision

/-- A solution as it is measured. -/
def measured (p : FunctionProblem α) (x : Solution (Tensor α) α) : Solution (Tensor α) α :=
  match p.constraints with
  | none => x.answered p.objectives
  | some rule => (x.answered p.objectives).judged rule

/-- How often the constraints are asked for with one solution. -/
def toll (p : FunctionProblem α) : Nat := if p.constraints.isSome then 1 else 0

variable (p : FunctionProblem α)

section

variable {p : FunctionProblem α}

theorem measured_of_none (h : p.constraints = none) :
    p.measured = Solution.answered p.objectives := by
  funext x
  rw [measured, h]

theorem measured_of_some {rule : Response α} (h : p.constraints = some rule) :
    p.measured = Solution.judged rule ∘ Solution.answered p.objectives := by
  funext x
  rw [measured, h]
  rfl

theorem suits_of_none (h : p.constraints = none) {x : Solution (Tensor α) α}
    (hfits : p.objectives.Fits x.objectives.length x.decision) : p.Suits x := by
  refine ⟨hfits, fun rule hrule => ?_⟩
  rw [h] at hrule
  cases hrule

theorem suits_of_some {rule : Response α} (h : p.constraints = some rule)
    {x : Solution (Tensor α) α} (hfits : p.objectives.Fits x.objectives.length x.decision)
    (hrule : rule.Fits x.constraints.length x.decision) : p.Suits x := by
  refine ⟨hfits, fun rule' h' => ?_⟩
  rw [h] at h'
  cases h'
  exact hrule

end

theorem suits_rewrites : Rewrites p.Suits p.measured := by
  have hobjectives := (Solution.answered_fills p.objectives).toRewrites
  cases h : p.constraints with
  | none =>
    rw [measured_of_none h]
    exact ⟨hobjectives.decision_eq, hobjectives.again, fun x hx =>
      suits_of_none h (hobjectives.fits_change x hx.objectives_fit)⟩
  | some rule =>
    have hrule := (Solution.judged_fills rule).toRewrites
    rw [measured_of_some h]
    exact ⟨fun _ => rfl, fun _ => rfl, fun x hx =>
      suits_of_some h (hobjectives.fits_change x hx.objectives_fit)
        (hrule.fits_change x (hx.constraints_fit rule h))⟩

theorem evaluate_ends (r : Ref) (w : World σ α) : (p.evaluate r).Ends w
    (fun _ t => p.Suits (w.look r) ∧ t = { w with
      store := w.store.put r (p.measured (w.look r)), tally := w.tally.plus 1 p.toll 0 })
    fun _ _ => ¬ p.Suits (w.look r) := by
  rw [evaluate, Work.ends_get_bind, ← bind_assoc]
  refine (((Solution.answered_fills p.objectives).ask_ends p.callObjectives_calls rfl).mono
    (fun _ _ h => h) ?_).bind ?_
  · exact fun _ _ hfails hsuits => hfails hsuits.objectives_fit
  rintro ⟨⟩ t ⟨hobjectives, rfl⟩
  cases h : p.constraints with
  | none =>
    refine Work.ends_pure.mpr ⟨suits_of_none h hobjectives, ?_⟩
    rw [measured_of_none h, toll, h]
    rfl
  | some rule =>
    let store := w.store.put r ((w.look r).answered p.objectives)
    have hchanged : w.store.Changed (Solution.answered p.objectives) [r] store :=
      .put _ w.store r
    have hdecision : (store.look r).decision = (w.look r).decision :=
      hchanged.keeps (g := Solution.decision) (fun _ => rfl) r
    have hconstraints : (store.look r).constraints = (w.look r).constraints :=
      hchanged.keeps (g := Solution.constraints) (fun _ => rfl) r
    refine ((Solution.judged_fills rule).ask_ends (callConstraints_calls rule)
      hdecision.symm).mono ?_ ?_
    · rintro ⟨⟩ t ⟨hrule, rfl⟩
      change rule.Fits (store.look r).constraints.length (store.look r).decision at hrule
      rw [hdecision, hconstraints] at hrule
      refine ⟨suits_of_some h hobjectives hrule, ?_⟩
      rw [measured_of_some h, toll, h]
      exact congrArg (fun store => ({ w with
        store := store, tally := w.tally.plus 1 1 0 } : World σ α))
        (w.store.put_look_put r ((w.look r).answered p.objectives) (Solution.judged rule))
    · intro _ _ hfails hsuits
      change ¬ rule.Fits (store.look r).constraints.length (store.look r).decision at hfails
      rw [hdecision, hconstraints] at hfails
      exact hfails (hsuits.constraints_fit rule h)

end FunctionProblem

/-! ## Several solutions -/

/-- The world with another count of single solutions. -/
def World.recount (w : World σ α) (k : Nat) : World σ α :=
  { w with tally := { w.tally with evaluations := k } }

/-- Two worlds that differ in the count of single solutions at most. -/
def World.Recounted (w t : World σ α) : Prop := ∃ k, t = w.recount k

/-- Solutions with variables of one shape, as many objectives and as many constraints, as
all solutions of a problem are. -/
structure World.OneKind (w : World σ α) (batch : List Ref) : Prop where
  shape_eq : ∀ r ∈ batch, ∀ q ∈ batch, (w.look q).decision.shape = (w.look r).decision.shape
  objectives_eq : ∀ r ∈ batch, ∀ q ∈ batch,
    (w.look q).objectives.length = (w.look r).objectives.length
  constraints_eq : ∀ r ∈ batch, ∀ q ∈ batch,
    (w.look q).constraints.length = (w.look r).constraints.length

/-- Solutions with variables of one shape. -/
def World.OneShape (w : World σ α) (batch : List Ref) : Prop :=
  ∀ r ∈ batch, ∀ q ∈ batch, (w.look q).decision.shape = (w.look r).decision.shape

/-- Solutions with as many objectives each, and with as many constraints where the problem
asks for them. -/
structure FunctionProblem.Uniform (p : FunctionProblem α) (w : World σ α) (batch : List Ref) :
    Prop where
  objectives_eq : ∀ r ∈ batch, ∀ q ∈ batch,
    (w.look q).objectives.length = (w.look r).objectives.length
  constraints_eq : p.constraints.isSome = true → ∀ r ∈ batch, ∀ q ∈ batch,
    (w.look q).constraints.length = (w.look r).constraints.length

theorem World.OneKind.uniform {w : World σ α} {batch : List Ref} (h : w.OneKind batch)
    (p : FunctionProblem α) : p.Uniform w batch :=
  ⟨h.objectives_eq, fun _ => h.constraints_eq⟩

namespace FunctionProblem

/-- All answers are numbers and vectors. -/
structure Plain (p : FunctionProblem α) : Prop where
  objectives_plain : p.objectives.Plain
  constraints_plain : ∀ rule, p.constraints = some rule → rule.Plain

/-- The problem as one that takes whole batches. -/
def batchwise (p : FunctionProblem α) : Problem α := ⟨p, false⟩

/-- The problem as one that takes single solutions only. -/
def singly (p : FunctionProblem α) : Problem α := ⟨p, true⟩

/-- What measuring several solutions comes to, up to the count of single ones. -/
structure Completes (p : FunctionProblem α) (batch : List Ref) (w t : World σ α) : Prop where
  suits : ∀ r ∈ batch, p.Suits (w.look r)
  changed : w.store.Changed p.measured batch t.store
  eq_store : ∃ k, t = { w with
    store := t.store, tally := w.tally.plus batch.length (batch.length * p.toll) k }

variable {p : FunctionProblem α} {batch : List Ref} {w t : World σ α}

theorem singly_ends (p : FunctionProblem α) (batch : List Ref) (w : World σ α) :
    (p.singly.evaluateAll batch).Ends w (fun _ t => p.Completes batch w t)
      fun _ _ => ¬ ∀ r ∈ batch, p.Suits (w.look r) := by
  have hone : ∀ r ∈ batch, ∀ v : World σ α, (v.look r).decision = (w.look r).decision →
      (p.singly.evaluate r).Ends v
        (fun _ t => p.Suits (v.look r) ∧ t = { v with
          store := v.store.put r (p.measured (v.look r)), tally := v.tally.plus 1 p.toll 1 })
        fun _ _ => ¬ p.Suits (v.look r) := by
    intro r _ v _
    refine Work.Ends.bind (P := fun _ t => t = { v with tally := v.tally.plus 0 0 1 })
      (Work.ends_modify.mpr rfl) ?_
    rintro ⟨⟩ t rfl
    refine (p.evaluate_ends r _).mono ?_ fun _ _ h => h
    rintro ⟨⟩ t ⟨hsuits, rfl⟩
    exact ⟨hsuits, rfl⟩
  refine (World.forM_changes p.suits_rewrites hone).mono ?_ fun _ _ h => h
  rintro ⟨⟩ t ⟨hsuits, store, hchanged, rfl⟩
  refine ⟨hsuits, hchanged, batch.length * 1, ?_⟩
  rw [Nat.mul_one]

/-- Answers make a table only if they are of one length, and so a batch that is measured as
a whole is uniform. -/
theorem batchwise_ends (p : FunctionProblem α) (batch : List Ref) (w : World σ α) :
    (p.batchwise.evaluateAll batch).Ends w
      (fun _ t => p.Completes batch w t ∧ (p.Plain → p.Uniform w batch))
      fun _ _ => p.Plain → w.OneShape batch → p.Uniform w batch →
        ¬ ∀ r ∈ batch, p.Suits (w.look r) := by
  change (p.evaluateBatch batch).Ends w _ _
  rw [evaluateBatch]
  split
  case isTrue hempty =>
    rw [List.isEmpty_iff] at hempty
    subst hempty
    refine ⟨⟨fun r hr => absurd hr List.not_mem_nil, .nil _ _, 0, ?_⟩, fun _ => ?_⟩
    · rw [List.length_nil, Nat.zero_mul]
      rfl
    · exact ⟨fun r hr => absurd hr List.not_mem_nil, fun _ r hr => absurd hr List.not_mem_nil⟩
  case isFalse hempty =>
    have hbatch : batch ≠ [] := by simpa using hempty
    obtain ⟨first, hfirst⟩ := List.exists_mem_of_ne_nil batch hbatch
    rw [Work.ends_get_bind]
    refine Work.Ends.bind
      (P := fun xs t => xs = batch.map (fun r => (w.look r).decision) ∧ w = t) ?_ ?_
    · refine Work.ends_lift (fun xs hxs => ⟨Tensor.of_alike_ok hxs, rfl⟩) ?_
      intro e he _ hshape
      rw [Tensor.alike_ok (List.forall_mem_map.mpr (hshape first hfirst))] at he
      cases he
    rintro _ _ ⟨rfl, rfl⟩
    rw [← bind_assoc]
    have hanswered := Solution.answered_fills p.objectives
    refine (((hanswered.pass_ends p.callObjectives_calls rfl).and
      (hanswered.pass_even p.callObjectives_calls rfl)).mono (fun _ _ h => h) ?_).bind ?_
    · rintro _ _ ⟨hfails, -⟩ hplain - huniform hsuits
      exact hfails hplain.objectives_plain hbatch huniform.objectives_eq
        fun r hr => (hsuits r hr).objectives_fit
    rintro ⟨⟩ t ⟨⟨hobjectives, store, hchanged, rfl⟩, heven⟩
    cases h : p.constraints with
    | none =>
      refine Work.ends_pure.mpr ⟨⟨fun r hr => suits_of_none h (hobjectives r hr), ?_, 0, ?_⟩, ?_⟩
      · rw [measured_of_none h]
        exact hchanged
      · simp only [toll, h, Option.isSome_none, Bool.false_eq_true, if_false, Nat.mul_one]
      · refine fun hplain => ⟨heven hplain.objectives_plain, fun hsome => ?_⟩
        rw [h] at hsome
        cases hsome
    | some rule =>
      have hdecision : ∀ r, (store.look r).decision = (w.look r).decision :=
        hchanged.keeps (g := Solution.decision) fun _ => rfl
      have hplaces : ∀ r, (store.look r).constraints.length = (w.look r).constraints.length :=
        fun r => congrArg List.length (hchanged.keeps (g := Solution.constraints) (fun _ => rfl) r)
      have hxs : batch.map (fun r => (w.look r).decision) =
          batch.map fun r => (store.look r).decision :=
        List.map_congr_left fun r _ => (hdecision r).symm
      have hjudged := Solution.judged_fills rule
      refine ((hjudged.pass_ends (callConstraints_calls rule) hxs).and
        (hjudged.pass_even (callConstraints_calls rule) hxs)).mono ?_ ?_
      · rintro ⟨⟩ t ⟨⟨hrule, store', hchanged', rfl⟩, heven'⟩
        refine ⟨⟨fun r hr => suits_of_some h (hobjectives r hr) ?_, ?_, 0, ?_⟩, ?_⟩
        · rw [← hdecision r, ← hplaces r]
          exact hrule r hr
        · rw [measured_of_some h]
          exact hchanged.comp hchanged'
        · simp only [toll, h, Option.isSome_some, if_true, Tally.plus_plus, Nat.mul_one,
            Nat.mul_zero, Nat.add_zero, Nat.zero_add]
        · refine fun hplain => ⟨heven hplain.objectives_plain, fun _ r hr q hq => ?_⟩
          rw [← hplaces, ← hplaces]
          exact heven' (hplain.constraints_plain rule h) r hr q hq
      · rintro _ _ ⟨hfails, -⟩ hplain - huniform hsuits
        have hsome : p.constraints.isSome = true := by rw [h]; rfl
        refine hfails (hplain.constraints_plain rule h) hbatch ?_ ?_
        · intro r hr q hq
          change (store.look q).constraints.length = (store.look r).constraints.length
          rw [hplaces, hplaces]
          exact huniform.constraints_eq hsome r hr q hq
        · intro r hr
          change rule.Fits (store.look r).constraints.length (store.look r).decision
          rw [hdecision r, hplaces r]
          exact (hsuits r hr).constraints_fit rule h

end FunctionProblem

end ParetoSearch
