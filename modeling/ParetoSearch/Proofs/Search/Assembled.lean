import ParetoSearch.Proofs.Search.Frame
import ParetoSearch.Search.Assembly

/-!
# The usual parts leave solutions alone

Whatever problem, variation and tournaments a search is put together from, measuring
changes only what is measured, parents are chosen without changing any solution, and
offspring are inserted as new ones (`Assembly.search_gentle`).

What work changes is found by its shape: the lemmas on `Work.Touches` follow the ways in
which work is put together.
-/

namespace ParetoSearch

variable {σ α : Type}

/-! ## Work by its shape -/

namespace Work

variable {β γ : Type} {changed : List Ref}

theorem touches_pure (x : β) : (pure x : Work (World σ α) α β).Touches changed :=
  fun w => .refl changed w

theorem touches_lift (r : Except (Fault α) β) :
    (lift r : Work (World σ α) α β).Touches changed :=
  fun w => ends_lift (fun _ _ => .refl changed w) fun _ _ => .refl changed w

theorem touches_bind {work : Work (World σ α) α β} {f : β → Work (World σ α) α γ}
    (hwork : work.Touches changed) (hf : ∀ x, (f x).Touches changed) :
    (work >>= f).Touches changed := by
  intro w
  refine (hwork w).bind fun x w' hw' => ?_
  exact (hf x w').mono (fun _ _ h => hw'.trans h) fun _ _ h => hw'.trans h

theorem touches_get_bind {f : World σ α → Work (World σ α) α β}
    (hf : ∀ w, (f w).Touches changed) : (get >>= f).Touches changed :=
  fun w => ends_get_bind.mpr (hf w w)

theorem touches_forM {f : γ → Work (World σ α) α PUnit} {xs : List γ}
    (hf : ∀ x ∈ xs, (f x).Touches changed) : (xs.forM f).Touches changed := by
  intro w
  refine ends_forM (.refl changed w) fun x hx w' hw' => ?_
  exact (hf x hx w').mono (fun _ _ h => hw'.trans h) fun _ _ h => hw'.trans h

theorem touches_mapM {f : γ → Work (World σ α) α β} {xs : List γ}
    (hf : ∀ x ∈ xs, (f x).Touches changed) : (xs.mapM f).Touches changed := by
  intro w
  refine ends_mapM (I := fun _ w' => w.ExtendsBut changed w') (.refl changed w) ?_
  intro x hx _ w' hw'
  exact (hf x hx w').mono (fun _ _ h => hw'.trans h) fun _ _ h => hw'.trans h

/-- Work on the sources changes no solution. -/
theorem touches_drawn (work : Work σ α β) : (World.drawn work).Touches changed := by
  intro w
  refine (ends_within (ends_trivial work w.sources)).mono ?_ ?_
  · rintro x _ ⟨sources, rfl, -⟩
    exact .of_store_eq changed rfl
  · rintro e _ ⟨sources, rfl, -⟩
    exact .of_store_eq changed rfl

theorem touches_count (f : Tally → Tally) :
    (World.count f : Work (World σ α) α Unit).Touches changed :=
  fun _ => ends_modify.mpr (.of_store_eq changed rfl)

theorem touches_update {r : Ref} (hr : r ∈ changed)
    (rule : Solution (Tensor α) α → Except (Fault α) (Solution (Tensor α) α)) :
    (World.update r rule : Work (World σ α) α Unit).Touches changed := by
  intro w
  rw [World.update, ends_get_bind]
  refine Ends.bind (P := fun _ w' => w' = w) ?_ ?_
  · exact ends_lift (fun _ _ => rfl) fun _ _ => .refl changed w
  · rintro x _ rfl
    refine ends_set.mpr ⟨Nat.le_of_eq (Store.size_put _ _ _).symm, fun q _ hq => ?_⟩
    exact Store.look_put_of_ne (fun hqr : q = r => hq (hqr ▸ hr)) _

end Work

open Work

/-! ## Problems -/

theorem liftRows_touches {call : Tensor α → Work (World σ α) α (Tensor α)} {changed : List Ref}
    (hcall : ∀ x, (call x).Touches changed) (rows : List (Tensor α)) :
    (liftRows call rows).Touches changed := by
  rw [liftRows]
  refine touches_bind (touches_mapM fun x _ => hcall x) fun answers => ?_
  split
  · exact touches_bind (touches_lift _) fun _ => touches_lift _
  · exact touches_lift _

namespace FunctionProblem

variable (p : FunctionProblem α) {changed : List Ref}

theorem callObjectives_touches (x : Tensor α) :
    (p.callObjectives x : Work (World σ α) α (Tensor α)).Touches changed :=
  touches_bind (touches_count _) fun _ => touches_lift _

theorem callConstraints_touches (rule : Response α) (x : Tensor α) :
    (callConstraints rule x : Work (World σ α) α (Tensor α)).Touches changed :=
  touches_bind (touches_count _) fun _ => touches_lift _

theorem evaluate_touches {r : Ref} (hr : r ∈ changed) :
    (p.evaluate r : Work (World σ α) α Unit).Touches changed := by
  rw [evaluate]
  refine touches_get_bind fun w => touches_bind (p.callObjectives_touches _) fun f => ?_
  refine touches_bind (touches_update hr _) fun _ => ?_
  cases p.constraints with
  | none => exact touches_pure ()
  | some rule =>
    exact touches_bind (callConstraints_touches rule _) fun c => touches_update hr _

theorem evaluateBatch_touches (batch : List Ref) :
    (p.evaluateBatch batch : Work (World σ α) α Unit).Touches batch := by
  have hstore : ∀ (ys : List (Tensor α))
      (rule : Tensor α → Solution (Tensor α) α → Except (Fault α) (Solution (Tensor α) α)),
      ((batch.zip ys).forM fun p =>
        (World.update p.1 (rule p.2) : Work (World σ α) α Unit)).Touches batch :=
    fun ys rule => touches_forM fun q hq => touches_update (List.of_mem_zip hq).1 _
  rw [evaluateBatch]
  split
  · exact touches_pure ()
  · refine touches_get_bind fun w => touches_bind (touches_lift _) fun xs => ?_
    refine touches_bind (liftRows_touches p.callObjectives_touches xs) fun fs => ?_
    refine touches_bind (hstore fs fun f s => s.setObjectives f.entries) fun _ => ?_
    cases p.constraints with
    | none => exact touches_pure ()
    | some rule =>
      refine touches_bind (liftRows_touches (callConstraints_touches rule) xs) fun cs => ?_
      exact hstore cs fun c s => s.setConstraints c.entries

end FunctionProblem

theorem Problem.evaluateAll_touches (p : Problem α) (solutions : List Ref) :
    (p.evaluateAll solutions : Work (World σ α) α Unit).Touches solutions := by
  rw [evaluateAll]
  by_cases hone : p.oneByOne = true
  · rw [if_pos hone]
    refine touches_forM fun r hr => ?_
    rw [evaluate, if_pos hone]
    exact touches_bind (touches_count _) fun _ => p.evaluate_touches hr
  · rw [if_neg hone]
    exact p.evaluateBatch_touches solutions

/-! ## Searches -/

namespace Assembly

variable [Scalar α] (a : Assembly σ α)

theorem select_touches (population : List Ref) : (a.select population).Touches [] :=
  touches_get_bind fun _ => touches_drawn _

theorem evolve_ends (parents : List Ref) (w : World σ α) :
    (a.evolve parents).Ends w (fun children w' => w.Extends w' ∧ w.Fresh w' children)
      fun _ w' => w.Extends w' := by
  rw [evolve, ends_get_bind]
  have hdrawn : (World.drawn (a.variation.evolve (parents.map w.look))).Ends w
      (fun _ w' => w.Extends w') fun _ w' => w.Extends w' := touches_drawn _ w
  refine hdrawn.bind fun children w' hw' => ?_
  refine (World.insert_mapM_ends children w').mono ?_ fun _ _ h => h.elim
  rintro refs w'' ⟨hext, hfresh, -⟩
  exact ⟨hw'.trans hext, hfresh.toNew.mono hw'.size_le (Nat.le_refl _), hfresh.nodup⟩

theorem search_gentle : a.search.Gentle where
  select_touches := a.select_touches
  evolve_ends := a.evolve_ends
  measure_touches := a.problem.evaluateAll_touches

end Assembly

/-! ## How many children a family has -/

/-- Recombination gives `k` decisions; without it there is one child. -/
def Variation.Brings (v : Variation σ α) (k : Nat) : Prop :=
  match v.crossover with
  | none => k = 1
  | some cross => ∀ x y w, (cross x y).Ends w (fun decisions _ => decisions.length = k)
      fun _ _ => True

variable [Scalar α] {k : Nat}

theorem Variation.evolve_length {v : Variation σ α} (h : v.Brings k)
    (parents : List (Solution (Tensor α) α)) (sources : σ) :
    (v.evolve parents).Ends sources (fun children _ => children.length = k) fun _ _ => True := by
  have hdescendants : parents.length = v.arity →
      (v.descendants parents).Ends sources (fun decisions _ => decisions.length = k)
        fun _ _ => True := by
    intro harity
    unfold Brings at h
    rw [arity] at harity
    cases hcross : v.crossover with
    | none =>
      rw [hcross] at h harity
      obtain ⟨p, rfl⟩ := List.length_eq_one_iff.mp harity
      exact h.symm
    | some cross =>
      rw [hcross] at h harity
      obtain ⟨p, q, rfl⟩ := List.length_eq_two.mp harity
      rw [descendants, hcross]
      exact h _ _ sources
  rw [evolve]
  by_cases harity : parents.length = v.arity
  · rw [if_neg (not_not.mpr harity)]
    refine (hdescendants harity).bind fun decisions sources' hlength => ?_
    refine (ends_mapM_length _ _ sources').mono (fun children _ hchildren => ?_) fun _ _ h => h
    rw [hchildren, List.length_zipIdx, hlength]
  · rw [if_pos harity]
    trivial

theorem Assembly.search_brings {a : Assembly σ α} (h : a.variation.Brings k) :
    a.search.Brings k := by
  intro parents w
  change (a.evolve parents).Ends w (fun children _ => children.length = k) fun _ _ => True
  rw [evolve, ends_get_bind]
  refine ((ends_within (Variation.evolve_length h (parents.map w.look) w.sources)).mono
    (fun _ _ h => h) fun _ _ _ => trivial).bind ?_
  rintro children w' ⟨sources, -, hlength⟩
  refine (World.insert_mapM_ends children w').mono ?_ fun _ _ h => h.elim
  rintro refs w'' ⟨-, -, hlooks⟩
  rw [← hlength, ← hlooks, List.length_map]

end ParetoSearch
