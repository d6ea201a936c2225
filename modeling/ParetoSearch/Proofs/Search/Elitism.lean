import ParetoSearch.Proofs.Fitness.Preference
import ParetoSearch.Proofs.Search.Truncation

/-!
# What dominates is not removed first

Truncation looks at fitness alone, and fitness adds up what all other members do.
Still, in exact arithmetic no member that it removes dominates one that it keeps
(`iterate_spares_dominating`): as long as both are left the dominating one has the
larger fitness, whatever else has been removed, so it is never the worst.
-/

namespace ParetoSearch

variable {σ α : Type} [ExactScalar α]

/-! ## Deletions from scratch -/

theorem cull_sublist (effect : Nat → Nat → α) (n : Nat) (places : List Nat) :
    (cull effect n places).Sublist places := by
  induction n generalizing places with
  | zero => exact List.Sublist.refl places
  | succ n ih =>
    rw [cull]
    split
    · exact List.Sublist.refl places
    · exact (ih _).trans List.erase_sublist

/-- Who is preferred to a survivor survives. -/
theorem mem_cull_of_prefers {effect : Nat → Nat → α} {count i j : Nat}
    (h : Prefers effect count i j) (n : Nat) {places : List Nat} (hnodup : places.Nodup)
    (hplaces : ∀ k ∈ places, k < count) (hi : i ∈ places) (hj : j ∈ cull effect n places) :
    i ∈ cull effect n places := by
  induction n generalizing places with
  | zero => exact hi
  | succ n ih =>
    cases hworst : places.argmin (standing effect places) with
    | none =>
      rw [List.argmin_eq_none.mp hworst] at hi
      cases hi
    | some worst =>
      rw [cull_succ effect n hworst] at hj ⊢
      have hjleft : j ∈ places.erase worst := (cull_sublist effect n _).subset hj
      have hjplaces : j ∈ places := List.mem_of_mem_erase hjleft
      have hne : i ≠ worst := by
        rintro rfl
        have hleast := List.le_of_mem_argmin hjplaces hworst
        exact absurd (h.standing_lt hnodup hplaces hi hjplaces) hleast.not_gt
      exact ih (hnodup.erase worst) (fun k hk => hplaces k (List.mem_of_mem_erase hk))
        ((List.mem_erase_of_ne hne).mpr hi) hj

/-! ## Generations -/

namespace Machine

/-- No member that a generation removes dominates one that it keeps, if dominated
volumes count; by default they do. -/
theorem iterate_spares_dominating {kind : SchemeKind} {arguments : SchemeArguments α}
    (s : Search σ α) (hbuild : kind.build arguments = .ok s.scheme)
    (hexp : StrictMono (Scalar.exp : α → α)) {m merged : Machine σ α} {offspring : List Ref}
    (hmerge : (merge s).run.run m = (.ok offspring, merged))
    (hstored : ∀ r ∈ merged.population, r.index < merged.world.store.size) {width : Nat}
    (hwidth : ∀ r ∈ merged.population, (merged.world.look r).objectives.length = width)
    (hfits : kind.Fits arguments width) :
    let rows := merged.population.map fun r => (merged.world.look r).objectives
    (arguments.rho = .leftOut → arguments.referencePoint = .leftOut →
      ∀ prepared, s.scheme.prepare rows = .ok prepared → kind.Overlooks arguments prepared) ∧
    ((∀ prepared, s.scheme.prepare rows = .ok prepared → kind.Overlooks arguments prepared) →
      ∃ (places : List Nat) (final : Machine σ α),
        (iterate s).run.run m = (.ok (), final) ∧
        places.Sublist (List.range merged.population.length) ∧
        places.length = m.population.length ∧
        final.population = places.filterMap (merged.population[·]?) ∧
        ∀ i < merged.population.length, i ∉ places → ∀ j ∈ places,
          dominates (rows.getD i []) (rows.getD j []) = false) := by
  intro rows
  have hrows : ∀ row ∈ rows, row.length = width := by
    rw [List.forall_mem_map]
    exact hwidth
  refine ⟨fun hrho hpoint prepared hprepare =>
    SchemeKind.overlooks_of_default hbuild hrho hpoint hrows hprepare, fun habove => ?_⟩
  obtain ⟨matrix, hmatrix, hshared⟩ := SchemeKind.measured hbuild hfits hwidth
  obtain ⟨final, hsettle, hfinal⟩ :=
    settle_run s merged hstored hwidth hmatrix hshared m.population.length
  let places := cull (s.scheme.effect matrix) (merged.population.length - m.population.length)
    (List.range merged.population.length)
  have hlt : ∀ k ∈ places, k < merged.population.length := hfinal.lt
  have hmerged := (merge_joins hmerge).1
  refine ⟨places, final, ?_, cull_sublist _ _ _, ?_, ?_, ?_⟩
  · rw [iterate_run, Work.run_bind hmerge]
    exact hsettle
  · have hlength : merged.population.length = m.population.length + offspring.length := by
      rw [hmerged, List.length_append]
    rw [length_cull, List.length_range]
    omega
  · rw [filterMap_eq_map_atPlace hlt]
    exact hfinal.population_eq
  · intro i hi hremoved j hj
    by_contra hdominates
    rw [Bool.not_eq_false] at hdominates
    have hrow : ∀ k < merged.population.length, rows.getD k [] =
        (merged.world.look (atPlace merged.population k)).objectives := by
      intro k hk
      simp [rows, atPlace, hk]
    rw [hrow i hi, hrow j (hlt j hj)] at hdominates
    have hne : merged.population ≠ [] := List.ne_nil_of_length_pos (Nat.zero_lt_of_lt hi)
    have hprefers := SchemeKind.prefers_of_dominates hbuild hexp hfits hwidth habove
      (hmatrix hne).1 hi (hlt j hj) hdominates
    exact hremoved (mem_cull_of_prefers hprefers _ List.nodup_range
      (fun k hk => List.mem_range.mp hk) (List.mem_range.mpr hi) hj)

/-- A search by volumes, with everything left to the standard, whose only child is
worse than its parent. -/
noncomputable def worsening : Search Unit ℝ :=
  { founders := return [], measure := fun _ => return, arity := 1
    select := fun population => return population.take 1
    evolve := fun _ => do return [← World.insert ⟨default, [1, 1], [], []⟩]
    scheme := ⟨Scheme.volumeMatrix (.uniform (some SchemeKind.standardRho)),
      SchemeKind.standardKappa, true⟩
    close := return }

noncomputable def lonely : Machine Unit ℝ :=
  { Machine.start ⟨.ofList [⟨default, [0, 0], [], []⟩], {}, ()⟩ none with
    population := [⟨0⟩], ready := true }

/-- The parent stays, because it dominates the child. -/
theorem iterate_spares_dominating_worsening :
    ∃ final : Machine Unit ℝ, (iterate worsening).run.run lonely = (.ok (), final) ∧
      final.population = [⟨0⟩] := by
  have hbuild : SchemeKind.hypervolume.build ({} : SchemeArguments ℝ) = .ok worsening.scheme := by
    have hpositive : ¬ (SchemeKind.standardKappa : ℝ) ≤ 0 := by
      norm_num [SchemeKind.standardKappa, Scalar.ratio]
    simp only [SchemeKind.build, Argument.required, ok_bind, Scheme.hypervolume?,
      Scheme.kappaChecked, if_neg hpositive]
    rfl
  have hmerge : (merge worsening).run.run lonely = (.ok [⟨1⟩], { lonely with
      world := ⟨.ofList [⟨default, [0, 0], [], []⟩, ⟨default, [1, 1], [], []⟩], {}, ()⟩
      population := [⟨0⟩, ⟨1⟩], evaluations := 1 }) :=
    merge_run (m := lonely) rfl (breed_of_family (by decide) rfl (by decide))
  obtain ⟨hdefault, hspares⟩ := iterate_spares_dominating worsening hbuild Real.exp_strictMono
    hmerge (by decide)
    (show ∀ r ∈ _, _ = 2 by decide) (by simp [SchemeKind.Fits])
  obtain ⟨places, final, hrun, hsub, hlength, hpopulation, hsafe⟩ := hspares (hdefault rfl rfl)
  obtain ⟨k, rfl⟩ := List.length_eq_one_iff.mp hlength
  have hk : k < 2 := List.mem_range.mp (hsub.subset (List.mem_singleton_self k))
  have hzero : k = 0 := by
    by_contra hne
    obtain rfl : k = 1 := by omega
    have hfalse := hsafe 0 (by decide) (by decide) 1 (List.mem_singleton_self 1)
    have htrue : dominates [(0 : ℝ), 0] [1, 1] = true := by
      norm_num [dominates, nowhereWorse, somewhereBetter]
    exact Bool.false_ne_true (hfalse.symm.trans htrue)
  subst hzero
  exact ⟨final, hrun, hpopulation⟩

end Machine
end ParetoSearch
