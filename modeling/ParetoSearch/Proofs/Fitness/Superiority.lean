import ParetoSearch.Proofs.Fitness.Preference

/-!
# Fitness of dominating members

After an evaluation and any removals a member has at least the fitness of every
survivor that it dominates, and more under the differences of objectives.  Under
volumes it has more if it lies below the anchor, wherever the one it dominates lies
(`Tracker.evaluate_removeEach_ranks`).

An evaluation that succeeds has objectives that fit its scheme, so that nothing else
is asked of a reference point.
-/

namespace ParetoSearch

/-! ## What an evaluation that succeeds tells -/

theorem Vector.length_of_pairUp_ok {α β γ : Type} {a : List β} {b : List γ}
    {pairs : List (β × γ)} (h : (pairUp a b : Except (Fault α) _) = .ok pairs) :
    a.length = b.length ∨ a.length = 1 ∨ b.length = 1 := by
  unfold pairUp at h
  split at h
  case isTrue heq => exact Or.inl heq
  case isFalse =>
    split at h
    · exact Or.inr (Or.inl rfl)
    · exact Or.inr (Or.inr rfl)
    · cases h

variable {X α : Type}

theorem Scheme.pos_of_epsilonMatrix_ok [Scalar α] {rows matrix : List (List α)} {width : Nat}
    (hne : rows ≠ []) (hrows : ∀ row ∈ rows, row.length = width)
    (h : epsilonMatrix rows = .ok matrix) : 0 < width := by
  obtain ⟨a, rest, rfl⟩ := List.exists_cons_of_ne_nil hne
  rw [Nat.pos_iff_ne_zero]
  rintro rfl
  have ha : a = [] := List.length_eq_zero_iff.mp (hrows a List.mem_cons_self)
  rw [epsilonMatrix, List.mapM_cons, List.mapM_cons, ha] at h
  cases h

theorem Scheme.volumeMatrix_ok [Scalar α] {anchor : Anchor α} {rows matrix : List (List α)}
    {width : Nat} (hne : rows ≠ []) (hrows : ∀ row ∈ rows, row.length = width)
    (h : volumeMatrix anchor rows = .ok matrix) :
    ∃ point, anchor.resolve rows = .ok point ∧
      (point.length = width ∨ point.length = 1 ∨ width = 1) := by
  obtain ⟨point, hpoint, h⟩ := of_bind_ok h
  refine ⟨point, hpoint, ?_⟩
  obtain ⟨row, rest, rfl⟩ := List.exists_cons_of_ne_nil hne
  rw [← hrows row List.mem_cons_self]
  obtain ⟨sized, hsized, -⟩ := of_bind_ok h
  rw [List.mapM_cons] at hsized
  obtain ⟨first, hfirst, -⟩ := of_bind_ok hsized
  obtain ⟨volume, hvolume, -⟩ := of_bind_ok hfirst
  obtain ⟨pairs, hpairs, -⟩ := of_bind_ok hvolume
  exact Vector.length_of_pairUp_ok hpairs

/-- What could be measured fits. -/
theorem SchemeKind.fits_of_matrix_ok [Scalar α] {kind : SchemeKind} {a : SchemeArguments α}
    {rows matrix : List (List α)} {width : Nat} (hne : rows ≠ [])
    (hrows : ∀ row ∈ rows, row.length = width) (h : kind.matrix a rows = .ok matrix) :
    kind.Fits a width := by
  cases kind with
  | epsilon => exact Scheme.pos_of_epsilonMatrix_ok hne hrows h
  | hypervolume =>
    obtain ⟨point, hpoint, hlength⟩ := Scheme.volumeMatrix_ok hne hrows h
    unfold Fits
    cases hgiven : a.referencePoint with
    | given p =>
      rw [hgiven] at hpoint
      obtain rfl := Except.ok.inj hpoint
      exact hlength
    | leftOut | nothing =>
      rw [hgiven] at hpoint
      intro hon hrho
      rw [hon, hrho] at hpoint
      obtain ⟨row, rest, rfl⟩ := List.exists_cons_of_ne_nil hne
      cases hpoint

namespace Tracker

variable [ExactScalar α] [Inhabited X]

theorem fits_of_evaluate {kind : SchemeKind} {arguments : SchemeArguments α} {s : Scheme α}
    (hbuild : kind.build arguments = .ok s) {t first : Tracker α} {store next : Store X α}
    {members : List Ref} {width : Nat}
    (hwidth : ∀ r ∈ members, (store.look r).objectives.length = width) (hne : members ≠ [])
    (hevaluate : t.evaluate s store members = .ok (first, next)) : kind.Fits arguments width := by
  let objectives := members.map fun r => (store.look r).objectives
  have hrows : ∀ row ∈ objectives, row.length = width := List.forall_mem_map.mpr hwidth
  have hobjectives : objectives ≠ [] := by simpa [objectives] using hne
  have hstack : rows store members = .ok objectives := Vector.stack_ok hrows
  have hscaled : ∀ row ∈ objectives.map (s.scaled objectives), row.length = width :=
    List.forall_mem_map.mpr fun row hrow => s.length_scaled hobjectives hrows (hrows row hrow)
  rw [evaluate, if_neg (by simpa using hne), hstack, ok_bind, Scheme.assess,
    s.prepare_eq hobjectives, ok_bind, (SchemeKind.build_ok hbuild).1] at hevaluate
  obtain ⟨assessed, hassessed, -⟩ := of_bind_ok hevaluate
  obtain ⟨matrix, hmatrix, -⟩ := of_bind_ok hassessed
  exact SchemeKind.fits_of_matrix_ok (by simpa using hobjectives) hscaled hmatrix

/-- An evaluation that succeeds is followed, by the matrix of its scheme. -/
theorem follows_of_evaluate {kind : SchemeKind} {arguments : SchemeArguments α} {s : Scheme α}
    (hbuild : kind.build arguments = .ok s) {t first : Tracker α} {store next : Store X α}
    {members : List Ref} (hstored : ∀ r ∈ members, r.index < store.size) {width : Nat}
    (hwidth : ∀ r ∈ members, (store.look r).objectives.length = width)
    (hevaluate : t.evaluate s store members = .ok (first, next)) :
    ∃ matrix, (members ≠ [] → kind.Fits arguments width ∧
        s.measure? (members.map fun r => (store.look r).objectives) = .ok matrix) ∧
      SharedAlike (s.effect matrix) members ∧
      Follows (s.effect matrix) members (List.range members.length) first next members := by
  have hfollows : ∀ {matrix : List (List α)}, (members ≠ [] →
      s.measure? (members.map fun r => (store.look r).objectives) = .ok matrix ∧
        matrix.length = members.length ∧ ∀ row ∈ matrix, row.length = members.length) →
      SharedAlike (s.effect matrix) members →
      Follows (s.effect matrix) members (List.range members.length) first next members := by
    intro matrix hmatrix hshared
    obtain ⟨tracker, marked, hfollowed, hfirst⟩ :=
      evaluate_follows s t store members hstored hwidth hmatrix hshared
    rw [hfollowed, Except.ok.injEq, Prod.mk.injEq] at hevaluate
    obtain ⟨rfl, rfl⟩ := hevaluate
    exact hfirst
  by_cases hne : members = []
  · -- Without members nothing is measured, and any matrix will do.
    have hshared : SharedAlike (s.effect []) members :=
      sharedAlike_of_nodup (hne ▸ List.nodup_nil)
    exact ⟨[], fun h => absurd hne h, hshared, hfollows (fun h => absurd hne h) hshared⟩
  · have hfits := fits_of_evaluate hbuild hwidth hne hevaluate
    obtain ⟨matrix, hmatrix, hshared⟩ := SchemeKind.measured hbuild hfits hwidth
    exact ⟨matrix, fun _ => ⟨hfits, (hmatrix hne).1⟩, hshared, hfollows hmatrix hshared⟩

/-! ## Fitness of the survivors -/

/-- However members are removed after an evaluation, each survivor has at least the
fitness of the survivors that it dominates, and more if it clears the anchor, in the
tracker and in its attribute alike. -/
theorem evaluate_removeEach_ranks {kind : SchemeKind} {arguments : SchemeArguments α}
    {s : Scheme α} (hbuild : kind.build arguments = .ok s)
    (hexp : StrictMono (Scalar.exp : α → α)) {t first : Tracker α} {store next : Store X α}
    {members : List Ref} (hstored : ∀ r ∈ members, r.index < store.size) {width : Nat}
    (hwidth : ∀ r ∈ members, (store.look r).objectives.length = width)
    (hevaluate : t.evaluate s store members = .ok (first, next))
    {indices : List Int} (hvalid : ValidIndices members.length indices) :
    let objectives := members.map fun r => (store.look r).objectives
    let survivors := dropEach members indices
    ∃ tracker final fitness,
      first.removeEach next members indices = .ok (tracker, final, survivors) ∧
      tracker.fitness? = .ok fitness ∧
      survivors.map (fun r => (final.look r).fitness?) = fitness.map some ∧
      ∀ a ∈ survivors, ∀ b ∈ survivors,
        dominates (store.look a).objectives (store.look b).objectives = true →
          ∃ x y, (final.look a).fitness? = some x ∧ (final.look b).fitness? = some y ∧ y ≤ x ∧
            (kind.Clears arguments (objectives.map (s.scaled objectives))
              (s.scaled objectives (store.look a).objectives) → y < x) := by
  intro objectives survivors
  obtain ⟨matrix, hmatrix, hshared, hfirst⟩ :=
    follows_of_evaluate hbuild hstored hwidth hevaluate
  obtain ⟨tracker, final, hremove, hlast⟩ := hfirst.removeEach hshared hvalid
  let places := dropEach (List.range members.length) indices
  have hplaces : ∀ i ∈ places, i < members.length := hlast.lt
  have hsurvivors : survivors = places.map (atPlace members) := hlast.population_eq
  refine ⟨tracker, final, places.map (standing (s.effect matrix) places), hremove,
    hlast.fitness?_eq, ?_, ?_⟩
  · rw [hsurvivors, List.map_map, List.map_map]
    exact List.map_congr_left hlast.fitness_eq
  · intro a ha b hb hdominates
    rw [hsurvivors, List.mem_map] at ha hb
    obtain ⟨i, hi, rfl⟩ := ha
    obtain ⟨j, hj, rfl⟩ := hb
    obtain ⟨hfits, hmeasure⟩ :=
      hmatrix (List.ne_nil_of_length_pos (Nat.zero_lt_of_lt (hplaces i hi)))
    obtain ⟨hfavours, hprefers⟩ := SchemeKind.favours_of_dominates hbuild hexp hfits hwidth
      hmeasure (hplaces i hi) (hplaces j hj) hdominates
    refine ⟨_, _, hlast.fitness_eq i hi, hlast.fitness_eq j hj, ?_, fun hclears => ?_⟩
    · exact hfavours.standing_le hlast.nodup hplaces hi hj
    · exact (hprefers hclears).standing_lt hlast.nodup hplaces hi hj

/-- Volumes up to one in both objectives, taken as they are. -/
noncomputable def unitVolumes : SchemeArguments ℝ :=
  { kappa := .given 1, normalize := .given false, referencePoint := .given ⟨[2], [1, 1]⟩ }

/-- Three solutions, of which only the first lies below one in both objectives. -/
noncomputable def descent : Store Unit ℝ :=
  .ofList ([[0, 0], [2, 3], [1, 2]].map fun row => ⟨(), row.map Nat.cast, [], []⟩)

/-- The first is worth more than the second when the third has gone. -/
theorem evaluate_removeEach_ranks_descent :
    ∃ s first next tracker final x y, SchemeKind.hypervolume.build unitVolumes = .ok s ∧
      Tracker.start.evaluate s descent descent.refs = .ok (first, next) ∧
      first.removeEach next descent.refs [-1] = .ok (tracker, final, [⟨0⟩, ⟨1⟩]) ∧
      (final.look ⟨0⟩).fitness? = some x ∧ (final.look ⟨1⟩).fitness? = some y ∧ y < x := by
  have hbuild : SchemeKind.hypervolume.build unitVolumes =
      .ok ⟨Scheme.volumeMatrix (.point [1, 1]), 1, false⟩ := by
    have hpositive : ¬ (1 : ℝ) ≤ 0 := by norm_num
    simp only [SchemeKind.build, unitVolumes, Argument.required, ok_bind, Scheme.hypervolume?,
      Scheme.kappaChecked, if_neg hpositive]
    rfl
  have hstored : ∀ r ∈ descent.refs, r.index < descent.size := by decide
  have hwidth : ∀ r ∈ descent.refs, (descent.look r).objectives.length = 2 := by decide
  have hfits : SchemeKind.hypervolume.Fits unitVolumes 2 := Or.inl rfl
  obtain ⟨matrix, hmatrix, hshared⟩ := SchemeKind.measured hbuild hfits hwidth
  obtain ⟨first, next, hevaluate, -⟩ :=
    evaluate_follows _ Tracker.start descent descent.refs hstored hwidth hmatrix hshared
  have hvalid : ValidIndices descent.refs.length [-1] := by decide
  obtain ⟨tracker, final, fitness, hremove, -, -, hranks⟩ :=
    evaluate_removeEach_ranks hbuild Real.exp_strictMono hstored hwidth hevaluate hvalid
  have hbest : (descent.look ⟨0⟩).objectives = [0, 0] := by
    change [0, 0].map (Nat.cast : ℕ → ℝ) = _
    simp
  have hworse : (descent.look ⟨1⟩).objectives = [2, 3] := by
    change [2, 3].map (Nat.cast : ℕ → ℝ) = _
    simp
  have hdominates : dominates (descent.look ⟨0⟩).objectives (descent.look ⟨1⟩).objectives =
      true := by
    rw [hbest, hworse]
    norm_num [dominates, nowhereWorse, somewhereBetter]
  obtain ⟨x, y, hx, hy, -, hlt⟩ := hranks ⟨0⟩ (by decide) ⟨1⟩ (by decide) hdominates
  refine ⟨_, first, next, tracker, final, x, y, hbuild, hevaluate, hremove, hx, hy, hlt ?_⟩
  -- Nothing is scaled, and the sides of the box of the first are both one.
  rw [hbest]
  intro point hpoint pairs hpairs
  obtain rfl := Except.ok.inj hpoint
  have hbox : (Vector.pairUp [1, 1] [0, 0] : Except (Fault ℝ) (List (ℝ × ℝ))) = .ok pairs := hpairs
  obtain rfl := Except.ok.inj hbox
  simp

end Tracker
end ParetoSearch
