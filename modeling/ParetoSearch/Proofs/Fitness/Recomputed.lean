import ParetoSearch.Proofs.Fitness.Superiority
import ParetoSearch.Proofs.Fitness.Upkeep

/-!
# Repaired and recomputed fitness

Without scaling, what one member does to another depends on the objectives of the two, and
under volumes on the anchor.  Under differences, and under volumes below a given point,
nothing else of the population enters.  Fitness repaired after removals is then what the
survivors get when they are evaluated afresh (`Tracker.evaluate_removeEach_recomputes`).

Where no point is given, the anchor lies one beyond the worst values of the population, and an
evaluation freezes it with the effects.  The repaired fitness belongs to that anchor.  A
fresh evaluation places its own, which is the same one as long as no objective has lost its
worst value (`Tracker.evaluate_removeEach_anchored`).
-/

namespace ParetoSearch

variable {X α : Type}

/-! ## What evaluations and removals leave alone -/

namespace Tracker

variable [Inhabited X]

theorem sameData_annotate (store : Store X α) (members : List Ref) (fitness : List α) (r : Ref) :
    ((annotate store members fitness).look r).SameData (store.look r) :=
  annotate_induction (P := fun s => (s.look r).SameData (store.look r)) members fitness
    (.refl _) fun s q x hs => (s.sameData_setFitness q r x).trans hs

variable [ExactScalar α]

theorem sameData_removeEach {t t' : Tracker α} {store final : Store X α} {members rest : List Ref}
    {indices : List Int} (h : t.removeEach store members indices = .ok (t', final, rest))
    (r : Ref) : (final.look r).SameData (store.look r) := by
  induction indices generalizing t store members with
  | nil =>
    cases h
    exact .refl _
  | cons index indices ih =>
    obtain ⟨⟨t, next, left⟩, hremove, h⟩ := of_bind_ok h
    obtain ⟨-, fitness, rfl⟩ := remove_annotates hremove
    exact (ih h).trans (sameData_annotate store left fitness r)

end Tracker

/-! ## Fitness of rows -/

variable [ExactScalar α]

/-- What each of some rows gets, when every other one does to it what the two rows say. -/
def fitnessOf (effect : List α → List α → α) (rows : List (List α)) : List α :=
  let places := List.range rows.length
  places.map (standing (fun j i => effect (rows.getD j []) (rows.getD i [])) places)

theorem fitnessOf_map {effect : List α → List α → α} {f : Nat → List α} {places : List Nat}
    (hnodup : places.Nodup) {frozen : Nat → Nat → α}
    (heffect : ∀ j ∈ places, ∀ i ∈ places, frozen j i = effect (f j) (f i)) :
    fitnessOf effect (places.map f) = places.map (standing frozen places) := by
  refine List.ext_getElem (by simp [fitnessOf]) fun k hk hk' => ?_
  have hk : k < places.length := by simpa using hk'
  simp only [fitnessOf, List.length_map, List.getElem_map, List.getElem_range, standing_eq]
  congr 2
  refine List.ext_getElem (by simp) fun j hj hj' => ?_
  have hj : j < places.length := by simpa using hj'
  -- Places are distinct, so two of them are one exactly where their indices are.
  simp only [List.getElem_map, List.getElem_range, toOthers, hnodup.getElem_inj_iff]
  split
  · rfl
  · rw [heffect _ (List.getElem_mem hj) _ (List.getElem_mem hk)]
    simp [hj, hk]

/-- What one row does to another on objectives as they are. -/
def Scheme.effectOf (s : Scheme α) (gain : List α → List α → α) (a b : List α) : α :=
  Scalar.exp (-gain a b / s.kappa)

theorem SchemeKind.effect_of_raw {kind : SchemeKind} {arguments : SchemeArguments α} {s : Scheme α}
    (hbuild : kind.build arguments = .ok s) (hraw : arguments.normalize.isOn = false) {width : Nat}
    (hfits : kind.Fits arguments width) {members : List Ref} {objectives : Ref → List α}
    (hwidth : ∀ r ∈ members, (objectives r).length = width) {matrix : List (List α)}
    (hmatrix : s.measure? (members.map objectives) = .ok matrix) {j i : Nat}
    (hj : j < members.length) (hi : i < members.length) :
    s.effect matrix j i = s.effectOf (kind.gain arguments (members.map objectives))
      (objectives (atPlace members j)) (objectives (atPlace members i)) := by
  have hnormalize : s.normalize = false := (build_ok hbuild).2.1.trans hraw
  have hscaled : ∀ rows : List (List α), s.scaled rows = id := fun rows => by
    funext row
    simp [Scheme.scaled, hnormalize]
  have hscale : s.scaleOf matrix = 1 := by
    simp [Scheme.scaleOf, hnormalize]
  rw [effect_eq hbuild hfits hwidth hmatrix hj hi, scaledGain, hscaled, hscale, one_mul,
    List.map_id, Scheme.effectOf]
  rfl

/-! ## Worst values -/

namespace Vector

theorem exists_entries_columnFold_greater {rows : List (List α)} {width : Nat} (hne : rows ≠ [])
    (hrows : ∀ row ∈ rows, row.length = width) (k : Nat) :
    ∃ row ∈ rows, entries (columnFold Scalar.greater rows) k = entries row k := by
  obtain ⟨first, rest, rfl⟩ := List.exists_cons_of_ne_nil hne
  clear hne
  rw [columnFold]
  induction rest generalizing first with
  | nil => exact ⟨first, List.mem_cons_self, rfl⟩
  | cons next rest ih =>
    simp only [List.forall_mem_cons] at hrows
    obtain ⟨hfirst, hnext, hrest⟩ := hrows
    have hentry : entries (first.zipWith Scalar.greater next) k =
        max (entries first k) (entries next k) := by
      rw [entries_zipWith (by rw [Scalar.greater_eq_max, max_self]) (hfirst.trans hnext.symm),
        Scalar.greater_eq_max]
    obtain ⟨row, hrow, heq⟩ := ih (first.zipWith Scalar.greater next)
      (List.forall_mem_cons.mpr ⟨by rw [List.length_zipWith, hfirst, hnext, min_self], hrest⟩)
    rw [List.foldl_cons, heq]
    rcases List.mem_cons.mp hrow with rfl | hrow
    · rw [hentry]
      rcases max_choice (entries first k) (entries next k) with h | h
      · exact ⟨first, by simp, h⟩
      · exact ⟨next, by simp, h⟩
    · exact ⟨row, by simp [hrow], rfl⟩

/-- Fewer rows have the same worst values if each of these is still reached. -/
theorem columnFold_greater_eq {rows others : List (List α)} {width : Nat} (hne : others ≠ [])
    (hsub : others ⊆ rows) (hrows : ∀ row ∈ rows, row.length = width)
    (hworst : ∀ k < width, ∃ other ∈ others, ∀ row ∈ rows, entries row k ≤ entries other k) :
    columnFold Scalar.greater others = columnFold Scalar.greater rows := by
  have hothers : ∀ other ∈ others, other.length = width := fun other h => hrows other (hsub h)
  have hrowsne : rows ≠ [] := List.ne_nil_of_mem (hsub (List.head_mem hne))
  have hlength : (columnFold Scalar.greater others).length = width :=
    length_columnFold hne hothers
  have hlength' : (columnFold Scalar.greater rows).length = width :=
    length_columnFold hrowsne hrows
  refine (entries_inj (hlength.trans hlength'.symm)).mp (funext fun k => ?_)
  by_cases hk : k < width
  · obtain ⟨other, hother, heq⟩ := exists_entries_columnFold_greater hne hothers k
    obtain ⟨row, hrow, heq'⟩ := exists_entries_columnFold_greater hrowsne hrows k
    obtain ⟨worst, hworst, hall⟩ := hworst k hk
    refine le_antisymm ?_ ?_
    · exact heq.trans_le (le_columnFold_greater hrows other (hsub hother) k)
    · calc entries (columnFold Scalar.greater rows) k = entries row k := heq'
        _ ≤ entries worst k := hall row hrow
        _ ≤ entries (columnFold Scalar.greater others) k :=
          le_columnFold_greater hothers worst hworst k
  · rw [entries_of_le (hlength.trans_le (not_lt.mp hk)),
      entries_of_le (hlength'.trans_le (not_lt.mp hk))]

end Vector

/-! ## Anchors -/

namespace SchemeKind

/-- Neither differences nor volumes below a given point depend on the population. -/
theorem gain_eq_of_point {kind : SchemeKind} {arguments : SchemeArguments α}
    (hpoint : kind = .hypervolume → ∃ point, arguments.referencePoint = .given point)
    (rows others : List (List α)) : kind.gain arguments rows = kind.gain arguments others := by
  cases kind with
  | epsilon => rfl
  | hypervolume =>
    obtain ⟨point, hpoint⟩ := hpoint rfl
    rw [gain, gain, hpoint]
    rfl

end SchemeKind

/-- One beyond the worst value of each objective. -/
def Scheme.beyond (rows : List (List α)) : List α :=
  (Vector.columnFold Scalar.greater rows).map (· + 1)

/-- Rows that still reach all worst values have their fitness below the same anchor. -/
theorem Scheme.fitnessOf_beyond (s : Scheme α) {rows others : List (List α)} {width : Nat}
    (hsub : others ⊆ rows) (hrows : ∀ row ∈ rows, row.length = width)
    (hworst : ∀ k < width, ∃ other ∈ others, ∀ row ∈ rows, entries row k ≤ entries other k) :
    fitnessOf (s.effectOf (gainBelow (beyond others))) others =
      fitnessOf (s.effectOf (gainBelow (beyond rows))) others := by
  by_cases hne : others = []
  · subst hne
    rfl
  · rw [beyond, Vector.columnFold_greater_eq hne hsub hrows hworst, ← beyond]

/-- The same with volumes measured from a point. -/
def SchemeArguments.pinned (a : SchemeArguments α) (point : List α) : SchemeArguments α :=
  { a with referencePoint := .given (.vector point) }

namespace SchemeKind

variable {arguments : SchemeArguments α}

theorem gain_pinned (point : List α) (rows : List (List α)) :
    hypervolume.gain (arguments.pinned point) rows = Scheme.gainBelow point := rfl

theorem gain_beyond (hraw : arguments.normalize.isOn = false)
    (hnone : arguments.referencePoint.value? = none) (rows : List (List α)) :
    hypervolume.gain arguments rows = Scheme.gainBelow (Scheme.beyond rows) := by
  rw [gain, hraw, hnone]
  cases rows <;> rfl

theorem build_pinned {s : Scheme α} (hbuild : hypervolume.build arguments = .ok s)
    (point : List α) : hypervolume.build (arguments.pinned point) =
      .ok { s with matrix := Scheme.volumeMatrix (.point point) } := by
  obtain ⟨kappa, hkappa, hbuild⟩ := of_bind_ok hbuild
  have hpinned : hypervolume.build (arguments.pinned point) =
      Scheme.kappaChecked (Scheme.volumeMatrix (.point point)) kappa arguments.normalize.isOn := by
    rw [build, SchemeArguments.pinned, hkappa, ok_bind]
    rfl
  rw [hpinned]
  by_cases hpositive : kappa ≤ 0
  · simp [Scheme.hypervolume?, Scheme.kappaChecked, hpositive] at hbuild
  · simp only [Scheme.hypervolume?, Scheme.kappaChecked, if_neg hpositive, Except.ok.injEq]
      at hbuild ⊢
    rw [← hbuild]

end SchemeKind

/-! ## Repair -/

namespace Tracker

variable [Inhabited X] {kind : SchemeKind} {arguments : SchemeArguments α} {s : Scheme α}
  {store : Store X α} {members : List Ref} {width : Nat}

/-- The tracker and the members show the fitness of rows. -/
structure Shows (t : Tracker α) (store : Store X α) (members : List Ref) (fitness : List α) :
    Prop where
  tracked : t.fitness? = .ok fitness
  written : members.map (fun r => (store.look r).fitness?) = fitness.map some

theorem Follows.shows {effect : Nat → Nat → α} {members : List Ref} {places : List Nat}
    {t : Tracker α} {store : Store X α} {population : List Ref}
    (h : Follows effect members places t store population) :
    t.Shows store population (places.map (standing effect places)) := by
  refine ⟨h.fitness?_eq, ?_⟩
  rw [h.population_eq, List.map_map, List.map_map]
  exact List.map_congr_left h.fitness_eq

/-- After any removals the survivors have their fitness from each other's rows, by the gain
of the population that was evaluated. -/
theorem evaluate_removeEach_fitness (hbuild : kind.build arguments = .ok s)
    (hraw : arguments.normalize.isOn = false) {t first : Tracker α} {next : Store X α}
    (hstored : ∀ r ∈ members, r.index < store.size)
    (hwidth : ∀ r ∈ members, (store.look r).objectives.length = width)
    (hevaluate : t.evaluate s store members = .ok (first, next))
    {indices : List Int} (hvalid : ValidIndices members.length indices) :
    let objectives := fun r => (store.look r).objectives
    let survivors := dropEach members indices
    ∃ tracker final, first.removeEach next members indices = .ok (tracker, final, survivors) ∧
      tracker.Shows final survivors (fitnessOf (s.effectOf
        (kind.gain arguments (members.map objectives))) (survivors.map objectives)) ∧
      (∀ r ∈ survivors, r.index < final.size) ∧
      ∀ r, (final.look r).objectives = objectives r := by
  intro objectives survivors
  obtain ⟨matrix, hmatrix, hshared, hfirst⟩ :=
    follows_of_evaluate hbuild hstored hwidth hevaluate
  obtain ⟨tracker, final, hremove, hlast⟩ := hfirst.removeEach hshared hvalid
  let places := dropEach (List.range members.length) indices
  have hsurvivors : survivors = places.map (atPlace members) := hlast.population_eq
  have hfitness : fitnessOf (s.effectOf (kind.gain arguments (members.map objectives)))
      (survivors.map objectives) = places.map (standing (s.effect matrix) places) := by
    rw [hsurvivors, List.map_map]
    refine fitnessOf_map hlast.nodup fun j hj i hi => ?_
    obtain ⟨hfits, hmeasure⟩ :=
      hmatrix (List.ne_nil_of_length_pos (Nat.zero_lt_of_lt (hlast.lt i hi)))
    exact SchemeKind.effect_of_raw hbuild hraw hfits hwidth hmeasure (hlast.lt j hj) (hlast.lt i hi)
  refine ⟨tracker, final, hremove, ⟨?_, ?_⟩, ?_, fun r => ?_⟩
  · rw [hfitness]
    exact hlast.fitness?_eq
  · rw [hfitness, hsurvivors, List.map_map, List.map_map]
    exact List.map_congr_left hlast.fitness_eq
  · rw [hsurvivors, List.forall_mem_map]
    exact hlast.stored
  · obtain ⟨fitness, rfl⟩ := evaluate_annotates hevaluate
    exact ((sameData_removeEach hremove r).trans
      (sameData_annotate store members fitness r)).objectives_eq

theorem fits_of_survivors (hbuild : kind.build arguments = .ok s) {t first : Tracker α}
    {next : Store X α} (hwidth : ∀ r ∈ members, (store.look r).objectives.length = width)
    (hevaluate : t.evaluate s store members = .ok (first, next)) {indices : List Int}
    (hne : dropEach members indices ≠ []) : kind.Fits arguments width := by
  obtain ⟨r, hr⟩ := List.exists_mem_of_ne_nil _ hne
  exact fits_of_evaluate hbuild hwidth (List.ne_nil_of_mem (mem_of_mem_dropEach hr)) hevaluate

/-- A fresh evaluation of members with these objectives. -/
theorem evaluate_fitness (hbuild : kind.build arguments = .ok s)
    (hraw : arguments.normalize.isOn = false) (hfits : members ≠ [] → kind.Fits arguments width)
    (hstored : ∀ r ∈ members, r.index < store.size) {objectives : Ref → List α}
    (hobjectives : ∀ r, (store.look r).objectives = objectives r)
    (hwidth : ∀ r ∈ members, (objectives r).length = width) :
    ∃ fresh next, Tracker.start.evaluate s store members = .ok (fresh, next) ∧
      fresh.Shows next members (fitnessOf (s.effectOf
        (kind.gain arguments (members.map objectives))) (members.map objectives)) := by
  obtain rfl : (fun r => (store.look r).objectives) = objectives := funext hobjectives
  obtain ⟨⟨fresh, next⟩, hevaluate⟩ : ∃ p, Tracker.start.evaluate s store members = .ok p := by
    by_cases hne : members = []
    · rw [hne]
      exact ⟨_, rfl⟩
    · exact evaluate_total .start hbuild (hfits hne) hwidth
  -- This is the fitness after no removals.
  have hnone : ValidIndices members.length [] := trivial
  obtain ⟨tracker, final, hremove, hshows, -⟩ :=
    evaluate_removeEach_fitness hbuild hraw hstored hwidth hevaluate hnone
  cases hremove
  exact ⟨_, _, hevaluate, hshows⟩

/-- However members are removed after an evaluation that scales nothing and has no anchor
to place, a fresh evaluation of the survivors gives them the fitness that they have. -/
theorem evaluate_removeEach_recomputes (hbuild : kind.build arguments = .ok s)
    (hraw : arguments.normalize.isOn = false)
    (hpoint : kind = .hypervolume → ∃ point, arguments.referencePoint = .given point)
    {t first : Tracker α} {next : Store X α} (hstored : ∀ r ∈ members, r.index < store.size)
    (hwidth : ∀ r ∈ members, (store.look r).objectives.length = width)
    (hevaluate : t.evaluate s store members = .ok (first, next))
    {indices : List Int} (hvalid : ValidIndices members.length indices) :
    let survivors := dropEach members indices
    ∃ tracker final fresh refreshed fitness,
      first.removeEach next members indices = .ok (tracker, final, survivors) ∧
      Tracker.start.evaluate s final survivors = .ok (fresh, refreshed) ∧
      tracker.Shows final survivors fitness ∧ fresh.Shows refreshed survivors fitness := by
  intro survivors
  obtain ⟨tracker, final, hremove, hshows, hfinal, hobjectives⟩ :=
    evaluate_removeEach_fitness hbuild hraw hstored hwidth hevaluate hvalid
  obtain ⟨fresh, refreshed, hfresh, hagain⟩ := evaluate_fitness hbuild hraw
    (fits_of_survivors hbuild hwidth hevaluate) hfinal hobjectives
    (fun r hr => hwidth r (mem_of_mem_dropEach hr))
  rw [SchemeKind.gain_eq_of_point hpoint _ (members.map fun r => (store.look r).objectives)]
    at hagain
  exact ⟨tracker, final, fresh, refreshed, _, hremove, hfresh, hshows, hagain⟩

/-- Without scaling and without a point, the fitness that survivors have after removals is
the one below the anchor of the members that were evaluated.  A fresh evaluation gives them
the same if in every objective one of them is as bad as any of those. -/
theorem evaluate_removeEach_anchored (hbuild : SchemeKind.hypervolume.build arguments = .ok s)
    (hraw : arguments.normalize.isOn = false) (hnone : arguments.referencePoint.value? = none)
    {t first : Tracker α} {next : Store X α} (hstored : ∀ r ∈ members, r.index < store.size)
    (hwidth : ∀ r ∈ members, (store.look r).objectives.length = width)
    (hevaluate : t.evaluate s store members = .ok (first, next))
    {indices : List Int} (hvalid : ValidIndices members.length indices) :
    let objectives := fun r => (store.look r).objectives
    let survivors := dropEach members indices
    ∃ tracker final fitness fixed below refixed fresh refreshed,
      first.removeEach next members indices = .ok (tracker, final, survivors) ∧
      tracker.Shows final survivors fitness ∧
      SchemeKind.hypervolume.build (arguments.pinned (Scheme.beyond (members.map objectives))) =
        .ok fixed ∧
      Tracker.start.evaluate fixed final survivors = .ok (below, refixed) ∧
      below.Shows refixed survivors fitness ∧
      Tracker.start.evaluate s final survivors = .ok (fresh, refreshed) ∧
      ((∀ k < width, ∃ r ∈ survivors, ∀ m ∈ members,
          entries (objectives m) k ≤ entries (objectives r) k) →
        fresh.Shows refreshed survivors fitness) := by
  intro objectives survivors
  have hsub : ∀ r ∈ survivors, r ∈ members := fun r hr => mem_of_mem_dropEach hr
  have hrows : ∀ row ∈ members.map objectives, row.length = width :=
    List.forall_mem_map.mpr hwidth
  obtain ⟨tracker, final, hremove, hshows, hfinal, hobjectives⟩ :=
    evaluate_removeEach_fitness hbuild hraw hstored hwidth hevaluate hvalid
  have hwidth' : ∀ r ∈ survivors, (objectives r).length = width := fun r hr =>
    hwidth r (hsub r hr)
  have hfixed := SchemeKind.build_pinned hbuild (Scheme.beyond (members.map objectives))
  have hmeets : survivors ≠ [] → SchemeKind.hypervolume.Fits
      (arguments.pinned (Scheme.beyond (members.map objectives))) width := fun hne => by
    have hmembers : members.map objectives ≠ [] :=
      List.ne_nil_of_mem (List.mem_map_of_mem (hsub _ (List.head_mem hne)))
    exact Or.inl ((List.length_map _).trans (Vector.length_columnFold hmembers hrows))
  obtain ⟨below, refixed, hbelow, hsame⟩ :=
    evaluate_fitness hfixed hraw hmeets hfinal hobjectives hwidth'
  obtain ⟨fresh, refreshed, hfresh, hagain⟩ := evaluate_fitness hbuild hraw
    (fits_of_survivors hbuild hwidth hevaluate) hfinal hobjectives hwidth'
  rw [SchemeKind.gain_pinned] at hsame
  rw [SchemeKind.gain_beyond hraw hnone] at hshows hagain
  refine ⟨tracker, final, _, _, below, refixed, fresh, refreshed, hremove, hshows, hfixed, hbelow,
    hsame, hfresh, fun hworst => ?_⟩
  rwa [s.fitnessOf_beyond (List.map_subset objectives hsub) hrows (by simpa using hworst)]
    at hagain

/-! ## A population that loses its worst values -/

/-- Volumes of objectives as they are. -/
noncomputable def rawVolumes (point : Argument (Tensor ℝ)) : SchemeArguments ℝ :=
  { kappa := .given 1, normalize := .given false, referencePoint := point }

theorem rawVolumes_build (point : Argument (Tensor ℝ)) :
    SchemeKind.hypervolume.build (rawVolumes point) = .ok ⟨Scheme.volumeMatrix
      (Scheme.anchorOf false (some Scalar.two) (point.value?.map Tensor.entries)), 1, false⟩ := by
  have hpositive : ¬ (1 : ℝ) ≤ 0 := by norm_num
  simp only [SchemeKind.build, rawVolumes, Argument.required, ok_bind, Scheme.hypervolume?,
    Scheme.kappaChecked, if_neg hpositive]
  rfl

/-- The third is worst in both objectives. -/
noncomputable def outlying : Store Unit ℝ :=
  .ofList ([[0, 1], [1, 0], [3, 3]].map fun row => ⟨(), row.map Nat.cast, [], []⟩)

theorem outlying_stored : ∀ r ∈ outlying.refs, r.index < outlying.size := by decide

theorem outlying_width : ∀ r ∈ outlying.refs, (outlying.look r).objectives.length = 2 := by decide

theorem outlying_objectives : (outlying.look ⟨0⟩).objectives = [0, 1] ∧
    (outlying.look ⟨1⟩).objectives = [1, 0] ∧ (outlying.look ⟨2⟩).objectives = [3, 3] := by
  refine ⟨?_, ?_, ?_⟩
  · change [0, 1].map (Nat.cast : ℕ → ℝ) = _
    simp
  · change [1, 0].map (Nat.cast : ℕ → ℝ) = _
    simp
  · change [3, 3].map (Nat.cast : ℕ → ℝ) = _
    simp

/-- The worst of three goes, and the two others are evaluated again. -/
theorem evaluate_removeEach_recomputes_outlying :
    ∃ s first next tracker final fresh refreshed fitness,
      SchemeKind.hypervolume.build (rawVolumes (.given (.vector [4, 4]))) = .ok s ∧
      Tracker.start.evaluate s outlying outlying.refs = .ok (first, next) ∧
      first.removeEach next outlying.refs [-1] = .ok (tracker, final, [⟨0⟩, ⟨1⟩]) ∧
      Tracker.start.evaluate s final [⟨0⟩, ⟨1⟩] = .ok (fresh, refreshed) ∧
      tracker.Shows final [⟨0⟩, ⟨1⟩] fitness ∧ fresh.Shows refreshed [⟨0⟩, ⟨1⟩] fitness := by
  have hbuild := rawVolumes_build (.given (.vector [4, 4]))
  have hfits : SchemeKind.hypervolume.Fits (rawVolumes (.given (.vector [4, 4]))) 2 := Or.inl rfl
  have hvalid : ValidIndices outlying.refs.length [-1] := by decide
  obtain ⟨⟨first, next⟩, hevaluate⟩ := evaluate_total .start hbuild hfits outlying_width
  obtain ⟨tracker, final, fresh, refreshed, fitness, hremove, hfresh, hshows, hagain⟩ :=
    evaluate_removeEach_recomputes hbuild rfl (fun _ => ⟨_, rfl⟩) outlying_stored outlying_width
      hevaluate hvalid
  exact ⟨_, first, next, tracker, final, fresh, refreshed, fitness, hbuild, hevaluate, hremove,
    hfresh, hshows, hagain⟩

/-- Below the corner of a square, each of the two gains a strip of width one over the other. -/
theorem gainBelow_corner {p : ℝ} (hp : 1 ≤ p) :
    Scheme.gainBelow [p, p] [0, 1] [1, 0] = p - 1 ∧
      Scheme.gainBelow [p, p] [1, 0] [0, 1] = p - 1 := by
  have hp0 : 0 ≤ p := zero_le_one.trans hp
  have hvolume (x y : ℝ) (hx : x ≤ p) (hy : y ≤ p) :
      Scheme.volume [p, p] [x, y] = (p - x) * (p - y) := by
    change 1 * Scalar.greater (p - x) 0 * Scalar.greater (p - y) 0 = _
    rw [Scalar.greater_eq_max, Scalar.greater_eq_max, max_eq_left (sub_nonneg.mpr hx),
      max_eq_left (sub_nonneg.mpr hy), one_mul]
  have hcorner : ([0, 1] : List ℝ).zipWith Scalar.greater [1, 0] = [1, 1] ∧
      ([1, 0] : List ℝ).zipWith Scalar.greater [0, 1] = [1, 1] := by
    simp [Scalar.greater_eq_max]
  have htie : dominates ([0, 1] : List ℝ) [1, 0] = false ∧
      dominates ([1, 0] : List ℝ) [0, 1] = false := by
    constructor <;> norm_num [dominates, nowhereWorse, somewhereBetter]
  constructor
  · rw [Scheme.gainBelow, Scheme.volumeGain, hcorner.1, htie.1, hvolume 0 1 hp0 hp,
      hvolume 1 0 hp hp0, hvolume 1 1 hp hp, if_neg Bool.false_ne_true]
    ring
  · rw [Scheme.gainBelow, Scheme.volumeGain, hcorner.2, htie.2, hvolume 0 1 hp0 hp,
      hvolume 1 0 hp hp0, hvolume 1 1 hp hp, if_neg Bool.false_ne_true]
    ring

theorem fitnessOf_corner {s : Scheme ℝ} (hkappa : s.kappa = 1) {p : ℝ} (hp : 1 ≤ p) :
    fitnessOf (s.effectOf (Scheme.gainBelow [p, p])) [[0, 1], [1, 0]] =
      [-Real.exp (1 - p), -Real.exp (1 - p)] := by
  have heffect : ∀ a b, Scheme.gainBelow [p, p] a b = p - 1 →
      s.effectOf (Scheme.gainBelow [p, p]) a b = Real.exp (1 - p) := by
    intro a b hgain
    rw [Scheme.effectOf, hgain, hkappa, div_one, neg_sub]
    rfl
  simp [fitnessOf, standing, List.range_succ, heffect _ _ (gainBelow_corner hp).1,
    heffect _ _ (gainBelow_corner hp).2]

/-- The first of three goes, and the one that is worst in both objectives stays. -/
theorem evaluate_removeEach_anchored_outlying :
    ∃ s first next tracker final fresh refreshed fitness,
      SchemeKind.hypervolume.build (rawVolumes .leftOut) = .ok s ∧
      Tracker.start.evaluate s outlying outlying.refs = .ok (first, next) ∧
      first.removeEach next outlying.refs [0] = .ok (tracker, final, [⟨1⟩, ⟨2⟩]) ∧
      Tracker.start.evaluate s final [⟨1⟩, ⟨2⟩] = .ok (fresh, refreshed) ∧
      tracker.Shows final [⟨1⟩, ⟨2⟩] fitness ∧ fresh.Shows refreshed [⟨1⟩, ⟨2⟩] fitness := by
  have hbuild := rawVolumes_build .leftOut
  have hfits : SchemeKind.hypervolume.Fits (rawVolumes .leftOut) 2 := nofun
  have hvalid : ValidIndices outlying.refs.length [0] := by decide
  obtain ⟨⟨first, next⟩, hevaluate⟩ := evaluate_total .start hbuild hfits outlying_width
  obtain ⟨tracker, final, fitness, fixed, below, refixed, fresh, refreshed, hremove, hshows, -, -,
      -, hfresh, hagain⟩ :=
    evaluate_removeEach_anchored hbuild rfl rfl outlying_stored outlying_width hevaluate hvalid
  refine ⟨_, first, next, tracker, final, fresh, refreshed, fitness, hbuild, hevaluate, hremove,
    hfresh, hshows, hagain fun k hk => ⟨⟨2⟩, by decide, ?_⟩⟩
  obtain ⟨hfirst, hsecond, hthird⟩ := outlying_objectives
  have hrefs : outlying.refs = [⟨0⟩, ⟨1⟩, ⟨2⟩] := rfl
  simp only [hrefs, List.forall_mem_cons, hfirst, hsecond, hthird]
  obtain rfl | rfl : k = 0 ∨ k = 1 := by omega
  · simp [entries]
  · simp [entries]

/-- With the worst of three, the anchor of the two others goes: they keep what they had below
the old one, and a fresh evaluation gives them what they have below their own. -/
theorem repaired_ne_recomputed :
    ∃ s first next tracker final fresh refreshed,
      SchemeKind.hypervolume.build (rawVolumes .leftOut) = .ok s ∧
      Tracker.start.evaluate s outlying outlying.refs = .ok (first, next) ∧
      first.removeEach next outlying.refs [-1] = .ok (tracker, final, [⟨0⟩, ⟨1⟩]) ∧
      Tracker.start.evaluate s final [⟨0⟩, ⟨1⟩] = .ok (fresh, refreshed) ∧
      tracker.fitness? = .ok [-Real.exp (-3), -Real.exp (-3)] ∧
      fresh.fitness? = .ok [-Real.exp (-1), -Real.exp (-1)] ∧
      -Real.exp (-3) ≠ -Real.exp (-1) := by
  have hbuild := rawVolumes_build .leftOut
  have hfits : SchemeKind.hypervolume.Fits (rawVolumes .leftOut) 2 := nofun
  have hvalid : ValidIndices outlying.refs.length [-1] := by decide
  obtain ⟨⟨first, next⟩, hevaluate⟩ := evaluate_total .start hbuild hfits outlying_width
  obtain ⟨tracker, final, hremove, hshows, hfinal, hobjectives⟩ :=
    evaluate_removeEach_fitness hbuild rfl outlying_stored outlying_width hevaluate hvalid
  obtain ⟨hfirst, hsecond, hthird⟩ := outlying_objectives
  obtain ⟨fresh, refreshed, hfresh, hagain⟩ := evaluate_fitness hbuild rfl (fun _ => hfits)
    hfinal hobjectives fun r hr => outlying_width r (mem_of_mem_dropEach hr)
  have hrows : (outlying.refs.map fun r => (outlying.look r).objectives) =
      [[0, 1], [1, 0], [3, 3]] := by
    rw [← hfirst, ← hsecond, ← hthird]
    rfl
  have hleft : ((dropEach outlying.refs [-1]).map fun r => (outlying.look r).objectives) =
      [[0, 1], [1, 0]] := by
    rw [← hfirst, ← hsecond]
    rfl
  have hanchor : Scheme.beyond ([[0, 1], [1, 0], [3, 3]] : List (List ℝ)) = [4, 4] := by
    norm_num [Scheme.beyond, Vector.columnFold, Scalar.greater_eq_max]
  have hanchor' : Scheme.beyond ([[0, 1], [1, 0]] : List (List ℝ)) = [2, 2] := by
    norm_num [Scheme.beyond, Vector.columnFold, Scalar.greater_eq_max]
  rw [SchemeKind.gain_beyond rfl rfl, hleft] at hshows hagain
  rw [hrows, hanchor, fitnessOf_corner rfl (by norm_num)] at hshows
  rw [hanchor', fitnessOf_corner rfl (by norm_num)] at hagain
  norm_num at hshows hagain
  refine ⟨_, first, next, tracker, final, fresh, refreshed, hbuild, hevaluate, hremove, hfresh,
    hshows.tracked, hagain.tracked, ?_⟩
  rw [Ne, neg_inj, Real.exp_eq_exp]
  norm_num

end Tracker
end ParetoSearch
