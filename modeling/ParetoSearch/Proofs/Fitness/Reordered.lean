import ParetoSearch.Proofs.Arithmetic.Extremes
import ParetoSearch.Proofs.Fitness.Recomputed

/-!
# Fitness in any order

An evaluation goes by position throughout: rows of the matrix, entries of the fitness, members
of the population.  Which solution stands where makes no difference without rounding.  All that
the population adds to two rows are extremes, of its objectives and of its matrix, and extremes
do not depend on an order (`SchemeKind.influence_perm`).  What one solution does to another is
then a matter of the two and of the population as a set, and a sum over the others is the same
in any order.

To compare two orders, both are told by where the solutions are stored and not by where they
stand.  `Tracker.Follows` has the same effect and the same members for both, and only its places
are permuted (`Tracker.evaluate_follows_refs`).
-/

namespace ParetoSearch

variable {X α : Type}

/-! ## Extremes in any order -/

theorem Vector.columnFold_perm {f : α → α → α} (hcomm : ∀ x y, f x y = f y x)
    (hright : ∀ x y z, f (f x y) z = f (f x z) y) {rows others : List (List α)}
    (h : rows.Perm others) : columnFold f rows = columnFold f others := by
  have : RightCommutative (List.zipWith f) := ⟨fun a b c =>
    List.ext_getElem (by simp [Nat.min_comm b.length]) fun k hk hk' => by simp [hright]⟩
  induction h with
  | nil => rfl
  | cons row hrest _ => exact hrest.foldl_eq row
  | swap a b rest =>
    rw [columnFold, columnFold, List.foldl_cons, List.foldl_cons,
      List.zipWith_comm_of_comm hcomm]
  | trans _ _ ih ih' => exact ih.trans ih'

variable [ExactScalar α]

theorem Vector.columnFold_lesser_perm {rows others : List (List α)} (h : rows.Perm others) :
    columnFold Scalar.lesser rows = columnFold Scalar.lesser others :=
  columnFold_perm (by simp [Scalar.lesser_eq_min, min_comm])
    (by simp [Scalar.lesser_eq_min, min_right_comm]) h

theorem Vector.columnFold_greater_perm {rows others : List (List α)} (h : rows.Perm others) :
    columnFold Scalar.greater rows = columnFold Scalar.greater others :=
  columnFold_perm (by simp [Scalar.greater_eq_max, max_comm])
    (by simp [Scalar.greater_eq_max, max_right_comm]) h

theorem Scalar.greatest?_perm {xs ys : List α} (h : xs.Perm ys) : greatest? xs = greatest? ys := by
  by_cases hne : xs = []
  · subst hne
    rw [h.nil_eq]
  · obtain ⟨g, hg, hxs, hall⟩ := greatest?_spec hne
    have hne' : ys ≠ [] := fun hnil => hne (List.perm_nil.mp (hnil ▸ h))
    obtain ⟨g', hg', hys, hall'⟩ := greatest?_spec hne'
    rw [hxs, hys, (hall' g (h.mem_iff.mp hg)).antisymm (hall g' (h.mem_iff.mpr hg'))]

/-! ## What a population adds to two rows -/

theorem Scheme.scaled_perm (s : Scheme α) {rows others : List (List α)} (h : rows.Perm others) :
    s.scaled rows = s.scaled others := by
  funext row
  rw [scaled, scaled, Normalizer.ofRows, Normalizer.ofRows, Vector.columnFold_lesser_perm h,
    Vector.columnFold_greater_perm h]

theorem Scheme.Anchor.resolve_perm (anchor : Anchor α) {rows others : List (List α)} {width : Nat}
    (hrows : ∀ row ∈ rows, row.length = width) (h : rows.Perm others) :
    anchor.resolve rows = anchor.resolve others := by
  by_cases hne : rows = []
  · subst hne
    rw [h.nil_eq]
  · have hne' : others ≠ [] := fun hnil => hne (List.perm_nil.mp (hnil ▸ h))
    have hempty : rows.isEmpty = others.isEmpty := by
      rw [List.isEmpty_eq_false_iff.mpr hne, List.isEmpty_eq_false_iff.mpr hne']
    have hhead : (rows.headD []).length = (others.headD []).length := by
      obtain ⟨row, rest, rfl⟩ := List.exists_cons_of_ne_nil hne
      obtain ⟨other, rest', rfl⟩ := List.exists_cons_of_ne_nil hne'
      exact (hrows row List.mem_cons_self).trans
        (hrows other (h.mem_iff.mpr List.mem_cons_self)).symm
    cases anchor with
    | point p => rfl
    | uniform coordinate => cases coordinate <;> simp only [resolve, hhead, hempty]
    | beyondWorst => rw [resolve, resolve, hempty, Vector.columnFold_greater_perm h]

theorem Scheme.scaleOf_perm (s : Scheme α) (gain : List α → List α → α)
    {rows others : List (List α)} (h : rows.Perm others) :
    s.scaleOf (rows.map fun a => rows.map (gain a)) =
      s.scaleOf (others.map fun a => others.map (gain a)) := by
  have hentries : (rows.map fun a => rows.map (gain a)).flatten.Perm
      (others.map fun a => others.map (gain a)).flatten := by
    rw [← List.flatMap_def, ← List.flatMap_def]
    exact List.Perm.flatMap h fun a _ => h.map (gain a)
  rw [scaleOf, scaleOf, Scalar.greatest?_perm (hentries.map Scalar.abs)]

namespace SchemeKind

variable {kind : SchemeKind} {arguments : SchemeArguments α} {s : Scheme α} {width : Nat}

theorem gain_perm {rows others : List (List α)} (hrows : ∀ row ∈ rows, row.length = width)
    (h : rows.Perm others) : kind.gain arguments rows = kind.gain arguments others := by
  cases kind with
  | epsilon => rfl
  | hypervolume => rw [gain, gain, Scheme.Anchor.resolve_perm _ hrows h]

theorem scaledGain_perm {rows others : List (List α)} (hrows : ∀ row ∈ rows, row.length = width)
    (h : rows.Perm others) :
    kind.scaledGain arguments s rows = kind.scaledGain arguments s others := by
  by_cases hne : rows = []
  · subst hne
    rw [h.nil_eq]
  · have hprepared : ∀ row ∈ rows.map (s.scaled rows), row.length = width :=
      List.forall_mem_map.mpr fun row hrow => s.length_scaled hne hrows (hrows row hrow)
    funext a b
    rw [scaledGain, scaledGain, gain_perm hprepared (h.map (s.scaled rows)), s.scaled_perm h]

/-- What one row does to another in a population with some rows. -/
def influence (kind : SchemeKind) (arguments : SchemeArguments α) (s : Scheme α)
    (rows : List (List α)) (a b : List α) : α :=
  let gain := kind.scaledGain arguments s rows
  Scalar.exp (-gain a b / (s.scaleOf (rows.map fun c => rows.map (gain c)) * s.kappa))

theorem influence_perm {rows others : List (List α)} (hrows : ∀ row ∈ rows, row.length = width)
    (h : rows.Perm others) :
    kind.influence arguments s rows = kind.influence arguments s others := by
  funext a b
  rw [influence, influence, scaledGain_perm hrows h, s.scaleOf_perm _ h]

theorem effect_eq_influence (hbuild : kind.build arguments = .ok s)
    (hfits : kind.Fits arguments width) {members : List Ref} {objectives : Ref → List α}
    (hwidth : ∀ r ∈ members, (objectives r).length = width) {matrix : List (List α)}
    (hmatrix : s.measure? (members.map objectives) = .ok matrix) {j i : Nat}
    (hj : j < members.length) (hi : i < members.length) :
    s.effect matrix j i = kind.influence arguments s (members.map objectives)
      (objectives (atPlace members j)) (objectives (atPlace members i)) := by
  have hrows : ∀ row ∈ members.map objectives, row.length = width := List.forall_mem_map.mpr hwidth
  have hne : members.map objectives ≠ [] :=
    List.ne_nil_of_mem (List.mem_map_of_mem (atPlace_mem hj))
  have hmeasure := measure?_eq hbuild hfits hne hrows
  rw [effect_eq hbuild hfits hwidth hmatrix hj hi, influence]
  rw [hmatrix, Except.ok.injEq] at hmeasure
  rw [hmeasure]
  rfl

end SchemeKind

/-! ## Places by another name -/

section

variable {effect renamed : Nat → Nat → α} {places : List Nat} {f : Nat → Nat}

theorem toOthers_map (hinj : ∀ j ∈ places, ∀ i ∈ places, f j = f i → j = i)
    (heffect : ∀ j ∈ places, ∀ i ∈ places, renamed (f j) (f i) = effect j i) :
    ∀ j ∈ places, ∀ i ∈ places, toOthers renamed (f j) (f i) = toOthers effect j i := by
  intro j hj i hi
  have hsame : f j = f i ↔ j = i := ⟨hinj j hj i hi, congrArg f⟩
  simp only [toOthers, hsame, heffect j hj i hi]

variable (h : ∀ j ∈ places, ∀ i ∈ places, toOthers renamed (f j) (f i) = toOthers effect j i)

include h

theorem standing_map : ∀ i ∈ places,
    standing renamed (places.map f) (f i) = standing effect places i := by
  intro i hi
  rw [standing_eq, standing_eq, List.map_map]
  exact congrArg (fun effects => -List.sum effects) (List.map_congr_left fun j hj => h j hj i hi)

theorem Assessment.among_map : among renamed (places.map f) = among effect places := by
  rw [among, among, List.map_map, List.map_map, Assessment.mk.injEq]
  refine ⟨List.map_congr_left fun j hj => ?_, List.map_congr_left fun i hi => standing_map h i hi⟩
  rw [Function.comp_apply, List.map_map]
  exact List.map_congr_left fun i hi => h j hj i hi

end

theorem Tracker.Follows.rename [Inhabited X] {effect renamed : Nat → Nat → α}
    {members others : List Ref} {places : List Nat} {f : Nat → Nat} {t : Tracker α}
    {store : Store X α} {population : List Ref}
    (h : Follows effect members places t store population)
    (hinj : ∀ j ∈ places, ∀ i ∈ places, f j = f i → j = i)
    (heffect : ∀ j ∈ places, ∀ i ∈ places, renamed (f j) (f i) = effect j i)
    (hlt : ∀ i ∈ places, f i < others.length)
    (hat : ∀ i ∈ places, atPlace others (f i) = atPlace members i) :
    Follows renamed others (places.map f) t store population := by
  have hothers := toOthers_map hinj heffect
  refine ⟨?_, ?_, ?_, ?_, h.nodup.map_on hinj, List.forall_mem_map.mpr hlt⟩
  · rw [h.assessment_eq, Assessment.among_map hothers]
  · rw [h.population_eq, List.map_map]
    exact List.map_congr_left fun i hi => (hat i hi).symm
  · refine List.forall_mem_map.mpr fun i hi => ?_
    rw [hat i hi, standing_map hothers i hi, h.fitness_eq i hi]
  · refine List.forall_mem_map.mpr fun i hi => ?_
    rw [hat i hi]
    exact h.stored i hi

theorem atPlace_inj {members : List Ref} (hnodup : members.Nodup) {j i : Nat}
    (hj : j < members.length) (hi : i < members.length)
    (h : atPlace members j = atPlace members i) : j = i := by
  simpa [atPlace, hj, hi, hnodup.getElem_inj_iff] using h

/-! ## Solutions by where they are stored -/

namespace Store

variable {α : Type} (store : Store X α)

theorem length_refs : store.refs.length = store.size := by
  rw [refs, List.length_map, List.length_range]

theorem nodup_refs : store.refs.Nodup :=
  List.nodup_range.map fun _ _ h => congrArg Ref.index h

variable {store}

theorem atPlace_refs {i : Nat} (hi : i < store.size) : atPlace store.refs i = ⟨i⟩ := by
  simp [atPlace, refs, hi]

end Store

namespace Tracker

variable [Inhabited X] {kind : SchemeKind} {arguments : SchemeArguments α} {s : Scheme α}
  {store : Store X α} {members : List Ref} {width : Nat}

/-- An evaluation that succeeds is followed by what the stored solutions do to each other in
the population. -/
theorem evaluate_follows_refs (hbuild : kind.build arguments = .ok s) (hnodup : members.Nodup)
    (hstored : ∀ r ∈ members, r.index < store.size)
    (hwidth : ∀ r ∈ members, (store.look r).objectives.length = width)
    {t first : Tracker α} {next : Store X α}
    (hevaluate : t.evaluate s store members = .ok (first, next)) :
    let objectives := fun r => (store.look r).objectives
    Follows (fun j i => kind.influence arguments s (members.map objectives)
        (objectives ⟨j⟩) (objectives ⟨i⟩))
      store.refs (members.map Ref.index) first next members := by
  intro objectives
  obtain ⟨matrix, hmatrix, -, hfirst⟩ := follows_of_evaluate hbuild hstored hwidth hevaluate
  have hplaces : members.map Ref.index =
      (List.range members.length).map fun i => (atPlace members i).index := by
    conv_lhs => rw [← map_atPlace_range members, List.map_map]
    rfl
  rw [hplaces]
  have hlt : ∀ i ∈ List.range members.length, (atPlace members i).index < store.size :=
    fun i hi => hstored _ (atPlace_mem (List.mem_range.mp hi))
  refine hfirst.rename (fun j hj i hi hji => ?_) (fun j hj i hi => ?_) (fun i hi => ?_)
    fun i hi => Store.atPlace_refs (hlt i hi)
  · have hsame : atPlace members j = atPlace members i := congrArg Ref.mk hji
    exact atPlace_inj hnodup (List.mem_range.mp hj) (List.mem_range.mp hi) hsame
  · have hj : j < members.length := List.mem_range.mp hj
    obtain ⟨hfits, hmeasure⟩ := hmatrix (List.ne_nil_of_length_pos (Nat.zero_lt_of_lt hj))
    exact (SchemeKind.effect_eq_influence hbuild hfits hwidth hmeasure hj
      (List.mem_range.mp hi)).symm
  · rw [store.length_refs]
    exact hlt i hi

/-- In another order the evaluation succeeds as well, and is followed by the same effect. -/
theorem evaluate_reordered (hbuild : kind.build arguments = .ok s) (hnodup : members.Nodup)
    (hstored : ∀ r ∈ members, r.index < store.size)
    (hwidth : ∀ r ∈ members, (store.look r).objectives.length = width)
    {order : List Ref} (horder : order.Perm members) {t first : Tracker α} {next : Store X α}
    (hevaluate : t.evaluate s store members = .ok (first, next)) :
    ∃ effect first' next', t.evaluate s store order = .ok (first', next') ∧
      Follows effect store.refs (members.map Ref.index) first next members ∧
      Follows effect store.refs (order.map Ref.index) first' next' order := by
  have hwidth' : ∀ r ∈ order, (store.look r).objectives.length = width := fun r hr =>
    hwidth r (horder.mem_iff.mp hr)
  obtain ⟨⟨first', next'⟩, hevaluate'⟩ : ∃ p, t.evaluate s store order = .ok p := by
    by_cases hne : members = []
    · rw [List.perm_nil.mp (show order.Perm [] from hne ▸ horder)]
      exact ⟨_, rfl⟩
    · exact evaluate_total t hbuild (fits_of_evaluate hbuild hwidth hne hevaluate) hwidth'
  let objectives := fun r => (store.look r).objectives
  have hsame : kind.influence arguments s (order.map objectives) =
      kind.influence arguments s (members.map objectives) :=
    SchemeKind.influence_perm (List.forall_mem_map.mpr hwidth') (horder.map objectives)
  have hfollows := evaluate_follows_refs hbuild (horder.nodup_iff.mpr hnodup)
    (fun r hr => hstored r (horder.mem_iff.mp hr)) hwidth' hevaluate'
  simp only [objectives, hsame] at hfollows
  exact ⟨_, first', next', hevaluate',
    evaluate_follows_refs hbuild hnodup hstored hwidth hevaluate, hfollows⟩

variable {effect : Nat → Nat → α} {places : List Nat} {t : Tracker α} {next : Store X α}
  {population : List Ref}

theorem Follows.places_eq (h : Follows effect store.refs places t next population) :
    places = population.map Ref.index := by
  have hat : ∀ i ∈ places, (atPlace store.refs i).index = i := fun i hi => by
    rw [Store.atPlace_refs (store.length_refs ▸ h.lt i hi)]
  rw [h.population_eq, List.map_map]
  exact ((List.map_congr_left hat).trans (List.map_id places)).symm

/-- What each member shows is up to the member and to who else is left. -/
theorem Follows.shows_refs (h : Follows effect store.refs places t next population) :
    t.Shows next population (population.map fun r => standing effect places r.index) := by
  have hshows := h.shows
  have hfitness : places.map (standing effect places) =
      population.map fun r => standing effect places r.index := by
    conv_lhs => rw [h.places_eq, List.map_map, ← h.places_eq]
    rfl
  rwa [hfitness] at hshows

end Tracker
end ParetoSearch
