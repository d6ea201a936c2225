import ParetoSearch.Proofs.Arithmetic.Extended
import ParetoSearch.Proofs.Dominance
import ParetoSearch.Proofs.Fitness.Upkeep

/-!
# Fitness next to an infinite objective

Objectives are scaled to the bounds of the population.  Where one of them is infinite, so
is the range, and infinity over infinity is not a number.  From there it spreads: to every
gain that the member takes part in, and by way of the gains to the fitness of every other
member and of the member itself.  One infinite objective leaves no fitness in the whole
population that is a number (`SchemeKind.assess_of_infinite`).
-/

namespace ParetoSearch

open Extended

variable {K : Type} [ExactScalar K] {width : Nat} {rows : List (List (Extended K))}
  {a b row : List (Extended K)}

/-! ## Scaled objectives -/

theorem Normalizer.scaleRow_of_infinite (hrows : ∀ row ∈ rows, row.length = width)
    (hrow : row ∈ rows) (hinfinite : ∃ x ∈ row, Scalar.isFinite x = false) :
    nan ∈ (ofRows rows).scaleRow row := by
  obtain ⟨x, hx, hnot⟩ := hinfinite
  obtain ⟨k, hk⟩ := List.mem_iff_getElem?.mp hx
  obtain ⟨hlt, -⟩ := List.getElem?_eq_some_iff.mp hk
  have hwidth : k < width := hrows row hrow ▸ hlt
  have hcolumn : x ∈ rows.map (·.getD k nan) := List.mem_map.mpr ⟨row, hrow, by simp [hk]⟩
  cases rows with
  | nil => cases hrow
  | cons first rest =>
    have hlower := Vector.getElem?_columnFold Scalar.lesser nan hrows hwidth
    have hupper := Vector.getElem?_columnFold Scalar.greater nan hrows hwidth
    refine List.mem_iff_getElem?.mpr ⟨k, ?_⟩
    rw [← scaled_eq_nan hcolumn hnot]
    simp [scaleRow, ofRows, List.getElem?_zipWith, hk, hlower, hupper]

namespace Scheme

/-! ## Gains -/

theorem shift_of_nan (hlength : a.length = b.length) (h : nan ∈ a ∨ nan ∈ b) :
    shift a b = nan := by
  have hdiff : ∃ z ∈ a.zipWith (· - ·) b, z = nan :=
    absorbs_sub.zipWith hlength (h.imp (⟨nan, ·, rfl⟩) (⟨nan, ·, rfl⟩))
  unfold shift
  cases hzip : a.zipWith (· - ·) b with
  | nil => simp [hzip] at hdiff
  | cons x xs => exact absorbs_greater.foldl (hzip ▸ hdiff)

theorem volume_of_nan {point : List (Extended K)} (hlength : point.length = row.length)
    (h : nan ∈ row) : volume point row = nan := by
  have hside : Absorbs (fun c x : Extended K => Scalar.greater (c - x) 0) (· = nan) :=
    ⟨by rintro x y rfl; simp, by rintro x y rfl; simp⟩
  obtain ⟨z, hz, rfl⟩ := hside.zipWith hlength (Or.inr ⟨nan, h, rfl⟩)
  have hproduct : Vector.product
      ((point.zip row).map fun p => Scalar.greater (p.1 - p.2) 0) = nan := by
    rw [List.map_zip_eq_zipWith]
    exact absorbs_mul.foldl ⟨nan, List.mem_cons_of_mem _ hz, rfl⟩
  rw [volume, boxVolume, Vector.pairUp_of_length_eq hlength, ok_bind, hproduct]
  rfl

theorem gainBelow_of_nan {point : List (Extended K)} (ha : point.length = a.length)
    (hb : point.length = b.length) (h : nan ∈ a ∨ nan ∈ b) : gainBelow point a b = nan := by
  unfold gainBelow volumeGain
  rcases h with h | h
  · rw [volume_of_nan ha h]
    split <;> simp
  · rw [volume_of_nan hb h]
    split <;> simp

/-! ## Fitness -/

theorem contributions_of_nan (s : Scheme (Extended K)) (scale : Extended K)
    {matrix : List (List (Extended K))} {i j : Nat} (hne : i ≠ j)
    (hrow : matrix[i]? = some row) (hentry : row[j]? = some nan) :
    ∃ acts, (s.contributions scale matrix)[i]? = some acts ∧ acts[j]? = some nan := by
  refine ⟨_, by rw [contributions, List.getElem?_map, List.getElem?_zipIdx, hrow]; rfl, ?_⟩
  simp [hentry, hne]

end Scheme

/-- Where each member suffers what is not a number from some other, no fitness is one. -/
theorem Assessment.fitness_of_nan {contributions : List (List (Extended K))} {n : Nat}
    (hrows : ∀ row ∈ contributions, row.length = n)
    (h : ∀ j < n, ∃ row ∈ contributions, row[j]? = some nan) :
    ∀ x ∈ (ofContributions contributions).fitness, x = nan := by
  intro x hx
  obtain ⟨y, hy, rfl⟩ := List.mem_map.mp hx
  obtain ⟨j, hj⟩ := List.mem_iff_getElem?.mp hy
  obtain ⟨hlt, -⟩ := List.getElem?_eq_some_iff.mp hj
  have hne : contributions ≠ [] := by
    rintro rfl
    cases hy
  obtain ⟨row, hrow, hentry⟩ := h j (Vector.length_columnFold hne hrows ▸ hlt)
  obtain ⟨z, hz, rfl⟩ := absorbs_add.columnFold hrows hrow hentry rfl
  rw [Option.some.inj (hj.symm.trans hz), neg_nan]

namespace SchemeKind

variable {kind : SchemeKind} {arguments : SchemeArguments (Extended K)} {s : Scheme (Extended K)}

theorem gain_of_nan (hnormalize : arguments.normalize.isOn = true)
    (hpoint : arguments.referencePoint = .leftOut) (hfits : kind.Fits arguments width)
    (hrows : ∀ row ∈ rows, row.length = width) (ha : a ∈ rows) (hb : b ∈ rows)
    (h : nan ∈ a ∨ nan ∈ b) : kind.gain arguments rows a b = nan := by
  cases kind with
  | epsilon => exact Scheme.shift_of_nan ((hrows a ha).trans (hrows b hb).symm) h
  | hypervolume =>
    obtain ⟨c, hc⟩ : ∃ c, arguments.rho.optional standardRho = some c := by
      have hrho : arguments.rho ≠ .nothing := by
        unfold Fits at hfits
        rw [hpoint] at hfits
        exact hfits hnormalize
      cases hrho' : arguments.rho with
      | nothing => exact absurd hrho' hrho
      | leftOut | given x => exact ⟨_, rfl⟩
    cases rows with
    | nil => cases ha
    | cons first rest =>
      have hlength : (List.replicate first.length c).length = width := by
        rw [List.length_replicate, hrows first List.mem_cons_self]
      have hgain := Scheme.gainBelow_of_nan (hlength.trans (hrows a ha).symm)
        (hlength.trans (hrows b hb).symm) h
      rw [gain, hnormalize, hpoint, hc]
      exact hgain

theorem assess_of_infinite (hbuild : kind.build arguments = .ok s)
    (hnormalize : arguments.normalize.isOn = true) (hpoint : arguments.referencePoint = .leftOut)
    (hfits : kind.Fits arguments width) (hrows : ∀ row ∈ rows, row.length = width)
    (hothers : 2 ≤ rows.length) (hrow : row ∈ rows)
    (hinfinite : ∃ x ∈ row, Scalar.isFinite x = false) :
    ∃ a scale, s.assess rows = .ok (a, scale) ∧ ∀ x ∈ a.fitness, x = nan := by
  have hne : rows ≠ [] := List.ne_nil_of_mem hrow
  let prepared := rows.map (s.scaled rows)
  have hprepared : ∀ r ∈ prepared, r.length = width :=
    List.forall_mem_map.mpr fun r hr => s.length_scaled hne hrows (hrows r hr)
  have hspoilt : nan ∈ s.scaled rows row := by
    rw [Scheme.scaled, (build_ok hbuild).2.1, if_pos hnormalize]
    exact Normalizer.scaleRow_of_infinite hrows hrow hinfinite
  rw [Scheme.assess_eq_measure?, measure?_eq hbuild hfits hne hrows]
  refine ⟨_, _, rfl, Assessment.fitness_of_nan (n := rows.length) ?_ fun j hj => ?_⟩
  · intro r hr
    obtain ⟨p, hp, rfl⟩ := List.mem_map.mp hr
    obtain ⟨x, -, hx⟩ := List.mem_map.mp (List.fst_mem_of_mem_zipIdx hp)
    rw [List.length_map, List.length_zipIdx, ← hx, List.length_map]
  · -- The member acts on every other, and some other acts on it.
    obtain ⟨place, hplace, rfl⟩ := List.mem_iff_getElem.mp hrow
    obtain ⟨i, hi, hij, hpair⟩ : ∃ i, ∃ hi : i < rows.length, i ≠ j ∧
        (nan ∈ s.scaled rows rows[i] ∨ nan ∈ s.scaled rows rows[j]) := by
      by_cases hsame : place = j
      · subst hsame
        by_cases hzero : place = 0
        · exact ⟨1, by omega, by omega, Or.inr hspoilt⟩
        · exact ⟨0, by omega, by omega, Or.inr hspoilt⟩
      · exact ⟨place, hplace, hsame, Or.inl hspoilt⟩
    have hmem : ∀ {k} (hk : k < rows.length), s.scaled rows rows[k] ∈ prepared := fun hk =>
      List.mem_map_of_mem (List.getElem_mem hk)
    have hgain := gain_of_nan hnormalize hpoint hfits hprepared (hmem hi) (hmem hj) hpair
    let gains x := rows.map fun y =>
      kind.gain arguments prepared (s.scaled rows x) (s.scaled rows y)
    have hgains : (rows.map gains)[i]? = some (gains rows[i]) := by
      rw [List.getElem?_map, List.getElem?_eq_getElem hi, Option.map_some]
    have hspoils : (gains rows[i])[j]? = some nan := by
      rw [List.getElem?_map, List.getElem?_eq_getElem hj, Option.map_some, hgain]
    obtain ⟨acts, hacts, hentry⟩ := s.contributions_of_nan (s.scaleOf _) hij hgains hspoils
    exact ⟨acts, List.mem_of_getElem? hacts, hentry⟩

end SchemeKind

end ParetoSearch
