import ParetoSearch.Proofs.Indicator.Frames

/-!
# Other units

Objectives can be measured in other units: each is multiplied by a positive factor of its own
and moved by an offset of its own.  No comparison of two vectors notices
(`Rescaling.dominates_row`), the bounds of a set of vectors change as its vectors do
(`Rescaling.columnFold_row`), and on the scale of these bounds nothing has changed.

The scale does not divide an objective that has no range in the set.  All vectors of the set
are at zero there in any unit (`Rescaling.scaleRow_row_of_mem`).  A vector from elsewhere is
not, and for it such an objective has to keep its unit (`Rescaling.scaleRow_row`).
-/

namespace ParetoSearch

variable {α : Type} [ExactScalar α]

/-- A factor and an offset for each objective. -/
structure Rescaling (α : Type) [ExactScalar α] where
  factor : Nat → α
  offset : Nat → α
  factor_pos : ∀ k, 0 < factor k

theorem Vector.columnFold_lesser_le {rows : List (List α)} {width : Nat}
    (hrows : ∀ row ∈ rows, row.length = width) :
    ∀ row ∈ rows, ∀ k, entries (columnFold Scalar.lesser rows) k ≤ entries row k :=
  entries_columnFold (R := (· ≥ ·)) (by rw [Scalar.lesser_eq_min, min_self]) le_refl
    (fun hxy hyz => hyz.trans hxy)
    (fun x y => Scalar.lesser_eq_min x y ▸ min_le_left x y)
    (fun x y => Scalar.lesser_eq_min x y ▸ min_le_right x y) hrows

namespace Rescaling

variable (u : Rescaling α)

/-- A value of an objective in the new unit. -/
def value (k : Nat) (x : α) : α := u.factor k * x + u.offset k

def row (a : List α) : List α := a.mapIdx u.value

theorem strictMono_value (k : Nat) : StrictMono (u.value k) := fun _ _ h =>
  add_lt_add_left (mul_lt_mul_of_pos_left h (u.factor_pos k)) _

theorem value_sub_value (k : Nat) (x y : α) :
    u.value k x - u.value k y = u.factor k * (x - y) := by
  unfold value
  ring

@[simp] theorem length_row (a : List α) : (u.row a).length = a.length := List.length_mapIdx

theorem entries_row {a : List α} {k : Nat} (hk : k < a.length) :
    entries (u.row a) k = u.value k (entries a k) := by
  rw [entries_of_lt (by simpa using hk), entries_of_lt hk]
  exact List.getElem_mapIdx

/-! ## Dominance -/

theorem entries_row_le_iff {a b : List α} (h : a.length = b.length) :
    entries (u.row a) ≤ entries (u.row b) ↔ entries a ≤ entries b := by
  refine forall_congr' fun k => ?_
  by_cases hk : k < a.length
  · rw [u.entries_row hk, u.entries_row (h ▸ hk), (u.strictMono_value k).le_iff_le]
  · rw [entries_of_le (by simpa using hk), entries_of_le (by simpa [← h] using hk),
      entries_of_le (not_lt.mp hk), entries_of_le (h ▸ not_lt.mp hk)]

theorem dominates_row {a b : List α} (h : a.length = b.length) :
    dominates (u.row a) (u.row b) = dominates a b := by
  rw [Bool.eq_iff_iff, dominates_iff_entries_lt (by simpa using h), dominates_iff_entries_lt h,
    lt_iff_le_not_ge, lt_iff_le_not_ge, u.entries_row_le_iff h, u.entries_row_le_iff h.symm]

theorem nondominated_map_row {rows : List (List α)} {width : Nat}
    (hrows : ∀ row ∈ rows, row.length = width) :
    nondominated (rows.map u.row) = (nondominated rows).map u.row := by
  rw [nondominated, List.filter_map]
  refine congrArg (List.map u.row) (List.filter_congr fun b hb => ?_)
  have hdominated : dominatedBy (rows.map u.row) (u.row b) = dominatedBy rows b := by
    have hsame : ∀ a ∈ rows, dominates (u.row a) (u.row b) = dominates a b := fun a ha =>
      u.dominates_row ((hrows a ha).trans (hrows b hb).symm)
    rw [Bool.eq_iff_iff, dominatedBy, dominatedBy, List.any_map, List.any_eq_true,
      List.any_eq_true]
    exact exists_congr fun a => and_congr_right fun ha => by rw [Function.comp_apply, hsame a ha]
  rw [Function.comp_apply, hdominated]

/-! ## Bounds -/

theorem zipWith_row {f : α → α → α}
    (hf : ∀ k x y, f (u.value k x) (u.value k y) = u.value k (f x y)) (a b : List α) :
    (u.row a).zipWith f (u.row b) = u.row (a.zipWith f b) :=
  List.ext_getElem (by simp) fun k hk hk' => by simp [row, hf]

theorem columnFold_row {f : α → α → α}
    (hf : ∀ k x y, f (u.value k x) (u.value k y) = u.value k (f x y)) (rows : List (List α)) :
    Vector.columnFold f (rows.map u.row) = u.row (Vector.columnFold f rows) := by
  cases rows with
  | nil => rfl
  | cons first rest =>
    rw [List.map_cons, Vector.columnFold, Vector.columnFold, List.foldl_map]
    exact List.foldl_hom u.row fun a b => u.zipWith_row hf a b

theorem lesser_value (k : Nat) (x y : α) :
    Scalar.lesser (u.value k x) (u.value k y) = u.value k (Scalar.lesser x y) := by
  rw [Scalar.lesser_eq_min, Scalar.lesser_eq_min, (u.strictMono_value k).monotone.map_min]

theorem greater_value (k : Nat) (x y : α) :
    Scalar.greater (u.value k x) (u.value k y) = u.value k (Scalar.greater x y) := by
  rw [Scalar.greater_eq_max, Scalar.greater_eq_max, (u.strictMono_value k).monotone.map_max]

/-! ## The scale of the bounds -/

theorem spanOf_value {k : Nat} {lower upper : α} (h : lower < upper ∨ u.factor k = 1) :
    Normalizer.spanOf (u.value k lower) (u.value k upper) =
      u.factor k * Normalizer.spanOf lower upper := by
  rw [Normalizer.spanOf, Normalizer.spanOf, value_sub_value]
  rcases h with h | h
  · have hrange : 0 < upper - lower := sub_pos.mpr h
    rw [if_pos hrange, if_pos (mul_pos (u.factor_pos k) hrange)]
  · rw [h, one_mul, one_mul]

section

variable {rows : List (List α)} {width : Nat} {a : List α}

/-- On the scale of a set a vector stays where it is, if every objective has a range in the
set, keeps its unit, or is at the bound in the vector too. -/
theorem scaleRow_row_of_forall (hne : rows ≠ []) (hrows : ∀ row ∈ rows, row.length = width)
    (ha : a.length = width)
    (h : ∀ k < width, (entries (Normalizer.ofRows rows).minimum k <
        entries (Vector.columnFold Scalar.greater rows) k ∨ u.factor k = 1) ∨
      entries a k = entries (Normalizer.ofRows rows).minimum k) :
    (Normalizer.ofRows (rows.map u.row)).scaleRow (u.row a) =
      (Normalizer.ofRows rows).scaleRow a := by
  have hne' : rows.map u.row ≠ [] := by simpa using hne
  have hrows' : ∀ row ∈ rows.map u.row, row.length = width := by simpa using hrows
  have ha' : (u.row a).length = width := by simpa using ha
  have hlower := Vector.length_columnFold (f := Scalar.lesser) hne hrows
  have hupper := Vector.length_columnFold (f := Scalar.greater) hne hrows
  have hlength := Normalizer.length_scaleRow hne' hrows' ha'
  have hlength' := Normalizer.length_scaleRow hne hrows ha
  refine (entries_inj (hlength.trans hlength'.symm)).mp (funext fun k => ?_)
  by_cases hk : k < width
  · have hminimum : entries (Normalizer.ofRows (rows.map u.row)).minimum k =
        u.value k (entries (Normalizer.ofRows rows).minimum k) := by
      rw [Normalizer.ofRows, u.columnFold_row u.lesser_value, u.entries_row (hlower ▸ hk)]
      rfl
    rw [Normalizer.entries_scaleRow hne' hrows' ha', Normalizer.entries_scaleRow hne hrows ha,
      Normalizer.entries_span hne' hrows' hk, Normalizer.entries_span hne hrows hk, hminimum,
      u.entries_row (ha ▸ hk), value_sub_value, u.columnFold_row u.greater_value,
      u.entries_row (hupper ▸ hk)]
    rcases h k hk with hspan | hbound
    · rw [u.spanOf_value hspan, mul_div_mul_left _ _ (u.factor_pos k).ne']
    · have hzero : entries a k - entries (Normalizer.ofRows rows).minimum k = 0 :=
        sub_eq_zero.mpr hbound
      rw [hzero, mul_zero, zero_div, zero_div]
  · rw [entries_of_le (hlength ▸ not_lt.mp hk), entries_of_le (hlength' ▸ not_lt.mp hk)]

theorem scaleRow_row_of_mem (hrows : ∀ row ∈ rows, row.length = width) (ha : a ∈ rows) :
    (Normalizer.ofRows (rows.map u.row)).scaleRow (u.row a) =
      (Normalizer.ofRows rows).scaleRow a := by
  refine u.scaleRow_row_of_forall (List.ne_nil_of_mem ha) hrows (hrows a ha) fun k _ => ?_
  have hlower := Vector.columnFold_lesser_le hrows a ha k
  have hupper := Vector.le_columnFold_greater hrows a ha k
  rcases lt_or_ge (entries (Vector.columnFold Scalar.lesser rows) k)
    (entries (Vector.columnFold Scalar.greater rows) k) with hlt | hle
  · exact Or.inl (Or.inl hlt)
  · exact Or.inr ((hupper.trans hle).antisymm hlower)

theorem scaleRow_row (hne : rows ≠ []) (hrows : ∀ row ∈ rows, row.length = width)
    (hkept : ∀ k < width, ∀ b ∈ rows, (∀ c ∈ rows, entries c k = entries b k) → u.factor k = 1)
    (ha : a.length = width) :
    (Normalizer.ofRows (rows.map u.row)).scaleRow (u.row a) =
      (Normalizer.ofRows rows).scaleRow a := by
  refine u.scaleRow_row_of_forall hne hrows ha fun k hk => Or.inl ?_
  refine or_iff_not_imp_left.mpr fun hflat => ?_
  -- Between bounds that meet there is one value only.
  have hbound : ∀ b ∈ rows, entries b k = entries (Vector.columnFold Scalar.lesser rows) k :=
    fun b hb => ((Vector.le_columnFold_greater hrows b hb k).trans (not_lt.mp hflat)).antisymm
      (Vector.columnFold_lesser_le hrows b hb k)
  obtain ⟨b, hb⟩ := List.exists_mem_of_ne_nil rows hne
  exact hkept k hk b hb fun c hc => (hbound c hc).trans (hbound b hb).symm

end

end Rescaling

theorem Normalizer.span_pos (rows : List (List α)) : ∀ x ∈ (ofRows rows).span, 0 < x := by
  intro x hx
  obtain ⟨k, hk, rfl⟩ := List.mem_iff_getElem.mp hx
  exact List.getElem_zipWith ▸ spanOf_pos _ _

end ParetoSearch
