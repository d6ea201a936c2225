import Mathlib.Algebra.Order.BigOperators.Ring.Finset
import Mathlib.Tactic.Linarith
import ParetoSearch.Proofs.Arithmetic.Extremes
import ParetoSearch.Proofs.Dominance
import ParetoSearch.Proofs.Fitness.Measure

/-!
# Gains and dominance

Both matrices on offer prefer what dominates.  Against every third row the gain over a
dominating row is at least as large as the gain over the row it dominates, and of the
two the dominating one gains less and loses more.

For volumes the first part is a fact about boxes: what a box adds to another one only
shrinks with the box.  Here a box is the product of its sides, and the fact is proved
of products, side by side.  In the second part the two may come to the same, where
neither box has a volume; a dominating row below the anchor has one.
-/

namespace ParetoSearch

variable {α : Type} [ExactScalar α]

/-! ## Shifts -/

namespace Scheme

section

variable {a b c : List α} {width : Nat}

theorem shift_spec (ha : a.length = width) (hb : b.length = width) (hpos : 0 < width) :
    (∃ k < width, shift a b = entries a k - entries b k) ∧
      ∀ k < width, entries a k - entries b k ≤ shift a b := by
  have hlength : (a.zipWith (· - ·) b).length = width := by
    rw [List.length_zipWith, ha, hb, min_self]
  have hentry : ∀ k (hk : k < (a.zipWith (· - ·) b).length),
      (a.zipWith (· - ·) b)[k] = entries a k - entries b k := by
    intro k hk
    rw [← entries_of_lt hk, entries_zipWith (sub_zero 0) (ha.trans hb.symm)]
  obtain ⟨g, hg, hgreatest, hall⟩ :=
    Scalar.greatest?_spec (List.ne_nil_of_length_pos (hlength ▸ hpos))
  rw [shift, hgreatest, Option.getD_some]
  constructor
  · obtain ⟨k, hk, rfl⟩ := List.mem_iff_getElem.mp hg
    exact ⟨k, hlength ▸ hk, hentry k hk⟩
  · intro k hk
    rw [← hlength] at hk
    rw [← hentry k hk]
    exact hall _ (List.getElem_mem hk)

theorem shift_le_shift (ha : a.length = width) (hb : b.length = width) (hc : c.length = width)
    (hpos : 0 < width) (hle : entries a ≤ entries b) : shift c b ≤ shift c a := by
  obtain ⟨k, hk, hshift⟩ := (shift_spec hc hb hpos).1
  calc shift c b = entries c k - entries b k := hshift
    _ ≤ entries c k - entries a k := sub_le_sub_left (hle k) _
    _ ≤ shift c a := (shift_spec hc ha hpos).2 k hk

theorem shift_lt_shift (ha : a.length = width) (hb : b.length = width)
    (hlt : entries a < entries b) : shift a b < shift b a := by
  obtain ⟨hle, k, hk⟩ := Pi.lt_def.mp hlt
  have hin : k < width := ha ▸ lt_length_of_entries_lt (ha.trans hb.symm) hk
  have hpos : 0 < width := Nat.zero_lt_of_lt hin
  obtain ⟨j, hj, hshift⟩ := (shift_spec ha hb hpos).1
  calc shift a b = entries a j - entries b j := hshift
    _ ≤ 0 := sub_nonpos.mpr (hle j)
    _ < entries b k - entries a k := sub_pos.mpr hk
    _ ≤ shift b a := (shift_spec hb ha hpos).2 k hin

end

/-! ## Boxes -/

/-- What a smaller box adds to another one is no more than what a larger box adds. -/
theorem prod_sub_prod_min_le {ι : Type} [DecidableEq ι] (sides : Finset ι)
    {small large other : ι → α}
    (hsmall : ∀ k, 0 ≤ small k) (hle : ∀ k, small k ≤ large k) (hother : ∀ k, 0 ≤ other k) :
    ∏ k ∈ sides, small k - ∏ k ∈ sides, min (other k) (small k) ≤
      ∏ k ∈ sides, large k - ∏ k ∈ sides, min (other k) (large k) := by
  induction sides using Finset.induction_on with
  | empty => simp
  | insert k sides hk ih =>
    have hlarge : ∏ k ∈ sides, small k ≤ ∏ k ∈ sides, large k :=
      Finset.prod_le_prod (fun j _ => hsmall j) fun j _ => hle j
    have hpositive : 0 ≤ ∏ k ∈ sides, small k := Finset.prod_nonneg fun j _ => hsmall j
    have hshared : ∏ k ∈ sides, min (other k) (small k) ≤ ∏ k ∈ sides, small k :=
      Finset.prod_le_prod (fun j _ => le_min (hother j) (hsmall j)) fun j _ => min_le_right _ _
    -- The new side is the part shared with the other box and the rest.
    have hpart : min (other k) (small k) ≤ min (other k) (large k) :=
      min_le_min_left _ (hle k)
    have hpartpos : 0 ≤ min (other k) (small k) := le_min (hother k) (hsmall k)
    have hrest : small k - min (other k) (small k) ≤ large k - min (other k) (large k) := by
      rcases le_total (other k) (small k) with h | h
      · rw [min_eq_left h, min_eq_left (h.trans (hle k))]
        exact sub_le_sub_right (hle k) _
      · rw [min_eq_right h, sub_self]
        exact sub_nonneg.mpr (min_le_right _ _)
    have hrestpos : 0 ≤ small k - min (other k) (small k) := sub_nonneg.mpr (min_le_right _ _)
    simp only [Finset.prod_insert hk]
    generalize ∏ k ∈ sides, small k = S at *
    generalize ∏ k ∈ sides, large k = L at *
    generalize ∏ k ∈ sides, min (other k) (small k) = s at *
    generalize ∏ k ∈ sides, min (other k) (large k) = l at *
    calc small k * S - min (other k) (small k) * s
        = min (other k) (small k) * (S - s) + (small k - min (other k) (small k)) * S := by ring
      _ ≤ min (other k) (large k) * (L - l) + (large k - min (other k) (large k)) * L := by
          refine add_le_add (mul_le_mul hpart ih (sub_nonneg.mpr hshared) (hpartpos.trans hpart)) ?_
          exact mul_le_mul hrest hlarge hpositive (hrestpos.trans hrest)
      _ = large k * L - min (other k) (large k) * l := by ring

/-- The side of a box at a place, none where the row lies beyond the point.  A single
entry serves all places. -/
def room (point row : List α) (k : Nat) : α :=
  max (entries point (if point.length = 1 then 0 else k) -
    entries row (if row.length = 1 then 0 else k)) 0

/-- How many sides a box has. -/
def sides (point row : List α) : Nat := if point.length = 1 then row.length else point.length

theorem pairUp_eq_range {point row : List α}
    (h : point.length = row.length ∨ point.length = 1 ∨ row.length = 1) :
    (Vector.pairUp point row : Except (Fault α) _) =
      .ok ((List.range (sides point row)).map fun k =>
        (entries point (if point.length = 1 then 0 else k),
          entries row (if row.length = 1 then 0 else k))) := by
  unfold Vector.pairUp sides
  by_cases heq : point.length = row.length
  · rw [if_pos heq, Except.ok.injEq]
    refine List.ext_getElem (by simp [heq]) fun k hk _ => ?_
    have hkrow : k < row.length := by simp only [List.length_zip] at hk; omega
    have hkpoint : k < point.length := heq ▸ hkrow
    by_cases hone : row.length = 1
    · obtain rfl : k = 0 := by omega
      simp [entries, hkrow, hkpoint]
    · simp [entries, hkrow, heq, hone]
  rw [if_neg heq]
  rcases h with h | h | h
  · exact absurd h heq
  · obtain ⟨x, rfl⟩ := List.length_eq_one_iff.mp h
    have hone : row.length ≠ 1 := fun hrow => heq (h.trans hrow.symm)
    simp only [Except.ok.injEq]
    refine List.ext_getElem (by simp) fun k hk _ => ?_
    have hkrow : k < row.length := by simpa using hk
    simp [entries, hone, hkrow]
  · obtain ⟨y, rfl⟩ := List.length_eq_one_iff.mp h
    have hone : point.length ≠ 1 := fun hpoint => heq (hpoint.trans h.symm)
    rcases point with _ | ⟨x, _ | ⟨x', point⟩⟩
    · rfl
    · exact absurd rfl hone
    · simp only [Except.ok.injEq]
      refine List.ext_getElem (by simp) fun k hk _ => ?_
      have hkpoint : k < (x :: x' :: point).length := by simpa using hk
      rw [List.getElem_map, List.getElem_map, List.getElem_range, if_neg hone,
        entries_of_lt hkpoint]
      rfl

theorem volume_eq_prod {point row : List α}
    (h : point.length = row.length ∨ point.length = 1 ∨ row.length = 1) :
    volume point row = ∏ k ∈ Finset.range (sides point row), room point row k := by
  have hbox : boxVolume point row =
      .ok (((List.range (sides point row)).map (room point row)).foldl (· * ·) 1) := by
    rw [boxVolume, pairUp_eq_range h, ok_bind, List.map_map]
    have hroom : (fun p : α × α => Scalar.greater (p.1 - p.2) 0) ∘ (fun k =>
        (entries point (if point.length = 1 then 0 else k),
          entries row (if row.length = 1 then 0 else k))) = room point row := by
      funext k
      exact Scalar.greater_eq_max _ _
    rw [hroom]
    rfl
  rw [volume, hbox, ← List.prod_eq_foldl]
  rfl

theorem room_nonneg (point row : List α) (k : Nat) : 0 ≤ room point row k := le_max_right _ _

section

variable {point a b c : List α} {width : Nat}

theorem room_le_room (ha : a.length = width) (hb : b.length = width)
    (hle : entries a ≤ entries b) (k : Nat) : room point b k ≤ room point a k := by
  rw [room, room, ha, hb]
  exact max_le_max_right _ (sub_le_sub_left (hle _) _)

/-- The box from the corner of two rows is what their boxes share. -/
theorem room_corner (ha : a.length = width) (hb : b.length = width) (k : Nat) :
    room point (a.zipWith Scalar.greater b) k = min (room point a k) (room point b k) := by
  have hcorner : (a.zipWith Scalar.greater b).length = width := by
    rw [List.length_zipWith, ha, hb, min_self]
  have hzero : Scalar.greater (0 : α) 0 = 0 := by rw [Scalar.greater_eq_max, max_self]
  rw [room, room, room, hcorner, ha, hb, entries_zipWith hzero (ha.trans hb.symm),
    Scalar.greater_eq_max, ← max_min_distrib_right, ← min_sub_sub_left]

/-- The box of a row that is nowhere better has no more volume. -/
theorem volume_le_volume (ha : a.length = width) (hb : b.length = width)
    (h : point.length = width ∨ point.length = 1 ∨ width = 1) (hle : entries a ≤ entries b) :
    volume point b ≤ volume point a := by
  have hsame : sides point b = sides point a := by rw [sides, sides, ha, hb]
  rw [volume_eq_prod (by rwa [hb]), volume_eq_prod (by rwa [ha]), hsame]
  exact Finset.prod_le_prod (fun k _ => room_nonneg point b k) fun k _ => room_le_room ha hb hle k

/-- The box of a dominated row has less volume than a box with all its sides. -/
theorem volume_lt_volume (ha : a.length = width) (hb : b.length = width)
    (h : point.length = width ∨ point.length = 1 ∨ width = 1)
    (hbelow : ∀ k < sides point a, 0 < room point a k) (hsides : 0 < width → 0 < sides point a)
    (hlt : entries a < entries b) : volume point b < volume point a := by
  have hsame : sides point b = sides point a := by rw [sides, sides, ha, hb]
  rw [volume_eq_prod (by rwa [hb]), volume_eq_prod (by rwa [ha]), hsame]
  by_cases habove : ∀ k < sides point a, 0 < room point b k
  · obtain ⟨hle, i, hi⟩ := Pi.lt_def.mp hlt
    have hin : i < width := ha ▸ lt_length_of_entries_lt (ha.trans hb.symm) hi
    -- The side at which the two differ; all sides are that one if a row has one entry.
    obtain ⟨k, hk, hplace⟩ : ∃ k < sides point a, (if width = 1 then 0 else k) = i := by
      by_cases hone : width = 1
      · exact ⟨0, hsides (by omega), by rw [if_pos hone]; omega⟩
      · refine ⟨i, ?_, if_neg hone⟩
        rw [sides, ha]
        split <;> omega
    refine Finset.prod_lt_prod (fun j hj => habove j (Finset.mem_range.mp hj))
      (fun j _ => room_le_room ha hb hle j) ⟨k, Finset.mem_range.mpr hk, ?_⟩
    have hbox := habove k hk
    rw [room, hb, hplace, lt_max_iff] at hbox
    have hroom := hbox.resolve_right (lt_irrefl 0)
    rw [room, room, ha, hb, hplace, max_eq_left hroom.le]
    exact lt_max_of_lt_left (sub_lt_sub_left hi _)
  · -- The dominated row lies beyond the point at one side, so its box is flat.
    simp only [not_forall, not_lt] at habove
    obtain ⟨k, hk, hflat⟩ := habove
    rw [Finset.prod_eq_zero (Finset.mem_range.mpr hk) (hflat.antisymm (room_nonneg point b k))]
    exact Finset.prod_pos fun j hj => hbelow j (Finset.mem_range.mp hj)

theorem overlap_eq_prod (ha : a.length = width) (hb : b.length = width)
    (h : point.length = width ∨ point.length = 1 ∨ width = 1) :
    volume point (a.zipWith Scalar.greater b) =
      ∏ k ∈ Finset.range (sides point b), min (room point a k) (room point b k) := by
  have hcorner : (a.zipWith Scalar.greater b).length = width := by
    rw [List.length_zipWith, ha, hb, min_self]
  have hsame : sides point (a.zipWith Scalar.greater b) = sides point b := by
    rw [sides, sides, hcorner, hb]
  rw [volume_eq_prod (by rwa [hcorner]), hsame]
  exact Finset.prod_congr rfl fun k _ => room_corner ha hb k

theorem gainBelow_of_dominates (h : dominates a b = true) :
    gainBelow point a b = volume point b - volume point a := by
  rw [gainBelow, volumeGain, if_pos h]

theorem gainBelow_of_not_dominates (h : ¬ dominates a b = true) :
    gainBelow point a b = volume point b - volume point (a.zipWith Scalar.greater b) := by
  rw [gainBelow, volumeGain, if_neg h]
  ring

theorem gainBelow_le_gainBelow (ha : a.length = width) (hb : b.length = width)
    (hc : c.length = width) (h : point.length = width ∨ point.length = 1 ∨ width = 1)
    (hlt : entries a < entries b) : gainBelow point c b ≤ gainBelow point c a := by
  have hvolume : ∀ row : List α, row.length = width →
      volume point row = ∏ k ∈ Finset.range (sides point row), room point row k :=
    fun row hrow => volume_eq_prod (by rwa [hrow])
  have hsidesb : sides point b = sides point a := by rw [sides, sides, ha, hb]
  have hshrink : volume point b ≤ volume point a := volume_le_volume ha hb h hlt.le
  by_cases hca : dominates c a = true
  · have hcb : dominates c b = true := by
      rw [dominates_iff_entries_lt (hc.trans hb.symm)]
      exact ((dominates_iff_entries_lt (hc.trans ha.symm)).mp hca).trans hlt
    rw [gainBelow_of_dominates hca, gainBelow_of_dominates hcb]
    exact sub_le_sub_right hshrink _
  · have hoverlap : volume point (c.zipWith Scalar.greater a) ≤ volume point a := by
      rw [overlap_eq_prod hc ha h, hvolume a ha]
      exact Finset.prod_le_prod
        (fun k _ => le_min (room_nonneg point c k) (room_nonneg point a k))
        fun k _ => min_le_right _ _
    rw [gainBelow_of_not_dominates hca]
    by_cases hcb : dominates c b = true
    · have hless : volume point b ≤ volume point c := volume_le_volume hc hb h
        ((dominates_iff_entries_lt (hc.trans hb.symm)).mp hcb).le
      rw [gainBelow_of_dominates hcb]
      exact (sub_nonpos.mpr hless).trans (sub_nonneg.mpr hoverlap)
    · rw [gainBelow_of_not_dominates hcb, overlap_eq_prod hc ha h, overlap_eq_prod hc hb h,
        hvolume a ha, hvolume b hb, hsidesb]
      exact prod_sub_prod_min_le _ (room_nonneg point b) (room_le_room ha hb hlt.le)
        (room_nonneg point c)

/-- Between a row and one that it dominates, what either gains over the other is the
difference of their volumes. -/
theorem gainBelow_mutual (ha : a.length = width) (hb : b.length = width)
    (h : point.length = width ∨ point.length = 1 ∨ width = 1) (hlt : entries a < entries b) :
    gainBelow point a b = volume point b - volume point a ∧
      gainBelow point b a = volume point a - volume point b := by
  have hab : dominates a b = true := (dominates_iff_entries_lt (ha.trans hb.symm)).mpr hlt
  have hba : ¬ dominates b a = true := fun hba =>
    ((dominates_iff_entries_lt (hb.trans ha.symm)).mp hba).asymm hlt
  have hinside : volume point (b.zipWith Scalar.greater a) = volume point b := by
    have hsame : sides point b = sides point a := by rw [sides, sides, ha, hb]
    rw [overlap_eq_prod hb ha h, volume_eq_prod (by rwa [hb]), hsame]
    exact Finset.prod_congr rfl fun k _ => min_eq_left (room_le_room ha hb hlt.le k)
  rw [gainBelow_of_dominates hab, gainBelow_of_not_dominates hba, hinside]
  exact ⟨rfl, rfl⟩

theorem gainBelow_le_swap (ha : a.length = width) (hb : b.length = width)
    (h : point.length = width ∨ point.length = 1 ∨ width = 1) (hlt : entries a < entries b) :
    gainBelow point a b ≤ gainBelow point b a := by
  obtain ⟨hab, hba⟩ := gainBelow_mutual ha hb h hlt
  have hvolume := volume_le_volume ha hb h hlt.le
  rw [hab, hba]
  linarith

theorem gainBelow_lt_swap (ha : a.length = width) (hb : b.length = width)
    (h : point.length = width ∨ point.length = 1 ∨ width = 1)
    (hbelow : ∀ k < sides point a, 0 < room point a k) (hsides : 0 < width → 0 < sides point a)
    (hlt : entries a < entries b) : gainBelow point a b < gainBelow point b a := by
  obtain ⟨hab, hba⟩ := gainBelow_mutual ha hb h hlt
  have hvolume := volume_lt_volume ha hb h hbelow hsides hlt
  rw [hab, hba]
  linarith

end

end Scheme

/-! ## On the scale of a population -/

namespace Vector

/-- An extreme over columns lies on one side of every row. -/
theorem entries_columnFold {f : α → α → α} {R : α → α → Prop} (hf : f 0 0 = 0)
    (hrefl : ∀ x, R x x) (htrans : ∀ {x y z}, R x y → R y z → R x z)
    (hleft : ∀ x y, R x (f x y)) (hright : ∀ x y, R y (f x y)) {rows : List (List α)}
    {width : Nat} (hrows : ∀ row ∈ rows, row.length = width) :
    ∀ row ∈ rows, ∀ k, R (entries row k) (entries (columnFold f rows) k) := by
  cases rows with
  | nil => simp
  | cons first rest =>
    rw [columnFold]
    induction rest generalizing first with
    | nil => simpa using fun k => hrefl (entries first k)
    | cons next rest ih =>
      simp only [List.forall_mem_cons] at hrows
      obtain ⟨hfirst, hnext, hrest⟩ := hrows
      have hlength : (first.zipWith f next).length = width := by
        rw [List.length_zipWith, hfirst, hnext, min_self]
      have hall := ih (first.zipWith f next) (List.forall_mem_cons.mpr ⟨hlength, hrest⟩)
      rw [List.forall_mem_cons] at hall
      obtain ⟨hfold, hrows⟩ := hall
      have hentry : ∀ k, entries (first.zipWith f next) k = f (entries first k) (entries next k) :=
        entries_zipWith hf (hfirst.trans hnext.symm)
      simp only [hentry] at hfold
      rw [List.forall_mem_cons, List.forall_mem_cons]
      exact ⟨fun k => htrans (hleft _ _) (hfold k), fun k => htrans (hright _ _) (hfold k), hrows⟩

theorem le_columnFold_greater {rows : List (List α)} {width : Nat}
    (hrows : ∀ row ∈ rows, row.length = width) :
    ∀ row ∈ rows, ∀ k, entries row k ≤ entries (columnFold Scalar.greater rows) k :=
  entries_columnFold (R := (· ≤ ·)) (by rw [Scalar.greater_eq_max, max_self]) le_refl le_trans
    (fun x y => Scalar.greater_eq_max x y ▸ le_max_left x y)
    (fun x y => Scalar.greater_eq_max x y ▸ le_max_right x y) hrows

end Vector

theorem Normalizer.spanOf_pos (lower upper : α) : 0 < spanOf lower upper := by
  unfold spanOf
  split
  · assumption
  · exact one_pos

theorem Normalizer.sub_le_spanOf (lower upper : α) : upper - lower ≤ spanOf lower upper := by
  unfold spanOf
  split
  · exact le_refl _
  · exact (not_lt.mp ‹_›).trans zero_le_one

namespace Normalizer

variable {rows : List (List α)} {width : Nat}

theorem length_ofRows (hne : rows ≠ []) (hrows : ∀ row ∈ rows, row.length = width) :
    (ofRows rows).minimum.length = width ∧ (ofRows rows).span.length = width := by
  have hlower := Vector.length_columnFold (f := Scalar.lesser) hne hrows
  have hupper := Vector.length_columnFold (f := Scalar.greater) hne hrows
  refine ⟨hlower, ?_⟩
  rw [ofRows, List.length_zipWith, hlower, hupper, min_self]

theorem entries_scaleRow (hne : rows ≠ []) (hrows : ∀ row ∈ rows, row.length = width)
    {row : List α} (hrow : row.length = width) (k : Nat) :
    entries ((ofRows rows).scaleRow row) k =
      (entries row k - entries (ofRows rows).minimum k) / entries (ofRows rows).span k := by
  obtain ⟨hminimum, hspan⟩ := length_ofRows hne hrows
  have hshift : (row.zipWith (· - ·) (ofRows rows).minimum).length = width := by
    rw [List.length_zipWith, hrow, hminimum, min_self]
  rw [scaleRow, entries_zipWith (zero_div 0) (hshift.trans hspan.symm),
    entries_zipWith (sub_zero 0) (hrow.trans hminimum.symm)]

theorem entries_span (hne : rows ≠ []) (hrows : ∀ row ∈ rows, row.length = width) {k : Nat}
    (hk : k < width) : entries (ofRows rows).span k = spanOf (entries (ofRows rows).minimum k)
      (entries (Vector.columnFold Scalar.greater rows) k) := by
  obtain ⟨hminimum, hspan⟩ := length_ofRows hne hrows
  have hupper := Vector.length_columnFold (f := Scalar.greater) hne hrows
  rw [entries_of_lt (hspan ▸ hk), entries_of_lt (hminimum ▸ hk), entries_of_lt (hupper ▸ hk)]
  exact List.getElem_zipWith

/-- No objective of the population lies beyond one on its scale. -/
theorem entries_scaleRow_le (hne : rows ≠ []) (hrows : ∀ row ∈ rows, row.length = width)
    {row : List α} (hmem : row ∈ rows) (k : Nat) :
    entries ((ofRows rows).scaleRow row) k ≤ 1 := by
  rw [entries_scaleRow hne hrows (hrows row hmem)]
  by_cases hk : k < width
  · rw [entries_span hne hrows hk, div_le_one (spanOf_pos _ _)]
    exact (sub_le_sub_right (Vector.le_columnFold_greater hrows row hmem k) _).trans
      (sub_le_spanOf _ _)
  · have hspan : entries (ofRows rows).span k = 0 :=
      entries_of_le ((length_ofRows hne hrows).2 ▸ not_lt.mp hk)
    rw [hspan, div_zero]
    exact zero_le_one

theorem entries_scaleRow_lt (hne : rows ≠ []) (hrows : ∀ row ∈ rows, row.length = width)
    {a b : List α} (ha : a.length = width) (hb : b.length = width)
    (hlt : entries a < entries b) :
    entries ((ofRows rows).scaleRow a) < entries ((ofRows rows).scaleRow b) := by
  obtain ⟨hle, i, hi⟩ := Pi.lt_def.mp hlt
  have hin : i < width := ha ▸ lt_length_of_entries_lt (ha.trans hb.symm) hi
  refine Pi.lt_def.mpr ⟨fun k => ?_, i, ?_⟩
  · rw [entries_scaleRow hne hrows ha, entries_scaleRow hne hrows hb]
    refine div_le_div_of_nonneg_right (sub_le_sub_right (hle k) _) ?_
    by_cases hk : k < width
    · rw [entries_span hne hrows hk]
      exact (spanOf_pos _ _).le
    · rw [entries_of_le ((length_ofRows hne hrows).2 ▸ not_lt.mp hk)]
  · rw [entries_scaleRow hne hrows ha, entries_scaleRow hne hrows hb, entries_span hne hrows hin]
    exact div_lt_div_of_pos_right (sub_lt_sub_right hi _) (spanOf_pos _ _)

end Normalizer

theorem Scheme.scaled_lt (s : Scheme α) {rows : List (List α)} {width : Nat} (hne : rows ≠ [])
    (hrows : ∀ row ∈ rows, row.length = width) {a b : List α} (ha : a.length = width)
    (hb : b.length = width) (hlt : entries a < entries b) :
    entries (s.scaled rows a) < entries (s.scaled rows b) := by
  unfold scaled
  split
  · exact Normalizer.entries_scaleRow_lt hne hrows ha hb hlt
  · exact hlt

/-! ## Anchors above a population -/

/-- Where the anchor meets the rows, it lies above every objective. -/
def Scheme.Anchor.Above (anchor : Scheme.Anchor α) (rows : List (List α)) : Prop :=
  ∀ point, anchor.resolve rows = .ok point → ∀ row ∈ rows, ∀ pairs,
    (Vector.pairUp point row : Except (Fault α) _) = .ok pairs →
      (∀ p ∈ pairs, p.2 < p.1) ∧ (pairs = [] → row = [])

/-- What a matrix asks of prepared objectives for what is dominated to lose: volumes
ask for an anchor above them. -/
def SchemeKind.Overlooks (kind : SchemeKind) (a : SchemeArguments α) (rows : List (List α)) :
    Prop :=
  match kind with
  | .epsilon => True
  | .hypervolume => (Scheme.anchorOf a.normalize.isOn (a.rho.optional standardRho)
      (a.referencePoint.value?.map Tensor.entries)).Above rows

/-- What a matrix asks of one prepared row for what it dominates to lose: volumes ask
that the row lies below the anchor. -/
def SchemeKind.Clears (kind : SchemeKind) (a : SchemeArguments α) (rows : List (List α))
    (row : List α) : Prop :=
  match kind with
  | .epsilon => True
  | .hypervolume => ∀ point, (Scheme.anchorOf a.normalize.isOn (a.rho.optional standardRho)
      (a.referencePoint.value?.map Tensor.entries)).resolve rows = .ok point →
        ∀ pairs, (Vector.pairUp point row : Except (Fault α) _) = .ok pairs →
          (∀ p ∈ pairs, p.2 < p.1) ∧ (pairs = [] → row = [])

theorem SchemeKind.Overlooks.clears {kind : SchemeKind} {a : SchemeArguments α}
    {rows : List (List α)} (h : kind.Overlooks a rows) {row : List α} (hrow : row ∈ rows) :
    kind.Clears a rows row := by
  cases kind with
  | epsilon => exact trivial
  | hypervolume => exact fun point hpoint => h point hpoint row hrow

namespace Scheme

variable {point row : List α} {rows : List (List α)} {width : Nat}

theorem pairs_above (hlength : point.length = width) (hrow : row.length = width)
    (habove : ∀ k < width, entries row k < entries point k) {pairs : List (α × α)}
    (hpairs : (Vector.pairUp point row : Except (Fault α) _) = .ok pairs) :
    (∀ p ∈ pairs, p.2 < p.1) ∧ (pairs = [] → row = []) := by
  rw [Vector.pairUp_of_length_eq (hlength.trans hrow.symm), Except.ok.injEq] at hpairs
  subst hpairs
  constructor
  · intro p hp
    obtain ⟨k, hk, rfl⟩ := List.mem_iff_getElem.mp hp
    have hkrow : k < row.length := by simp only [List.length_zip] at hk; omega
    have hkpoint : k < point.length := by simp only [List.length_zip] at hk; omega
    have hlt := habove k (hrow ▸ hkrow)
    rw [entries_of_lt hkrow, entries_of_lt hkpoint] at hlt
    simpa using hlt
  · intro hempty
    have hzero := congrArg List.length hempty
    rw [List.length_zip, hlength, hrow, min_self, List.length_nil] at hzero
    exact List.length_eq_zero_iff.mp (hrow.trans hzero)

theorem beyondWorst_above (hrows : ∀ row ∈ rows, row.length = width) :
    Anchor.beyondWorst.Above rows := by
  intro point hpoint row hrow pairs hpairs
  have hne : rows ≠ [] := List.ne_nil_of_mem hrow
  have hempty : rows.isEmpty = false := by simpa using hne
  have hupper := Vector.length_columnFold (f := Scalar.greater) hne hrows
  rw [Anchor.resolve, hempty] at hpoint
  obtain rfl := Except.ok.inj hpoint
  refine pairs_above (by rw [List.length_map, hupper]) (hrows row hrow) (fun k hk => ?_) hpairs
  have hkupper : k < (Vector.columnFold Scalar.greater rows).length := hupper ▸ hk
  have hbeyond : entries ((Vector.columnFold Scalar.greater rows).map (· + 1)) k =
      entries (Vector.columnFold Scalar.greater rows) k + 1 := by
    simp [entries, hkupper]
  rw [hbeyond]
  exact lt_add_of_le_of_pos (Vector.le_columnFold_greater hrows row hrow k) one_pos

theorem uniform_above (hrows : ∀ row ∈ rows, row.length = width) {c : α}
    (hc : ∀ row ∈ rows, ∀ k, entries row k < c) : (Anchor.uniform (some c)).Above rows := by
  intro point hpoint row hrow pairs hpairs
  obtain ⟨first, rest, rfl⟩ := List.exists_cons_of_ne_nil (List.ne_nil_of_mem hrow)
  obtain rfl := Except.ok.inj hpoint
  have hlength : (List.replicate ((first :: rest).headD []).length c).length = width := by
    rw [List.length_replicate]
    exact hrows first List.mem_cons_self
  refine pairs_above hlength (hrows row hrow) (fun k hk => ?_) hpairs
  have hcoordinate : entries (List.replicate ((first :: rest).headD []).length c) k = c := by
    rw [entries_of_lt (hlength.symm ▸ hk), List.getElem_replicate]
  rw [hcoordinate]
  exact hc row hrow k

end Scheme

/-- By default the anchor lies above the population. -/
theorem SchemeKind.overlooks_of_default {kind : SchemeKind} {a : SchemeArguments α} {s : Scheme α}
    (hbuild : kind.build a = .ok s) (hrho : a.rho = .leftOut)
    (hpoint : a.referencePoint = .leftOut) {rows prepared : List (List α)} {width : Nat}
    (hrows : ∀ row ∈ rows, row.length = width) (hprepare : s.prepare rows = .ok prepared) :
    kind.Overlooks a prepared := by
  cases kind with
  | epsilon => exact trivial
  | hypervolume =>
    have hnormalize := (build_ok hbuild).2.1
    rw [Overlooks, hrho, hpoint]
    by_cases hon : a.normalize.isOn = true
    · rw [hon]
      have hne : rows ≠ [] := by
        rintro rfl
        rw [Scheme.prepare, hnormalize, if_pos hon] at hprepare
        cases hprepare
      rw [s.prepare_eq hne, Except.ok.injEq] at hprepare
      subst hprepare
      have hscaled : ∀ row ∈ rows.map (s.scaled rows), row.length = width := by
        rw [List.forall_mem_map]
        exact fun row hrow => s.length_scaled hne hrows (hrows row hrow)
      refine Scheme.uniform_above hscaled ?_
      rw [List.forall_mem_map]
      intro row hrow k
      rw [Scheme.scaled, hnormalize, if_pos hon]
      refine (Normalizer.entries_scaleRow_le hne hrows hrow k).trans_lt ?_
      rw [standardRho, Scalar.two, Nat.cast_ofNat]
      exact one_lt_two
    · rw [Scheme.prepare, hnormalize, if_neg hon, Except.ok.injEq] at hprepare
      subst hprepare
      rw [Bool.not_eq_true] at hon
      rw [hon]
      exact Scheme.beyondWorst_above hrows

/-! ## What dominance does to gains -/

namespace SchemeKind

variable {kind : SchemeKind} {arguments : SchemeArguments α} {rows : List (List α)} {width : Nat}
  {a b c : List α}

theorem gain_le_gain (hfits : kind.Fits arguments width) (hne : rows ≠ [])
    (hrows : ∀ row ∈ rows, row.length = width) (ha : a ∈ rows) (hb : b ∈ rows) (hc : c ∈ rows)
    (hlt : entries a < entries b) :
    kind.gain arguments rows c b ≤ kind.gain arguments rows c a := by
  cases kind with
  | epsilon =>
    exact Scheme.shift_le_shift (hrows a ha) (hrows b hb) (hrows c hc) hfits hlt.le
  | hypervolume =>
    obtain ⟨point, hpoint, hlength⟩ := Scheme.Anchor.resolve_ok (anchor_meets hfits) hne hrows
    rw [gain, hpoint]
    exact Scheme.gainBelow_le_gainBelow (hrows a ha) (hrows b hb) (hrows c hc) hlength hlt

theorem gain_le_swap (hfits : kind.Fits arguments width) (hne : rows ≠ [])
    (hrows : ∀ row ∈ rows, row.length = width) (ha : a ∈ rows) (hb : b ∈ rows)
    (hlt : entries a < entries b) :
    kind.gain arguments rows a b ≤ kind.gain arguments rows b a := by
  cases kind with
  | epsilon => exact (Scheme.shift_lt_shift (hrows a ha) (hrows b hb) hlt).le
  | hypervolume =>
    obtain ⟨point, hpoint, hlength⟩ := Scheme.Anchor.resolve_ok (anchor_meets hfits) hne hrows
    rw [gain, hpoint]
    exact Scheme.gainBelow_le_swap (hrows a ha) (hrows b hb) hlength hlt

theorem gain_lt_swap (hfits : kind.Fits arguments width) (hne : rows ≠ [])
    (hrows : ∀ row ∈ rows, row.length = width) (hclears : kind.Clears arguments rows a)
    (ha : a ∈ rows) (hb : b ∈ rows) (hlt : entries a < entries b) :
    kind.gain arguments rows a b < kind.gain arguments rows b a := by
  cases kind with
  | epsilon => exact Scheme.shift_lt_shift (hrows a ha) (hrows b hb) hlt
  | hypervolume =>
    obtain ⟨point, hpoint, hlength⟩ := Scheme.Anchor.resolve_ok (anchor_meets hfits) hne hrows
    have hmeets : point.length = a.length ∨ point.length = 1 ∨ a.length = 1 := by
      rwa [hrows a ha]
    obtain ⟨hpairs, hempty⟩ := hclears point hpoint _ (Scheme.pairUp_eq_range hmeets)
    have hroom : ∀ k < Scheme.sides point a, 0 < Scheme.room point a k := fun k hk =>
      lt_max_of_lt_left (sub_pos.mpr (hpairs _
        (List.mem_map_of_mem (List.mem_range.mpr hk))))
    have hsides : 0 < width → 0 < Scheme.sides point a := by
      intro hpos
      by_contra hzero
      have hnone : Scheme.sides point a = 0 := by omega
      have hrow : a = [] := hempty (by rw [hnone]; rfl)
      rw [← hrows a ha, hrow] at hpos
      exact lt_irrefl 0 hpos
    rw [gain, hpoint]
    exact Scheme.gainBelow_lt_swap (hrows a ha) (hrows b hb) hlength hroom hsides hlt

end SchemeKind

theorem Scheme.scaleOf_pos (s : Scheme α) (matrix : List (List α)) : 0 < s.scaleOf matrix := by
  unfold scaleOf
  split
  · split
    · split
      · assumption
      · exact one_pos
    · exact one_pos
  · exact one_pos

/-! ## What dominance does to fitness -/

/-- The first place suffers no more than the second from any among the first `n`, and
no more than the second from each other. -/
structure Favours (effect : Nat → Nat → α) (n i j : Nat) : Prop where
  suffers_le : ∀ k < n, effect k i ≤ effect k j
  mutual_le : effect j i ≤ effect i j

/-- The first place suffers no more than the second from any among the first `n`, and
less than the second from each other. -/
structure Prefers (effect : Nat → Nat → α) (n i j : Nat) : Prop where
  suffers_le : ∀ k < n, effect k i ≤ effect k j
  mutual_lt : effect j i < effect i j

section

variable {effect : Nat → Nat → α} {n i j : Nat} {places : List Nat}

/-- What the others do to the two places. -/
theorem sum_others_le (hsuffers : ∀ k < n, effect k i ≤ effect k j)
    (hplaces : ∀ k ∈ places, k < n) :
    (((places.erase i).erase j).map (effect · i)).sum ≤
      (((places.erase i).erase j).map (effect · j)).sum := by
  refine List.sum_le_sum fun k hk => ?_
  exact hsuffers k (hplaces k (List.mem_of_mem_erase (List.mem_of_mem_erase hk)))

theorem Favours.standing_le (h : Favours effect n i j) (hnodup : places.Nodup)
    (hplaces : ∀ k ∈ places, k < n) (hi : i ∈ places) (hj : j ∈ places) :
    standing effect places j ≤ standing effect places i := by
  rcases eq_or_ne i j with rfl | hij
  · exact le_refl _
  rw [standing_of_mem effect hnodup hij.symm hj, standing_of_mem effect hnodup hij hi,
    List.erase_comm, neg_le_neg_iff]
  exact add_le_add h.mutual_le (sum_others_le h.suffers_le hplaces)

theorem Prefers.standing_lt (h : Prefers effect n i j) (hnodup : places.Nodup)
    (hplaces : ∀ k ∈ places, k < n) (hi : i ∈ places) (hj : j ∈ places) :
    standing effect places j < standing effect places i := by
  have hij : i ≠ j := by
    rintro rfl
    exact lt_irrefl _ h.mutual_lt
  rw [standing_of_mem effect hnodup hij.symm hj, standing_of_mem effect hnodup hij hi,
    List.erase_comm, neg_lt_neg_iff]
  exact add_lt_add_of_lt_of_le h.mutual_lt (sum_others_le h.suffers_le hplaces)

end

namespace SchemeKind

variable {kind : SchemeKind} {arguments : SchemeArguments α} {s : Scheme α} {width : Nat}
  {rows : List (List α)}

/-- The gain of one row over another on the scale of their population. -/
def scaledGain (kind : SchemeKind) (arguments : SchemeArguments α) (s : Scheme α)
    (rows : List (List α)) (a b : List α) : α :=
  kind.gain arguments (rows.map (s.scaled rows)) (s.scaled rows a) (s.scaled rows b)

/-- Every row gains at least as much over the better of two rows, and of the two the
worse one gains at least as much. -/
theorem scaledGain_of_dominates (hfits : kind.Fits arguments width)
    (hrows : ∀ row ∈ rows, row.length = width) {a b : List α} (ha : a ∈ rows) (hb : b ∈ rows)
    (hdominates : dominates a b = true) :
    (∀ c ∈ rows, kind.scaledGain arguments s rows c b ≤ kind.scaledGain arguments s rows c a) ∧
      kind.scaledGain arguments s rows a b ≤ kind.scaledGain arguments s rows b a ∧
      (kind.Clears arguments (rows.map (s.scaled rows)) (s.scaled rows a) →
        kind.scaledGain arguments s rows a b < kind.scaledGain arguments s rows b a) := by
  have hne : rows ≠ [] := List.ne_nil_of_mem ha
  have hprepared : ∀ row ∈ rows.map (s.scaled rows), row.length = width := by
    rw [List.forall_mem_map]
    exact fun row hrow => s.length_scaled hne hrows (hrows row hrow)
  have hmap : rows.map (s.scaled rows) ≠ [] := by simpa using hne
  have hscaled : ∀ row ∈ rows, s.scaled rows row ∈ rows.map (s.scaled rows) :=
    fun row hrow => List.mem_map_of_mem hrow
  have hlt : entries (s.scaled rows a) < entries (s.scaled rows b) :=
    s.scaled_lt hne hrows (hrows a ha) (hrows b hb)
      ((dominates_iff_entries_lt ((hrows a ha).trans (hrows b hb).symm)).mp hdominates)
  refine ⟨fun c hc => ?_, ?_, fun hclears => ?_⟩
  · exact gain_le_gain hfits hmap hprepared (hscaled a ha) (hscaled b hb) (hscaled c hc) hlt
  · exact gain_le_swap hfits hmap hprepared (hscaled a ha) (hscaled b hb) hlt
  · exact gain_lt_swap hfits hmap hprepared hclears (hscaled a ha) (hscaled b hb) hlt

variable {members : List Ref} {objectives : Ref → List α} {matrix : List (List α)}

/-- What one member does to another falls as its gain over it grows. -/
theorem effect_eq (hbuild : kind.build arguments = .ok s) (hfits : kind.Fits arguments width)
    (hwidth : ∀ r ∈ members, (objectives r).length = width)
    (hmatrix : s.measure? (members.map objectives) = .ok matrix) {k l : Nat}
    (hk : k < members.length) (hl : l < members.length) :
    s.effect matrix k l = Scalar.exp (-kind.scaledGain arguments s (members.map objectives)
      (objectives (atPlace members k)) (objectives (atPlace members l)) /
        (s.scaleOf matrix * s.kappa)) := by
  have hrows : ∀ row ∈ members.map objectives, row.length = width := by
    rw [List.forall_mem_map]
    exact hwidth
  have hne : members.map objectives ≠ [] :=
    List.ne_nil_of_mem (List.mem_map_of_mem (atPlace_mem hk))
  have hentry : (matrix.getD k []).getD l 0 =
      kind.scaledGain arguments s (members.map objectives)
        (objectives (atPlace members k)) (objectives (atPlace members l)) := by
    rw [measure?_eq hbuild hfits hne hrows, Except.ok.injEq] at hmatrix
    rw [← hmatrix]
    exact getD_table (kind.scaledGain arguments s (members.map objectives)) members objectives
      hk hl
  rw [Scheme.effect, hentry]

/-- A member is worth at least as much as every member that it dominates, and more if it
lies below the anchor. -/
theorem favours_of_dominates (hbuild : kind.build arguments = .ok s)
    (hexp : StrictMono (Scalar.exp : α → α)) (hfits : kind.Fits arguments width)
    (hwidth : ∀ r ∈ members, (objectives r).length = width)
    (hmatrix : s.measure? (members.map objectives) = .ok matrix)
    {i j : Nat} (hi : i < members.length) (hj : j < members.length)
    (hdominates : dominates (objectives (atPlace members i)) (objectives (atPlace members j)) =
      true) :
    Favours (s.effect matrix) members.length i j ∧
      (kind.Clears arguments ((members.map objectives).map (s.scaled (members.map objectives)))
        (s.scaled (members.map objectives) (objectives (atPlace members i))) →
          Prefers (s.effect matrix) members.length i j) := by
  have hrows : ∀ row ∈ members.map objectives, row.length = width := by
    rw [List.forall_mem_map]
    exact hwidth
  have hat : ∀ {k}, k < members.length →
      objectives (atPlace members k) ∈ members.map objectives := fun hk =>
    List.mem_map_of_mem (atPlace_mem hk)
  obtain ⟨hothers, hle, hlt⟩ :=
    scaledGain_of_dominates (s := s) hfits hrows (hat hi) (hat hj) hdominates
  have hpressure : 0 < s.scaleOf matrix * s.kappa :=
    mul_pos (s.scaleOf_pos matrix) (not_le.mp (build_ok hbuild).2.2)
  have heffect : ∀ {k l}, k < members.length → l < members.length →
      s.effect matrix k l = _ := effect_eq hbuild hfits hwidth hmatrix
  have hsuffers : ∀ k < members.length, s.effect matrix k i ≤ s.effect matrix k j := by
    intro k hk
    rw [heffect hk hi, heffect hk hj]
    exact hexp.monotone (div_le_div_of_nonneg_right (neg_le_neg (hothers _ (hat hk)))
      hpressure.le)
  refine ⟨⟨hsuffers, ?_⟩, fun hclears => ⟨hsuffers, ?_⟩⟩
  · rw [heffect hj hi, heffect hi hj]
    exact hexp.monotone (div_le_div_of_nonneg_right (neg_le_neg hle) hpressure.le)
  · rw [heffect hj hi, heffect hi hj]
    exact hexp (div_lt_div_of_pos_right (neg_lt_neg (hlt hclears)) hpressure)

/-- A member is preferred to every member that it dominates. -/
theorem prefers_of_dominates (hbuild : kind.build arguments = .ok s)
    (hexp : StrictMono (Scalar.exp : α → α)) (hfits : kind.Fits arguments width)
    (hwidth : ∀ r ∈ members, (objectives r).length = width)
    (habove : ∀ prepared, s.prepare (members.map objectives) = .ok prepared →
      kind.Overlooks arguments prepared)
    (hmatrix : s.measure? (members.map objectives) = .ok matrix)
    {i j : Nat} (hi : i < members.length) (hj : j < members.length)
    (hdominates : dominates (objectives (atPlace members i)) (objectives (atPlace members j)) =
      true) : Prefers (s.effect matrix) members.length i j := by
  have hat : objectives (atPlace members i) ∈ members.map objectives :=
    List.mem_map_of_mem (atPlace_mem hi)
  have hover := habove _ (s.prepare_eq (List.ne_nil_of_mem hat))
  exact (favours_of_dominates hbuild hexp hfits hwidth hmatrix hi hj hdominates).2
    (hover.clears (List.mem_map_of_mem hat))

end SchemeKind
end ParetoSearch
