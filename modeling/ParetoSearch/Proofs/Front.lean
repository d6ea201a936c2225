import Mathlib.Data.List.Basic
import Mathlib.Data.List.Induction
import Mathlib.Order.Basic

/-!
# Fronts of a list

The front of a list by merits in a partial order: the entries that no entry lies
strictly below, and of those with one merit the first.  A list may be read from the
front to the back with only the front so far in hand.  An entry above an earlier one
changes nothing (`frontBy_concat_of_le`), and any other one takes the place of those
above it (`frontBy_concat_of_not_le`).
-/

namespace ParetoSearch

variable {ι κ μ : Type}

/-- Of several entries with the same key the first. -/
def firstsBy [DecidableEq κ] (key : ι → κ) (xs : List ι) : List ι :=
  xs.foldl (fun kept x => if key x ∈ kept.map key then kept else kept ++ [x]) []

section

variable [DecidableEq κ] (key : ι → κ)

theorem firstsBy_concat (xs : List ι) (x : ι) :
    firstsBy key (xs ++ [x]) =
      if key x ∈ (firstsBy key xs).map key then firstsBy key xs else firstsBy key xs ++ [x] := by
  rw [firstsBy, List.foldl_append]
  rfl

theorem mem_map_firstsBy (xs : List ι) (k : κ) :
    k ∈ (firstsBy key xs).map key ↔ k ∈ xs.map key := by
  induction xs using List.reverseRecOn with
  | nil => rfl
  | append_singleton xs x ih =>
    rw [firstsBy_concat, List.map_append, List.mem_append, ← ih, List.map_singleton,
      List.mem_singleton]
    split
    case isTrue hx => exact ⟨Or.inl, fun h => h.elim id fun hk => hk ▸ hx⟩
    case isFalse => rw [List.map_append, List.mem_append, List.map_singleton, List.mem_singleton]

theorem firstsBy_subset (xs : List ι) : firstsBy key xs ⊆ xs := by
  induction xs using List.reverseRecOn with
  | nil => exact List.Subset.refl _
  | append_singleton xs x ih =>
    rw [firstsBy_concat]
    split
    · exact List.subset_append_of_subset_left _ ih
    · exact List.append_subset.mpr
        ⟨List.subset_append_of_subset_left _ ih, List.subset_append_right _ _⟩

/-- A filter that looks at keys alone may come before or after. -/
theorem firstsBy_filter (p : κ → Bool) (xs : List ι) :
    firstsBy key (xs.filter fun x => p (key x)) =
      (firstsBy key xs).filter fun x => p (key x) := by
  induction xs using List.reverseRecOn with
  | nil => rfl
  | append_singleton xs x ih =>
    rw [List.filter_append, firstsBy_concat]
    cases hp : p (key x) with
    | false =>
      rw [List.filter_singleton, hp, cond_false, List.append_nil, ih]
      split
      · rfl
      · rw [List.filter_append, List.filter_singleton, hp, cond_false, List.append_nil]
    | true =>
      have hmem : key x ∈ ((firstsBy key xs).filter fun x => p (key x)).map key ↔
          key x ∈ (firstsBy key xs).map key := by
        rw [← Function.comp_def p key, ← List.filter_map, List.mem_filter, and_iff_left hp]
      rw [List.filter_singleton, hp, cond_true, firstsBy_concat, ih]
      simp only [hmem]
      split
      · rfl
      · rw [List.filter_append, List.filter_singleton, hp, cond_true]

end

/-- Only which keys are equal matters. -/
theorem firstsBy_congr [DecidableEq κ] [DecidableEq μ] {key : ι → κ} {other : ι → μ}
    {xs : List ι} (h : ∀ x ∈ xs, ∀ y ∈ xs, key x = key y ↔ other x = other y) :
    firstsBy key xs = firstsBy other xs := by
  induction xs using List.reverseRecOn with
  | nil => rfl
  | append_singleton xs x ih =>
    have hxs : firstsBy key xs = firstsBy other xs :=
      ih fun y hy z hz => h y (List.mem_append_left _ hy) z (List.mem_append_left _ hz)
    have hx : key x ∈ (firstsBy key xs).map key ↔ other x ∈ (firstsBy other xs).map other := by
      rw [hxs, List.mem_map, List.mem_map]
      refine exists_congr fun y => and_congr_right fun hy => ?_
      exact h y (List.mem_append_left _ (firstsBy_subset other xs hy)) x (by simp)
    rw [firstsBy_concat, firstsBy_concat, hxs]
    simp only [← hx, hxs]

variable [PartialOrder κ] (merit : ι → κ)

open Classical in
/-- The entries that no entry lies strictly below. -/
noncomputable def minimals (xs : List ι) : List ι :=
  xs.filter fun x => ∀ y ∈ xs, ¬ merit y < merit x

theorem mem_minimals {xs : List ι} {x : ι} :
    x ∈ minimals merit xs ↔ x ∈ xs ∧ ∀ y ∈ xs, ¬ merit y < merit x := by
  classical
  rw [minimals, List.mem_filter, decide_eq_true_eq]

theorem minimals_perm {xs ys : List ι} (h : xs.Perm ys) :
    (minimals merit xs).Perm (minimals merit ys) := by
  classical
  have hsame : xs.filter (fun x => ∀ y ∈ ys, ¬ merit y < merit x) = minimals merit xs :=
    List.filter_congr fun x _ => by simp only [h.mem_iff]
  rw [← hsame]
  exact h.filter _

open Classical in
/-- The first of each minimal merit. -/
noncomputable def frontBy (xs : List ι) : List ι := firstsBy merit (minimals merit xs)

theorem frontBy_eq_firstsBy [DecidableEq μ] {key : ι → μ} {xs : List ι}
    (h : ∀ x ∈ minimals merit xs, ∀ y ∈ minimals merit xs, merit x = merit y ↔ key x = key y) :
    frontBy merit xs = firstsBy key (minimals merit xs) := by
  classical
  exact firstsBy_congr h

/-- An entry above an earlier one changes nothing. -/
theorem frontBy_concat_of_le {xs : List ι} {x y : ι} (hy : y ∈ xs) (hyx : merit y ≤ merit x) :
    frontBy merit (xs ++ [x]) = frontBy merit xs := by
  classical
  have hold : xs.filter (fun u => decide (∀ z ∈ xs ++ [x], ¬ merit z < merit u)) =
      minimals merit xs := by
    refine List.filter_congr fun u _ => decide_eq_decide.mpr ?_
    rw [List.forall_mem_append, List.forall_mem_singleton]
    exact and_iff_left_of_imp fun h hxu => h y hy (hyx.trans_lt hxu)
  unfold frontBy
  rw [minimals, List.filter_append, hold, List.filter_singleton]
  by_cases hx : ∀ z ∈ xs ++ [x], ¬ merit z < merit x
  · rw [decide_eq_true hx, cond_true]
    rw [List.forall_mem_append] at hx
    -- The earlier entry is then equal to the new one, and as minimal.
    have heq : merit y = merit x := hyx.eq_of_not_lt (hx.1 y hy)
    have hmin : y ∈ minimals merit xs :=
      (mem_minimals merit).mpr ⟨hy, fun z hz => heq ▸ hx.1 z hz⟩
    rw [firstsBy_concat, if_pos]
    rw [mem_map_firstsBy, ← heq]
    exact List.mem_map_of_mem hmin
  · rw [decide_eq_false hx, cond_false, List.append_nil]

open Classical in
/-- An entry above no earlier one takes the place of those above it. -/
theorem frontBy_concat_of_not_le {xs : List ι} {x : ι} (hx : ∀ y ∈ xs, ¬ merit y ≤ merit x) :
    frontBy merit (xs ++ [x]) =
      ((frontBy merit xs).filter fun u => decide (¬ merit x ≤ merit u)) ++ [x] := by
  have hold : xs.filter (fun u => decide (∀ z ∈ xs ++ [x], ¬ merit z < merit u)) =
      (minimals merit xs).filter fun u => decide (¬ merit x ≤ merit u) := by
    rw [minimals, List.filter_filter]
    refine List.filter_congr fun u hu => ?_
    rw [← Bool.decide_and, decide_eq_decide, List.forall_mem_append, List.forall_mem_singleton,
      and_comm]
    have hle : merit x ≤ merit u ↔ merit x < merit u := by
      rw [lt_iff_le_not_ge, and_iff_left (hx u hu)]
    rw [hle]
  have hnew : ∀ y ∈ xs ++ [x], ¬ merit y < merit x := by
    rw [List.forall_mem_append, List.forall_mem_singleton]
    exact ⟨fun y hy hlt => hx y hy hlt.le, lt_irrefl _⟩
  unfold frontBy
  rw [minimals, List.filter_append, hold, List.filter_singleton, decide_eq_true hnew,
    cond_true, firstsBy_concat, if_neg, firstsBy_filter merit fun k => decide (¬ merit x ≤ k)]
  rw [mem_map_firstsBy, List.mem_map]
  rintro ⟨u, hu, heq⟩
  rw [List.mem_filter, mem_minimals] at hu
  exact hx u hu.1.1 heq.le

end ParetoSearch
