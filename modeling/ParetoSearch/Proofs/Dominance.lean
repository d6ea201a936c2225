import Mathlib.Data.List.Forall2
import Mathlib.Data.List.Zip
import Mathlib.Order.Basic
import Mathlib.Order.Lattice
import ParetoSearch.Dominance

/-!
# Dominance of vectors

What dominance says of two vectors, and what does not depend on which of the two
is named first: whether they can be compared at all, and whether neither
dominates the other.

Dominance is a strict order of vectors of one length wherever comparisons of entries chain
(`dominates_trans`, `not_dominates_self`); values that compare with nothing, not even with
themselves, do no harm.  Over a linear order it is the strict part of a partial order: that
of functions, entry by entry (`dominates_iff_entries_lt`).

The last section is about indices of boxes.  Two of them that differ in one place
only are never a tie (`dominates_of_agree_off`); this is why boxes none of which
dominates another are few.
-/

namespace ParetoSearch

variable {α β γ : Type}

/-! ## Matching entries -/

namespace Vector

theorem pairUp_of_length_eq {a : List β} {b : List γ} (h : a.length = b.length) :
    (pairUp a b : Except (Fault α) _) = .ok (a.zip b) := if_pos h

theorem pairUp_ok {a : List β} {b : List γ}
    (h : a.length = b.length ∨ a.length = 1 ∨ b.length = 1) :
    ∃ pairs, (pairUp a b : Except (Fault α) (List (β × γ))) = .ok pairs := by
  unfold pairUp
  split
  case isTrue => exact ⟨_, rfl⟩
  case isFalse hne =>
    rcases a with _ | ⟨x, _ | ⟨x', a⟩⟩ <;> rcases b with _ | ⟨y, _ | ⟨y', b⟩⟩ <;> simp_all

/-- Named the other way round, two vectors are matched the same way. -/
theorem pairUp_swap (a : List β) (b : List γ) :
    (pairUp b a : Except (Fault α) _) = (pairUp a b).map (List.map Prod.swap) := by
  by_cases h : a.length = b.length
  · rw [pairUp_of_length_eq h, pairUp_of_length_eq h.symm, Except.map, List.zip_swap]
  · unfold pairUp
    rw [if_neg h, if_neg (Ne.symm h)]
    rcases a with _ | ⟨x, _ | ⟨x', a⟩⟩ <;> rcases b with _ | ⟨y, _ | ⟨y', b⟩⟩ <;>
      simp [Except.map] at h ⊢

end Vector

/-! ## The two readings of dominance -/

theorem any_zip_lt [LT β] [DecidableLT β] (a b : List β) :
    (a.zip b).any (fun p => decide (p.1 < p.2)) = somewhereBetter a b := by
  induction a generalizing b with
  | nil => cases b <;> rfl
  | cons x xs ih =>
    cases b with
    | nil => rfl
    | cons y ys => rw [List.zip_cons_cons, List.any_cons, ih, somewhereBetter]

section

variable [LE β] [DecidableLE β]

theorem all_zip_le (a b : List β) :
    (a.zip b).all (fun p => decide (p.1 ≤ p.2)) = nowhereWorse a b := by
  induction a generalizing b with
  | nil => cases b <;> rfl
  | cons x xs ih =>
    cases b with
    | nil => rfl
    | cons y ys => rw [List.zip_cons_cons, List.all_cons, ih, nowhereWorse]

theorem nowhereWorse_iff {a b : List β} (h : a.length = b.length) :
    nowhereWorse a b = true ↔ List.Forall₂ (· ≤ ·) a b := by
  induction a generalizing b with
  | nil =>
    cases b with
    | nil => simp [nowhereWorse]
    | cons y ys => simp at h
  | cons x xs ih =>
    cases b with
    | nil => simp at h
    | cons y ys =>
      rw [nowhereWorse, Bool.and_eq_true, decide_eq_true_eq, List.forall₂_cons,
        ih (Nat.succ.inj h)]

variable [LT β] [DecidableLT β]

theorem dominates?_of_length_eq {a b : List β} (h : a.length = b.length) :
    (dominates? a b : Except (Fault α) Bool) = .ok (dominates a b) := by
  rw [dominates?, Vector.pairUp_of_length_eq h, dominates, ← all_zip_le, ← any_zip_lt]
  rfl

theorem forall₂_le_of_dominates {a b : List β} (h : a.length = b.length)
    (hab : dominates a b = true) : List.Forall₂ (· ≤ ·) a b := by
  rw [dominates, Bool.and_eq_true] at hab
  exact (nowhereWorse_iff h).mp hab.1

end

/-! ## Marks -/

/-- What a list of marks picks out of the list that it marks. -/
theorem filter_zip_map (xs : List γ) (mark : γ → Bool) (p : Bool → Bool) :
    ((xs.zip (xs.map mark)).filter fun q => p q.2).map Prod.fst =
      xs.filter fun x => p (mark x) := by
  induction xs with
  | nil => rfl
  | cons x xs ih => cases hx : p (mark x) <;> simp [hx, ih]

/-! ## Comparisons that chain -/

/-- The laws of comparisons that dominance needs.  None of them asks a value to compare
with itself. -/
class ChainedOrder (β : Type) [LT β] [LE β] : Prop where
  le_trans : ∀ {x y z : β}, x ≤ y → y ≤ z → x ≤ z
  lt_of_lt_of_le : ∀ {x y z : β}, x < y → y ≤ z → x < z
  not_lt_of_le : ∀ {x y : β}, x ≤ y → ¬ y < x

instance [Preorder β] : ChainedOrder β := ⟨le_trans, lt_of_lt_of_le, not_lt_of_ge⟩

section

variable [LT β] [LE β] [DecidableLT β] [DecidableLE β] [ChainedOrder β] {a b c : List β}

omit [DecidableLT β] in
theorem nowhereWorse_trans (hlength : a.length = b.length) (hab : nowhereWorse a b = true)
    (hbc : nowhereWorse b c = true) : nowhereWorse a c = true := by
  induction a generalizing b c with
  | nil => rfl
  | cons x xs ih =>
    cases b with
    | nil => simp at hlength
    | cons y ys =>
      cases c with
      | nil => rfl
      | cons z zs =>
        rw [nowhereWorse, Bool.and_eq_true, decide_eq_true_eq] at hab hbc ⊢
        exact ⟨ChainedOrder.le_trans hab.1 hbc.1, ih (Nat.succ.inj hlength) hab.2 hbc.2⟩

theorem somewhereBetter_of_nowhereWorse_right (hlength : b.length = c.length)
    (hab : somewhereBetter a b = true) (hbc : nowhereWorse b c = true) :
    somewhereBetter a c = true := by
  induction a generalizing b c with
  | nil => cases b <;> cases hab
  | cons x xs ih =>
    cases b with
    | nil => cases hab
    | cons y ys =>
      cases c with
      | nil => simp at hlength
      | cons z zs =>
        rw [nowhereWorse, Bool.and_eq_true, decide_eq_true_eq] at hbc
        rw [somewhereBetter, Bool.or_eq_true, decide_eq_true_eq] at hab ⊢
        rcases hab with hxy | hrest
        · exact Or.inl (ChainedOrder.lt_of_lt_of_le hxy hbc.1)
        · exact Or.inr (ih (Nat.succ.inj hlength) hrest hbc.2)

theorem dominates_trans (hlength : a.length = b.length) (hlength' : b.length = c.length)
    (hab : dominates a b = true) (hbc : dominates b c = true) : dominates a c = true := by
  rw [dominates, Bool.and_eq_true] at hab hbc ⊢
  exact ⟨nowhereWorse_trans hlength hab.1 hbc.1,
    somewhereBetter_of_nowhereWorse_right hlength' hab.2 hbc.1⟩

theorem not_dominates_self (a : List β) : dominates a a = false := by
  induction a with
  | nil => rfl
  | cons x xs ih =>
    by_cases hle : x ≤ x
    · have hlt : ¬ x < x := ChainedOrder.not_lt_of_le hle
      simpa [dominates, nowhereWorse, somewhereBetter, hle, hlt] using ih
    · simp [dominates, nowhereWorse, hle]

end

/-! ## Dominance as an order -/

/-- A vector as the function of its entries. -/
def entries [Zero β] (a : List β) : Nat → β := fun i => a.getD i 0

theorem entries_inj [Zero β] {a b : List β} (h : a.length = b.length) :
    entries a = entries b ↔ a = b := by
  refine ⟨fun heq => ?_, fun heq => heq ▸ rfl⟩
  refine List.ext_getElem h fun i hi hib => ?_
  simpa [entries, hi, hib] using congrFun heq i

theorem entries_of_lt [Zero β] {a : List β} {k : Nat} (hk : k < a.length) : entries a k = a[k] := by
  simp [entries, hk]

theorem entries_of_le [Zero β] {a : List β} {k : Nat} (hk : a.length ≤ k) : entries a k = 0 := by
  simp [entries, hk]

theorem entries_zipWith [Zero β] {f : β → β → β} (hf : f 0 0 = 0) {a b : List β}
    (h : a.length = b.length) (k : Nat) :
    entries (a.zipWith f b) k = f (entries a k) (entries b k) := by
  by_cases hk : k < a.length
  · have hkb : k < b.length := h ▸ hk
    rw [entries_of_lt (by simp [hk, hkb]), List.getElem_zipWith, entries_of_lt hk,
      entries_of_lt hkb]
  · have hle : a.length ≤ k := not_lt.mp hk
    rw [entries_of_le (by simp [hle]), entries_of_le hle, entries_of_le (h ▸ hle), hf]

section

variable [PartialOrder β]

theorem forall₂_le_iff_entries_le [Zero β] {a b : List β} (h : a.length = b.length) :
    List.Forall₂ (· ≤ ·) a b ↔ entries a ≤ entries b := by
  rw [List.forall₂_iff_get]
  constructor
  · rintro ⟨-, hle⟩ i
    by_cases hi : i < a.length
    · have hib : i < b.length := h ▸ hi
      simpa [entries, hi, hib] using hle i hi hib
    · have hib : ¬ i < b.length := h ▸ hi
      simp [entries, hi, hib]
  · intro hle
    refine ⟨h, fun i hi hib => ?_⟩
    simpa [entries, hi, hib] using hle i

theorem lt_length_of_entries_lt [Zero β] {a b : List β} {k : Nat} (h : a.length = b.length)
    (hlt : entries a k < entries b k) : k < a.length := by
  by_contra hk
  have hle : a.length ≤ k := not_lt.mp hk
  rw [entries_of_le hle, entries_of_le (h ▸ hle)] at hlt
  exact lt_irrefl _ hlt

theorem somewhereBetter_iff_ne [DecidableLT β] {a b : List β}
    (hle : List.Forall₂ (· ≤ ·) a b) : somewhereBetter a b = true ↔ a ≠ b := by
  induction hle with
  | nil => simp [somewhereBetter]
  | cons hxy _ ih =>
    rw [somewhereBetter, Bool.or_eq_true, decide_eq_true_eq, ih, hxy.lt_iff_ne, ne_eq, ne_eq,
      ne_eq, List.cons.injEq, not_and_or]

theorem dominates_iff_entries_lt [Zero β] [DecidableLT β] [DecidableLE β] {a b : List β}
    (h : a.length = b.length) : dominates a b = true ↔ entries a < entries b := by
  rw [dominates, Bool.and_eq_true, nowhereWorse_iff h, lt_iff_le_and_ne, ne_eq, entries_inj h,
    ← forall₂_le_iff_entries_le h]
  exact and_congr_right fun hle => somewhereBetter_iff_ne hle

end

/-! ## Indices of boxes -/

theorem nowhereWorse_refl [Preorder β] [DecidableLE β] (a : List β) :
    nowhereWorse a a = true := by
  rw [nowhereWorse_iff rfl]
  exact List.forall₂_refl a

theorem dominates_cons_of_lt [Preorder β] [DecidableLT β] [DecidableLE β] {x y : β}
    (h : x < y) (a : List β) : dominates (x :: a) (y :: a) = true := by
  simp [dominates, nowhereWorse, somewhereBetter, h, h.le, nowhereWorse_refl]

theorem dominates_cons_self [Preorder β] [DecidableLT β] [DecidableLE β] (x : β)
    {a b : List β} (h : dominates a b = true) : dominates (x :: a) (x :: b) = true := by
  rw [dominates, Bool.and_eq_true] at h
  simp [dominates, nowhereWorse, somewhereBetter, h.1, h.2]

/-- Two vectors of one length that agree in all places but one are the same, or
one of them dominates the other. -/
theorem dominates_of_agree_off [LinearOrder β] {a b : List β} (h : a.length = b.length)
    {j : Nat} (hagree : ∀ k, k ≠ j → a[k]? = b[k]?) :
    a = b ∨ dominates a b = true ∨ dominates b a = true := by
  induction a generalizing b j with
  | nil => exact Or.inl (List.length_eq_zero_iff.mp h.symm).symm
  | cons x xs ih =>
    cases b with
    | nil => simp at h
    | cons y ys =>
      cases j with
      | zero =>
        have htail : xs = ys := List.ext_getElem? fun k => by
          simpa using hagree (k + 1) (Nat.succ_ne_zero k)
        subst htail
        rcases lt_trichotomy x y with hlt | rfl | hgt
        · exact Or.inr (Or.inl (dominates_cons_of_lt hlt xs))
        · exact Or.inl rfl
        · exact Or.inr (Or.inr (dominates_cons_of_lt hgt xs))
      | succ j =>
        have hhead : x = y := by simpa using hagree 0 (Nat.succ_ne_zero j).symm
        subst hhead
        have htail : ∀ k, k ≠ j → xs[k]? = ys[k]? := fun k hk => by
          simpa using hagree (k + 1) (by omega)
        rcases ih (Nat.succ.inj h) htail with rfl | hab | hba
        · exact Or.inl rfl
        · exact Or.inr (Or.inl (dominates_cons_self x hab))
        · exact Or.inr (Or.inr (dominates_cons_self x hba))

end ParetoSearch
