import ParetoSearch.Proofs.Arithmetic.Exact

/-!
# Least and greatest exact numbers

The extremes of a list that is not empty are read as what they say of any other number.
-/

namespace ParetoSearch
namespace Scalar

variable {α : Type} [ExactScalar α]

theorem lesser_eq_min (x y : α) : lesser x y = min x y := by
  rw [lesser, isNumber_eq_true, min_def]
  simp

theorem greater_eq_max (x y : α) : greater x y = max x y := by
  rw [greater, isNumber_eq_true, max_def']
  simp

theorem foldl_lesser_le_iff {x t : α} {xs : List α} :
    xs.foldl lesser x ≤ t ↔ ∃ y ∈ x :: xs, y ≤ t := by
  induction xs generalizing x with
  | nil => simp
  | cons y rest ih =>
    rw [List.foldl_cons, ih]
    simp only [List.exists_mem_cons_iff, lesser_eq_min, min_le_iff, or_assoc]

theorem foldl_greater_le_iff {x t : α} {xs : List α} :
    xs.foldl greater x ≤ t ↔ ∀ y ∈ x :: xs, y ≤ t := by
  induction xs generalizing x with
  | nil => simp
  | cons y rest ih =>
    rw [List.foldl_cons, ih]
    simp only [List.forall_mem_cons, greater_eq_max, max_le_iff, and_assoc]

theorem greatest?_spec {xs : List α} (hne : xs ≠ []) :
    ∃ g ∈ xs, greatest? xs = some g ∧ ∀ x ∈ xs, x ≤ g := by
  obtain ⟨x, rest, rfl⟩ := List.exists_cons_of_ne_nil hne
  clear hne
  induction rest generalizing x with
  | nil => exact ⟨x, by simp, rfl, by simp⟩
  | cons y rest ih =>
    obtain ⟨g, hg, hgreatest, hall⟩ := ih (greater x y)
    rw [greater_eq_max] at hg hall
    rw [List.forall_mem_cons, max_le_iff] at hall
    refine ⟨g, ?_, hgreatest, by simpa [and_assoc] using hall⟩
    rcases List.mem_cons.mp hg with rfl | hg
    · rcases max_choice x y with h | h <;> simp [h]
    · simp [hg]

end Scalar
end ParetoSearch
