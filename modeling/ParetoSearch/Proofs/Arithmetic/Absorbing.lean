import Mathlib.Data.List.Basic
import ParetoSearch.Vector

/-!
# One entry is enough

Some values take over whatever they meet: a sum with one term that is not a number is not
a number, and neither is an extreme over entries one of which is not.  Which values do so
depends on the arithmetic and on the operation (`Absorbs`).  That they take over a fold, or
a column of one, as soon as they occur does not.
-/

namespace ParetoSearch

variable {α : Type} {f : α → α → α}

/-- What always answers with one of its operands selects from a list. -/
theorem foldl_mem_cons (h : ∀ x y, f x y = x ∨ f x y = y) (init : α) (xs : List α) :
    xs.foldl f init ∈ init :: xs := by
  induction xs generalizing init with
  | nil => exact List.mem_singleton_self init
  | cons y rest ih =>
    rw [List.foldl_cons]
    rcases List.mem_cons.mp (ih (f init y)) with heq | hrest
    · rw [heq]
      rcases h init y with hinit | hy
      · rw [hinit]
        exact List.mem_cons_self
      · rw [hy]
        exact List.mem_cons_of_mem _ List.mem_cons_self
    · exact List.mem_cons_of_mem _ (List.mem_cons_of_mem _ hrest)

namespace Vector

/-- A column of the fold is the fold of the column. -/
theorem getElem?_columnFold (f : α → α → α) (d : α) {first : List α} {rest : List (List α)}
    {width k : Nat} (hrows : ∀ row ∈ first :: rest, row.length = width) (hk : k < width) :
    (columnFold f (first :: rest))[k]? =
      some (((rest.map (·.getD k d))).foldl f (first.getD k d)) := by
  induction rest generalizing first with
  | nil =>
    have hfirst : k < first.length := by rwa [hrows first List.mem_cons_self]
    simp [columnFold, hfirst]
  | cons next rest ih =>
    simp only [List.forall_mem_cons] at hrows
    obtain ⟨hfirst, hnext, hrest⟩ := hrows
    have hlength : (first.zipWith f next).length = width := by
      rw [List.length_zipWith, hfirst, hnext, Nat.min_self]
    have hentry : (first.zipWith f next).getD k d = f (first.getD k d) (next.getD k d) := by
      simp [hfirst, hnext, hk]
    rw [List.map_cons, List.foldl_cons, ← hentry]
    exact ih (List.forall_mem_cons.mpr ⟨hlength, hrest⟩)

end Vector

/-- An operand with the property gives it to the result. -/
structure Absorbs (f : α → α → α) (P : α → Prop) : Prop where
  left : ∀ x y, P x → P (f x y)
  right : ∀ x y, P y → P (f x y)

namespace Absorbs

variable {P : α → Prop}

theorem foldl (h : Absorbs f P) {init : α} {xs : List α} (hmem : ∃ x ∈ init :: xs, P x) :
    P (xs.foldl f init) := by
  induction xs generalizing init with
  | nil => simpa using hmem
  | cons y rest ih =>
    refine ih ?_
    simp only [List.exists_mem_cons_iff] at hmem ⊢
    rcases hmem with hinit | hy | hrest
    · exact Or.inl (h.left init y hinit)
    · exact Or.inl (h.right init y hy)
    · exact Or.inr hrest

theorem zipWith (h : Absorbs f P) {a b : List α} (hlength : a.length = b.length)
    (hmem : (∃ x ∈ a, P x) ∨ ∃ y ∈ b, P y) : ∃ z ∈ a.zipWith f b, P z := by
  rcases hmem with ⟨x, hx, hP⟩ | ⟨y, hy, hP⟩
  · obtain ⟨k, hk, rfl⟩ := List.mem_iff_getElem.mp hx
    have hpair : k < (a.zipWith f b).length := by simpa [← hlength] using hk
    exact ⟨_, List.getElem_mem hpair, by rw [List.getElem_zipWith]; exact h.left _ _ hP⟩
  · obtain ⟨k, hk, rfl⟩ := List.mem_iff_getElem.mp hy
    have hpair : k < (a.zipWith f b).length := by simpa [hlength] using hk
    exact ⟨_, List.getElem_mem hpair, by rw [List.getElem_zipWith]; exact h.right _ _ hP⟩

theorem columnFold (h : Absorbs f P) {rows : List (List α)} {width : Nat}
    (hrows : ∀ row ∈ rows, row.length = width) {row : List α} (hrow : row ∈ rows) {k : Nat} {x : α}
    (hx : row[k]? = some x) (hP : P x) : ∃ y, (Vector.columnFold f rows)[k]? = some y ∧ P y := by
  obtain ⟨hlt, -⟩ := List.getElem?_eq_some_iff.mp hx
  have hk : k < width := hrows row hrow ▸ hlt
  have hcolumn : x ∈ rows.map (·.getD k x) := List.mem_map.mpr ⟨row, hrow, by simp [hx]⟩
  cases rows with
  | nil => cases hrow
  | cons first rest =>
    exact ⟨_, Vector.getElem?_columnFold f x hrows hk, h.foldl ⟨x, hcolumn, hP⟩⟩

end Absorbs
end ParetoSearch
