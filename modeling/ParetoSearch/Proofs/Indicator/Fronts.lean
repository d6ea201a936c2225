import Mathlib.Data.Set.Finite.List
import Mathlib.Order.WellFounded
import ParetoSearch.Indicator
import ParetoSearch.Proofs.Arithmetic.Chaining

/-!
# What an indicator sees of a set

An indicator sees the vectors that count and that none of them dominates.  Nothing is lost
by this: a vector that is left out is dominated by one that stays
(`exists_nondominated_dominates`).  And nothing else is seen: further solutions that violate
a constraint, and further vectors that are dominated, change no indicator, however many
there are and wherever they stand (`front_undominated`).

Both rest on dominance being a strict order of vectors of one length.  The first is that a
finite set has minimal elements below each of its elements.  The second needs no minimal
elements: what an added vector dominates was dominated before.
-/

namespace ParetoSearch

/-! ## Further entries -/

/-- A list with further entries put in anywhere. -/
inductive Padded {γ : Type} (extra : γ → Prop) : List γ → List γ → Prop
  | nil : Padded extra [] []
  | keep (x : γ) {xs ys : List γ} : Padded extra xs ys → Padded extra (x :: xs) (x :: ys)
  | insert {y : γ} {xs ys : List γ} : extra y → Padded extra xs ys → Padded extra xs (y :: ys)

namespace Padded

variable {γ δ : Type} {extra : γ → Prop} {xs ys : List γ}

theorem mem_iff (h : Padded extra xs ys) {y : γ} (hy : y ∈ ys) : y ∈ xs ∨ extra y := by
  induction h with
  | nil => cases hy
  | keep x _ ih =>
    rcases List.mem_cons.mp hy with rfl | hy
    · exact Or.inl List.mem_cons_self
    · exact (ih hy).imp_left (List.mem_cons_of_mem x)
  | insert hextra _ ih =>
    rcases List.mem_cons.mp hy with rfl | hy
    · exact Or.inr hextra
    · exact ih hy

theorem subset (h : Padded extra xs ys) : xs ⊆ ys := by
  induction h with
  | nil => exact List.Subset.refl _
  | keep x _ ih => exact List.cons_subset_cons x ih
  | insert _ _ ih => exact List.subset_cons_of_subset _ ih

/-- A filter that lets none of the further entries pass does not see them. -/
theorem filter_eq (h : Padded extra xs ys) {p : γ → Bool} (hp : ∀ y, extra y → p y = false) :
    ys.filter p = xs.filter p := by
  induction h with
  | nil => rfl
  | keep x _ ih => rw [List.filter_cons, List.filter_cons, ih]
  | insert hextra _ ih => rw [List.filter_cons, hp _ hextra, ih]; rfl

theorem filterMap {f : γ → Option δ} {extra' : δ → Prop}
    (hf : ∀ y z, extra y → f y = some z → extra' z) (h : Padded extra xs ys) :
    Padded extra' (xs.filterMap f) (ys.filterMap f) := by
  induction h with
  | nil => exact .nil
  | keep x _ ih =>
    rw [List.filterMap_cons, List.filterMap_cons]
    cases f x with
    | none => exact ih
    | some z => exact .keep z ih
  | @insert y xs ys hextra _ ih =>
    rw [List.filterMap_cons]
    cases hz : f y with
    | none => exact ih
    | some z => exact .insert (hf y z hextra hz) ih

end Padded

/-! ## Rows that no row dominates -/

section

variable {β : Type} [LT β] [LE β] [DecidableLT β] [DecidableLE β] {rows : List (List β)}
  {width : Nat}

theorem mem_nondominated {b : List β} :
    b ∈ nondominated rows ↔ b ∈ rows ∧ ∀ a ∈ rows, dominates a b = false := by
  simp [nondominated, dominatedBy]

theorem length_of_mem_nondominated (hrows : ∀ row ∈ rows, row.length = width) :
    ∀ row ∈ nondominated rows, row.length = width := fun row hrow =>
  hrows row (mem_nondominated.mp hrow).1

theorem nondominated_eq_filter (rows : List (List β)) :
    nondominated rows = rows.filter fun b => rows.all fun a => !dominates a b := by
  simp only [nondominated, dominatedBy, List.not_any_eq_all_not]

theorem nondominated_nondominated (rows : List (List β)) :
    nondominated (nondominated rows) = nondominated rows := by
  refine List.filter_eq_self.mpr fun b hb => ?_
  rw [Bool.not_eq_true', ← Bool.not_eq_true, dominatedBy, List.any_eq_true]
  rintro ⟨a, ha, hab⟩
  rw [(mem_nondominated.mp hb).2 a (mem_nondominated.mp ha).1] at hab
  cases hab

variable [ChainedOrder β]

/-- A row that is left out is dominated by one that stays. -/
theorem exists_nondominated_dominates (hrows : ∀ row ∈ rows, row.length = width) {b : List β}
    (hb : b ∈ rows) (hout : b ∉ nondominated rows) :
    ∃ a ∈ nondominated rows, dominates a b = true := by
  have hlength : ∀ x ∈ rows, ∀ y ∈ rows, x.length = y.length := fun x hx y hy =>
    (hrows x hx).trans (hrows y hy).symm
  let below : {row // row ∈ rows} → {row // row ∈ rows} → Prop :=
    fun x y => dominates x.1 y.1 = true
  have : Finite {row // row ∈ rows} := (List.finite_toSet rows).to_subtype
  have htrans : ∀ {x y z}, below x y → below y z → below x z := fun {x y z} hxy hyz =>
    dominates_trans (hlength _ x.2 _ y.2) (hlength _ y.2 _ z.2) hxy hyz
  have : IsTrans _ below := ⟨fun _ _ _ => htrans⟩
  have : Std.Irrefl below := ⟨fun x hx => by
    rw [show below x x = (dominates x.1 x.1 = true) from rfl, not_dominates_self] at hx
    cases hx⟩
  -- A row that dominates, with none of those that do below it, is dominated by no row.
  have hdominated : ∃ a : {row // row ∈ rows}, below a ⟨b, hb⟩ := by
    simp only [mem_nondominated, hb, true_and, not_forall, Bool.not_eq_false] at hout
    obtain ⟨a, ha, hab⟩ := hout
    exact ⟨⟨a, ha⟩, hab⟩
  obtain ⟨a, hab, hleast⟩ :=
    (Finite.wellFounded_of_trans_of_irrefl below).has_min {a | below a ⟨b, hb⟩} hdominated
  refine ⟨a.1, mem_nondominated.mpr ⟨a.2, fun c hc => ?_⟩, hab⟩
  rw [← Bool.not_eq_true]
  exact fun hca => hleast ⟨c, hc⟩ (htrans hca hab) hca

/-- Rows that are dominated already leave the front as it is. -/
theorem nondominated_of_padded {rows' : List (List β)} (hrows : ∀ row ∈ rows', row.length = width)
    (h : Padded (fun b => ∃ a ∈ rows, dominates a b = true) rows rows') :
    nondominated rows' = nondominated rows := by
  have hdominated : ∀ b ∈ rows', dominatedBy rows' b = dominatedBy rows b := by
    intro b hb
    rw [Bool.eq_iff_iff, dominatedBy, dominatedBy, List.any_eq_true, List.any_eq_true]
    constructor
    · rintro ⟨a, ha, hab⟩
      rcases h.mem_iff ha with hold | ⟨c, hc, hca⟩
      · exact ⟨a, hold, hab⟩
      · have hlength : c.length = a.length := (hrows c (h.subset hc)).trans (hrows a ha).symm
        have hlength' : a.length = b.length := (hrows a ha).trans (hrows b hb).symm
        exact ⟨c, hc, dominates_trans hlength hlength' hca hab⟩
    · rintro ⟨a, ha, hab⟩
      exact ⟨a, h.subset ha, hab⟩
  calc nondominated rows' = rows'.filter fun b => !dominatedBy rows b :=
        List.filter_congr fun b hb => by rw [hdominated b hb]
    _ = nondominated rows := h.filter_eq fun b ⟨a, ha, hab⟩ => by
        rw [Bool.not_eq_false', dominatedBy, List.any_eq_true]
        exact ⟨a, ha, hab⟩

end

/-! ## Matrices -/

namespace Tensor

variable {β : Type} {width : Nat}

theorem length_of_mem_chunks {n : Nat} {es : List β} (h : es.length = n * width) :
    ∀ row ∈ chunks n width es, row.length = width := by
  induction n generalizing es with
  | zero => simp [chunks]
  | succ n ih =>
    have hrest : (es.drop width).length = n * width := by
      rw [List.length_drop, h, Nat.succ_mul, Nat.add_sub_cancel]
    rw [chunks, List.forall_mem_cons]
    refine ⟨?_, ih hrest⟩
    rw [List.length_take, h, Nat.succ_mul]
    exact Nat.min_eq_left (Nat.le_add_left _ _)

theorem chunks_flatten {rows : List (List β)} (h : ∀ row ∈ rows, row.length = width) :
    chunks rows.length width rows.flatten = rows := by
  induction rows with
  | nil => rfl
  | cons row rest ih =>
    rw [List.forall_mem_cons] at h
    rw [List.length_cons, List.flatten_cons, chunks, List.take_left' h.1, List.drop_left' h.1,
      ih h.2]

end Tensor

/-! ## Sets -/

namespace PointSet

variable {X α : Type} [Scalar α]

/-- The vectors of a set in its order, each with the mark whether it counts. -/
def items : PointSet X α → List (Bool × List α)
  | .points t => (pointRows t).map (true, ·)
  | .solutions members => members.map fun s => (s.feasible, s.objectives)
  | .nothing => []

/-- The vectors that count. -/
def counting (set : PointSet X α) : List (List α) :=
  set.items.filterMap fun item => if item.1 then some item.2 else none

/-- A matrix with so many columns, or solutions, those that count with so many objectives. -/
def Uniform (width : Nat) : PointSet X α → Prop
  | .points t => ∃ n, t.shape = [n, width] ∧ t.entries.length = n * width
  | .solutions members => ∀ s ∈ members, s.feasible = true → s.objectives.length = width
  | .nothing => False

theorem counting_points (t : Tensor α) :
    (points t : PointSet X α).counting = pointRows t := by
  simp [counting, items, List.filterMap_map]

theorem counting_solutions (members : List (Solution X α)) :
    (solutions members).counting = (members.filter Solution.feasible).map Solution.objectives := by
  rw [counting, items, List.filterMap_map, ← List.filterMap_eq_map, List.filterMap_filter]
  rfl

section

variable {rows : List (List α)} {width : Nat}

omit [Scalar α] in
theorem pointRows_ofRows (hpos : 0 < width) (hrows : ∀ row ∈ rows, row.length = width) :
    pointRows (Tensor.ofRows rows) = rows := by
  cases rows with
  | nil => rfl
  | cons row rest =>
    have hrow : row.length = width := hrows row List.mem_cons_self
    have hfull : (row :: rest).flatten.isEmpty = false := by
      rw [List.flatten_cons, List.isEmpty_eq_false_iff]
      exact List.append_ne_nil_of_left_ne_nil (List.ne_nil_of_length_pos (hrow ▸ hpos)) _
    have hchunks := Tensor.chunks_flatten hrows
    rw [← hrow] at hchunks
    simp only [pointRows, Tensor.ofRows, List.headD_cons, hfull, Bool.false_eq_true, if_false,
      hchunks]

theorem front_ofRows (hpos : 0 < width) (hrows : ∀ row ∈ rows, row.length = width) :
    (points (Tensor.ofRows rows) : PointSet X α).front = .ok (nondominated rows) := by
  rw [front, pointRows_ofRows hpos hrows]
  rfl

end

variable {set : PointSet X α} {width : Nat}

theorem Uniform.length_of_counting (h : set.Uniform width) :
    ∀ row ∈ set.counting, row.length = width := by
  cases set with
  | points t =>
    obtain ⟨n, hshape, hentries⟩ := h
    rw [counting_points, pointRows, hshape]
    simp only
    split
    · simp
    · exact Tensor.length_of_mem_chunks hentries
  | solutions members =>
    rw [counting_solutions, List.forall_mem_map]
    intro s hs
    rw [List.mem_filter] at hs
    exact h s hs.1 hs.2
  | nothing => exact h.elim

theorem Uniform.front_eq (h : set.Uniform width) :
    set.front = .ok (nondominated set.counting) := by
  cases set with
  | points t =>
    obtain ⟨n, hshape, hentries⟩ := h
    rw [counting_points, front, hshape]
    rfl
  | solutions members =>
    have hrows := h.length_of_counting
    have hstack : feasibleRows members = .ok (solutions members).counting := by
      rw [feasibleRows, ← counting_solutions]
      cases hcounting : (solutions members).counting with
      | nil => rfl
      | cons row rest =>
        rw [hcounting, List.forall_mem_cons] at hrows
        exact if_pos (by simpa [hrows.1] using hrows.2)
    rw [front, hstack]
    rfl
  | nothing => exact h.elim

end PointSet

theorem Indicator.evaluate_congr {X α : Type} [Scalar α] {A B : PointSet X α}
    (h : B.front = A.front) (i : Indicator α) : i.evaluate B = i.evaluate A := by
  cases i <;> simp only [evaluate, onFront, Frame.front, h]

/-- The front of a set is what counts in it and what nothing that counts dominates, in the
order of the set; whatever else counts is dominated by a vector of the front, and the front
is a set with the same front.  Putting solutions that do not count and vectors that are
dominated anywhere into a set changes the value of no indicator.  Values that are not numbers
and infinities may be among the objectives. -/
theorem front_undominated {X : Type} {width : Nat} (hpos : 0 < width) {A : PointSet X Float}
    (hA : A.Uniform width) :
    ∃ front, A.front = .ok front ∧
      front = A.counting.filter (fun b => A.counting.all fun a => !dominates a b) ∧
      (∀ b ∈ A.counting, b ∉ front → ∃ a ∈ front, dominates a b = true) ∧
      (PointSet.points (Tensor.ofRows front) : PointSet X Float).front = .ok front ∧
      ∀ B : PointSet X Float, B.Uniform width →
        Padded (fun item => item.1 = false ∨ ∃ a ∈ A.counting, dominates a item.2 = true)
          A.items B.items →
            ∀ i : Indicator Float, i.evaluate B = i.evaluate A := by
  have hrows := hA.length_of_counting
  refine ⟨nondominated A.counting, hA.front_eq, nondominated_eq_filter _,
    fun b => exists_nondominated_dominates hrows, ?_, fun B hB hpadded i => ?_⟩
  · rw [PointSet.front_ofRows hpos (length_of_mem_nondominated hrows), nondominated_nondominated]
  · have hcounting : Padded (fun b => ∃ a ∈ A.counting, dominates a b = true)
        A.counting B.counting := by
      refine Padded.filterMap (fun item b hextra hitem => ?_) hpadded
      split at hitem
      case isTrue hcounts =>
        obtain rfl := Option.some.inj hitem
        exact hextra.resolve_left (by simp [hcounts])
      case isFalse => cases hitem
    refine i.evaluate_congr ?_
    rw [hA.front_eq, hB.front_eq, nondominated_of_padded hB.length_of_counting hcounting]

/-- One objective is not a number, the fourth vector is dominated, and the last solution is
not feasible. -/
def sparse : PointSet Unit Float :=
  .solutions [⟨(), [1, 2], [], []⟩, ⟨(), [0 / 0, 0], [], []⟩, ⟨(), [2, 1], [], []⟩,
    ⟨(), [3, 1], [], []⟩, ⟨(), [0, 0], [1], []⟩]

/-- With two vectors that are dominated, and a solution whose violation is not a number. -/
def crowd : PointSet Unit Float :=
  .solutions [⟨(), [1 / 0, 3], [], []⟩, ⟨(), [1, 2], [], []⟩, ⟨(), [0 / 0, 0], [], []⟩,
    ⟨(), [4, 4], [-0.0], []⟩, ⟨(), [2, 1], [], []⟩, ⟨(), [-1], [0 / 0], []⟩,
    ⟨(), [3, 1], [], []⟩, ⟨(), [0, 0], [1], []⟩]

set_option maxRecDepth 4000 in
theorem front_undominated_crowd :
    sparse.Uniform 2 ∧ crowd.Uniform 2 ∧
      Padded (fun item => item.1 = false ∨ ∃ a ∈ sparse.counting, dominates a item.2 = true)
        sparse.items crowd.items ∧
      sparse.front = .ok [[1, 2], [0 / 0, 0], [2, 1]] ∧
      ∀ i : Indicator Float, i.evaluate crowd = i.evaluate sparse := by
  have hsparse : sparse.Uniform 2 := by
    simp only [sparse, PointSet.Uniform, List.forall_mem_cons]
    exact ⟨fun _ => rfl, fun _ => rfl, fun _ => rfl, fun _ => rfl, fun _ => rfl, nofun⟩
  have hcrowd : crowd.Uniform 2 := by
    simp only [crowd, PointSet.Uniform, List.forall_mem_cons]
    exact ⟨fun _ => rfl, fun _ => rfl, fun _ => rfl, fun _ => rfl, fun _ => rfl,
      fun h => absurd h (by with_unfolding_all decide), fun _ => rfl, fun _ => rfl, nofun⟩
  have hcounting : sparse.counting = [[1, 2], [0 / 0, 0], [2, 1], [3, 1]] := by
    with_unfolding_all rfl
  have hfirst : ∃ a ∈ sparse.counting, dominates a [1 / 0, (3 : Float)] = true := by
    rw [hcounting]
    exact ⟨[1, 2], List.mem_cons_self, by with_unfolding_all rfl⟩
  have hsecond : ∃ a ∈ sparse.counting, dominates a [4, (4 : Float)] = true := by
    rw [hcounting]
    exact ⟨[1, 2], List.mem_cons_self, by with_unfolding_all rfl⟩
  have hpadded : Padded
      (fun item => item.1 = false ∨ ∃ a ∈ sparse.counting, dominates a item.2 = true)
        sparse.items crowd.items :=
    .insert (Or.inr hfirst) <| .keep _ <| .keep _ <| .insert (Or.inr hsecond) <| .keep _ <|
      .insert (Or.inl (by with_unfolding_all rfl)) <| .keep _ <| .keep _ .nil
  obtain ⟨front, hfront, hfilter, -, -, hindicators⟩ := front_undominated (by decide) hsparse
  have hvalue : front = [[1, 2], [0 / 0, 0], [2, 1]] := by
    rw [hfilter, hcounting]
    with_unfolding_all rfl
  exact ⟨hsparse, hcrowd, hpadded, hvalue ▸ hfront, hindicators crowd hcrowd hpadded⟩

end ParetoSearch
