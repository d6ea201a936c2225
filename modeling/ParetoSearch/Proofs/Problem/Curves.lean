import Mathlib.Algebra.Order.Field.Basic
import Mathlib.Tactic.Linarith
import ParetoSearch.Configuration
import ParetoSearch.Proofs.Archive.Duplicates
import ParetoSearch.Proofs.Archive.Frontier
import ParetoSearch.Proofs.Arithmetic.Sums
import ParetoSearch.Proofs.Indicator.Fronts
import ParetoSearch.Proofs.Work

/-!
# Fronts in closed form

The first two problems of the suite share one form: the second objective is a shape over the
first, taken at a distance.  Two facts about the shape make its curve the front.  It falls, so
that no point of the curve dominates another one, and being further away than one only raises
it, so that no variables reach below the curve (`TradeOff`).

The registered fronts are such curves at equally spaced first objectives.  Every row is the
answer to variables that are all zero but the first, no answer dominates a row, and an archive
without tolerance takes in one row after another (`ZdtProblem.front_attained_undominated`).
-/

namespace ParetoSearch

variable {α : Type} [ExactScalar α]

/-! ## Equal steps -/

namespace Vector

/-- From zero to one the step is one over the number of steps, and the last point is no
exception. -/
theorem spaced_unit (n : Nat) :
    spaced (0 : α) 1 n = (List.range n).map fun i : Nat => (i : α) / ((n - 1 : Nat) : α) := by
  refine List.map_congr_left fun i hi => ?_
  have hi : i < n := List.mem_range.mp hi
  split
  case isTrue hlast =>
    have hsteps : n - 1 = i := by omega
    have hpos : (i : α) ≠ 0 := Nat.cast_ne_zero.mpr (by omega)
    rw [hsteps, div_self hpos]
  case isFalse =>
    split
    case isTrue hone =>
      obtain rfl : i = 0 := by omega
      rw [Nat.cast_zero, zero_div]
    case isFalse => rw [sub_zero, add_zero, mul_one_div]

theorem length_spaced (a b : α) (n : Nat) : (spaced a b n).length = n := by
  rw [spaced, List.length_map, List.length_range]

theorem spaced_between {n : Nat} : ∀ v ∈ spaced (0 : α) 1 n, 0 ≤ v ∧ v ≤ 1 := by
  intro v hv
  rw [spaced_unit, List.mem_map] at hv
  obtain ⟨i, hi, rfl⟩ := hv
  have hi : i < n := List.mem_range.mp hi
  have hsteps : (i : α) ≤ ((n - 1 : Nat) : α) := Nat.cast_le.mpr (by omega)
  exact ⟨div_nonneg i.cast_nonneg (Nat.cast_nonneg _),
    div_le_one_of_le₀ hsteps (Nat.cast_nonneg _)⟩

theorem spaced_increasing (n : Nat) : (spaced (0 : α) 1 n).Pairwise (· < ·) := by
  rw [spaced_unit, List.pairwise_map]
  refine List.pairwise_lt_range.imp_of_mem fun {i j} _ hj hij => ?_
  have hj : j < n := List.mem_range.mp hj
  have hsteps : (0 : α) < ((n - 1 : Nat) : α) := Nat.cast_pos.mpr (by omega)
  exact div_lt_div_of_pos_right (Nat.cast_lt.mpr hij) hsteps

end Vector

/-! ## Shapes -/

namespace Zdt

/-- A shape that falls, and that a distance of one or more only raises. -/
structure TradeOff (shape : α → α) : Prop where
  falls : ∀ {v w : α}, 0 ≤ v → v < w → shape w < shape v
  raised : ∀ {g v : α}, 1 ≤ g → 0 ≤ v → v ≤ 1 → shape v ≤ g * shape (v / g)

theorem tradeOff_sqrt : TradeOff fun v : α => 1 - Scalar.sqrt v where
  falls hv hvw := sub_lt_sub_left (Scalar.sqrt_lt_sqrt hv hvw) 1
  raised {g v} hg hv hv1 := by
    have hgpos : 0 < g := zero_lt_one.trans_le hg
    have hquotient : 0 ≤ v / g := div_nonneg hv hgpos.le
    -- With `s` the root of `v` and `r` that of `v / g`, the square of `s` is `g` times that of `r`.
    let r := Scalar.sqrt (v / g)
    let s := Scalar.sqrt v
    have hr : 0 ≤ r := ExactScalar.sqrt_nonneg _
    have hs : 0 ≤ s := ExactScalar.sqrt_nonneg _
    have hrr : r * r = v / g := ExactScalar.sqrt_mul_self _ hquotient
    have hss : s * s = g * (r * r) := by
      rw [hrr, mul_div_cancel₀ v hgpos.ne']
      exact ExactScalar.sqrt_mul_self v hv
    have hrs : r ≤ s := by
      rw [mul_self_le_mul_self_iff hr hs, hss]
      exact le_mul_of_one_le_left (mul_self_nonneg r) hg
    have hr1 : r ≤ 1 := by
      rw [mul_self_le_mul_self_iff hr zero_le_one, hrr, one_mul, div_le_one hgpos]
      exact hv1.trans hg
    have hgap : g * r - s ≤ g - 1 := calc
      g * r - s ≤ g * r - r := sub_le_sub_left hrs _
      _ = (g - 1) * r := by ring
      _ ≤ g - 1 := mul_le_of_le_one_right (sub_nonneg.mpr hg) hr1
    show 1 - s ≤ g * (1 - r)
    linarith

theorem tradeOff_square : TradeOff fun v : α => 1 - v * v where
  falls hv hvw := sub_lt_sub_left (mul_self_lt_mul_self hv hvw) 1
  raised {g v} hg hv hv1 := by
    have hgpos : 0 < g := zero_lt_one.trans_le hg
    have hquotient : g * (v / g * (v / g)) ≤ v * v := by
      have hcancel : g * (v / g * (v / g)) = v * (v / g) := by
        rw [← mul_assoc, mul_div_cancel₀ v hgpos.ne']
      rw [hcancel]
      exact mul_le_mul_of_nonneg_left (div_le_self hv hg) hv
    calc 1 - v * v ≤ g - v * v := sub_le_sub_right hg _
      _ ≤ g - g * (v / g * (v / g)) := sub_le_sub_left hquotient g
      _ = g * (1 - v / g * (v / g)) := by ring

/-! ## Answers -/

section

variable {shape : α → α} {v w : α} {others : List α}

theorem distance_vector (v : α) (others : List α) :
    distance (.vector (v :: others)) = 1 + 9 * others.sum / (others.length : α) := by
  have hcount : (((others.length + 1 : Nat) : Int) - 1 : Int) = (others.length : Int) := by omega
  rw [distance, Vector.total_eq_sum]
  change 1 + ((9 : Nat) : α) * others.sum / ((((others.length + 1 : Nat) : Int) - 1 : Int) : α) = _
  rw [hcount, Nat.cast_ofNat, Int.cast_natCast]

theorem one_le_distance (hothers : ∀ x ∈ others, 0 ≤ x) : 1 ≤ distance (.vector (v :: others)) := by
  rw [distance_vector, le_add_iff_nonneg_right]
  exact div_nonneg (mul_nonneg (Nat.ofNat_nonneg 9) (List.sum_nonneg hothers))
    (Nat.cast_nonneg _)

theorem distance_on_front (v : α) (count : Nat) :
    distance (.vector (v :: List.replicate count 0)) = 1 := by
  rw [distance_vector, List.sum_replicate, smul_zero, mul_zero, zero_div, add_zero]

theorem response_vector (shape : α → α) (v : α) (others : List α) :
    let g := distance (.vector (v :: others))
    response (fun _ => shape) (.vector (v :: others)) = .ok (.vector [v, g * shape (v / g)]) := by
  have hfirst : ((Tensor.vector (v :: others)).part? 0 : Except (Fault α) (Tensor α)) =
      .ok (.scalar v) := by
    simp [Tensor.part?, Tensor.leading, Tensor.vector, Vector.position?, Tensor.size,
      Tensor.scalar]
  rw [response, hfirst, ok_bind]
  simp [Tensor.join, Tensor.scalar, Tensor.map, Tensor.vector, Tensor.depthLimit]

/-! ## No answer dominates a point of the curve -/

theorem dominates_pair {a b c d : α} :
    dominates [a, b] [c, d] = true ↔ a ≤ c ∧ b ≤ d ∧ (a < c ∨ b < d) := by
  simp [dominates, nowhereWorse, somewhereBetter, and_assoc]

/-- Nothing on or above a curve that falls dominates a point of it. -/
theorem TradeOff.not_dominates (h : TradeOff shape) {b : α} (hv : 0 ≤ v) (hb : shape v ≤ b) :
    dominates [v, b] [w, shape w] = false := by
  rw [Bool.eq_false_iff, ne_eq, dominates_pair]
  rintro ⟨hvw, hbw, hbetter⟩
  rcases hvw.lt_or_eq with hlt | rfl
  · exact (h.falls hv hlt).not_ge (hb.trans hbw)
  · exact hbetter.elim (lt_irrefl v) fun hlt => (hb.trans_lt hlt).false

end

theorem curve_pairwise {shape : α → α} (h : TradeOff shape) (count : Nat) :
    (curve shape 1 count).Pairwise fun a b =>
      dominates a b = false ∧ dominates b a = false ∧ a ≠ b := by
  rw [curve, List.pairwise_map]
  refine (Vector.spaced_increasing count).imp_of_mem fun {v w} hv hw hvw => ⟨?_, ?_, ?_⟩
  · exact h.not_dominates (Vector.spaced_between v hv).1 le_rfl
  · exact h.not_dominates (Vector.spaced_between w hw).1 le_rfl
  · exact fun heq => hvw.ne (List.head_eq_of_cons_eq heq)

theorem mask_curve {shape : α → α} (h : TradeOff shape) (count : Nat) :
    nondominatedMask (curve shape 1 count) = List.replicate count true := by
  refine List.eq_replicate_iff.mpr ⟨?_, fun mark hmark => ?_⟩
  · rw [nondominatedMask, List.length_map, curve, List.length_map, Vector.length_spaced]
  · rw [nondominatedMask, List.mem_map] at hmark
    obtain ⟨b, hb, rfl⟩ := hmark
    rw [Bool.not_eq_true', dominatedBy, List.any_eq_false]
    intro a ha
    obtain ⟨v, hv, rfl⟩ := List.mem_map.mp ha
    obtain ⟨w, hw, rfl⟩ := List.mem_map.mp hb
    rw [Bool.not_eq_true]
    exact h.not_dominates (Vector.spaced_between v hv).1 le_rfl

end Zdt

/-! ## Reference sets -/

section

variable {ι X : Type} {look : ι → Solution X α} {p : Policy α}

/-- What would leave the members apart is taken in. -/
theorem Container.add_of_apart {members : List ι} {s : ι}
    (h : (⟨p, members ++ [s]⟩ : Container ι α).Apart look) :
    add look ⟨p, members⟩ s = .ok (⟨p, members ++ [s]⟩, true) :=
  add_of_free fun m hm => (List.pairwise_append.mp h).2.2 m hm s (List.mem_singleton_self s)

theorem Container.addAll_of_apart {members ss : List ι} (hne : ss ≠ [])
    (h : (⟨p, members ++ ss⟩ : Container ι α).Apart look) :
    addAll look ⟨p, members⟩ ss = (⟨p, members ++ ss⟩, .ok true) := by
  induction ss generalizing members with
  | nil => exact absurd rfl hne
  | cons s rest ih =>
    have hsplit : members ++ s :: rest = members ++ [s] ++ rest := by simp
    rw [hsplit] at h ⊢
    rw [addAll, add_of_apart (List.Pairwise.sublist (List.sublist_append_left _ rest) h)]
    cases rest with
    | nil => simp [addAll, Except.map]
    | cons t rest =>
      simp only [ih (List.cons_ne_nil t rest) h]
      rfl

end

namespace Configuration

/-- A row as a point of a reference set. -/
def pointOf (row : List α) : Solution (List α) α := ⟨[], row, [], []⟩

omit [ExactScalar α] in
theorem referencePoints_rows [Scalar α] {rows : List (List α)} {width : Nat}
    (hrows : ∀ row ∈ rows, row.length = width) :
    referencePoints ⟨[rows.length, width], rows.flatten⟩ = .ok (rows.map pointOf) := by
  have hparts : (⟨[rows.length, width], rows.flatten⟩ : Tensor α).parts =
      rows.map fun row => ⟨[width], row⟩ := by
    have hsize : Tensor.size [width] = width := Nat.one_mul width
    simp only [Tensor.parts, hsize, Tensor.chunks_flatten hrows]
  rw [referencePoints, if_neg (by simp), hparts, List.mapM_map]
  exact mapM_ok fun row _ => rfl

/-- Without constraints and without tolerance, points tie and are apart unless one of them
dominates or repeats the other. -/
theorem pointOf_apart {rows : List (List α)} {width : Nat}
    (hrows : ∀ row ∈ rows, row.length = width)
    (h : rows.Pairwise fun a b => dominates a b = false ∧ dominates b a = false ∧ a ≠ b) :
    (⟨.nondominated .standard (some 0), rows.map pointOf⟩ :
      Container (Solution (List α) α) α).Apart id := by
  refine List.pairwise_map.mpr (h.imp_of_mem fun {a b} ha hb hab => ?_)
  have hlength : b.length = a.length := (hrows b hb).trans (hrows a ha).symm
  constructor
  · change Comparator.standard.compare (pointOf b) (pointOf a) = _
    rw [Comparator.compare_standard, afterViolation_eq_iff, compareViolation_eq_iff]
    refine ⟨by simp [pointOf, Solution.violation], ?_⟩
    change dominanceOrder b a = _
    rw [dominanceOrder_of_length_eq hlength, hab.1, hab.2.1]
    rfl
  · change Policy.within (some 0) b a = _
    rw [Policy.within_zero hlength, decide_eq_false hab.2.2.symm]

end Configuration

/-! ## The registered fronts -/

/-- Each row of the first two fronts, at any resolution, is the answer to variables that are
all zero but the first, and no variables in `[0, 1]` have an answer that dominates a row.  So
the rows do not dominate each other, the mask marks all of them, and an archive without
tolerance that is offered the points of the front takes in one after another. -/
theorem ZdtProblem.front_attained_undominated {p : ZdtProblem} (hp : p = .zdt1 ∨ p = .zdt2)
    {count : Nat} (hcount : 1 ≤ count) :
    let front : List (List α) := p.front count
    let policy : Policy α := .nondominated .standard (some 0)
    let points := front.map Configuration.pointOf
    (∀ x : List α, 2 ≤ x.length → (∀ v ∈ x, 0 ≤ v ∧ v ≤ 1) →
      ∃ v w, p.response (.vector x) = .ok (.vector [v, w]) ∧
        ∀ row ∈ front, dominates [v, w] row = false) ∧
    (∀ row ∈ front, ∃ v w, row = [v, w] ∧ 0 ≤ v ∧ v ≤ 1 ∧ ∀ others, 1 ≤ others →
      p.response (.vector (v :: List.replicate others 0)) = .ok (.vector row)) ∧
    (front.Pairwise fun a b => dominates a b = false ∧ dominates b a = false) ∧
    nondominatedMask front = List.replicate count true ∧
    Configuration.referencePoints ⟨[count, 2], front.flatten⟩ = .ok points ∧
    (∀ earlier point later, points = earlier ++ point :: later →
      Container.add id ⟨policy, earlier⟩ point = .ok (⟨policy, earlier ++ [point]⟩, true)) ∧
    (Container.empty policy).addAll id points = (⟨policy, points⟩, .ok true) := by
  intro front policy points
  obtain ⟨shape, hshape, hresponse, hfront⟩ : ∃ shape : α → α, Zdt.TradeOff shape ∧
      p.response = Zdt.response (fun _ => shape) ∧ front = Zdt.curve shape 1 count := by
    rcases hp with rfl | rfl
    · exact ⟨_, Zdt.tradeOff_sqrt, rfl, rfl⟩
    · exact ⟨_, Zdt.tradeOff_square, rfl, rfl⟩
  have hpairs := hfront ▸ Zdt.curve_pairwise hshape count
  have hrows : ∀ row ∈ front, ∃ v, 0 ≤ v ∧ v ≤ 1 ∧ row = [v, shape v] := by
    rw [hfront, Zdt.curve, List.forall_mem_map]
    exact fun v hv => ⟨v, (Vector.spaced_between v hv).1, (Vector.spaced_between v hv).2, rfl⟩
  have hwidth : ∀ row ∈ front, row.length = 2 := by
    rw [hfront, Zdt.curve, List.forall_mem_map]
    exact fun v _ => rfl
  have hlength : front.length = count := by
    rw [hfront, Zdt.curve, List.length_map, Vector.length_spaced]
  have hapart : (⟨policy, points⟩ : Container (Solution (List α) α) α).Apart id :=
    Configuration.pointOf_apart hwidth hpairs
  refine ⟨fun x hx hunit => ?_, fun row hrow => ?_, hpairs.imp fun h => ⟨h.1, h.2.1⟩, ?_, ?_,
    fun earlier point later hsplit => ?_, ?_⟩
  · obtain ⟨v, others, rfl⟩ := List.exists_cons_of_length_pos (zero_lt_two.trans_le hx)
    rw [List.forall_mem_cons] at hunit
    refine ⟨v, _, by rw [hresponse, Zdt.response_vector], fun row hrow => ?_⟩
    obtain ⟨w, -, -, rfl⟩ := hrows row hrow
    exact hshape.not_dominates hunit.1.1
      (hshape.raised (Zdt.one_le_distance fun y hy => (hunit.2 y hy).1) hunit.1.1 hunit.1.2)
  · obtain ⟨v, hv, hv1, rfl⟩ := hrows row hrow
    refine ⟨v, shape v, rfl, hv, hv1, fun others _ => ?_⟩
    rw [hresponse, Zdt.response_vector, Zdt.distance_on_front, div_one, one_mul]
  · rw [hfront]
    exact Zdt.mask_curve hshape count
  · rw [← hlength]
    exact Configuration.referencePoints_rows hwidth
  · have hpart : (earlier ++ [point]).Sublist points := by
      rw [hsplit]
      simp
    exact Container.add_of_apart (List.Pairwise.sublist hpart hapart)
  · have hne : points ≠ [] := List.ne_nil_of_length_pos (by
      rw [List.length_map, hlength]
      exact hcount)
    have hall : (⟨policy, [] ++ points⟩ : Container (Solution (List α) α) α).Apart id := hapart
    exact Container.addAll_of_apart hne hall

/-- Three points of the second front, and variables whose answer lies above the middle one. -/
theorem ZdtProblem.front_attained_undominated_three :
    let front : List (List ℝ) := [[0, 1], [1 / 2, 3 / 4], [1, 0]]
    ZdtProblem.zdt2.front 3 = front ∧ nondominatedMask front = [true, true, true] ∧
      (∃ v w, ZdtProblem.zdt2.response (.vector [1 / 2, 1 / 9]) = .ok (.vector [v, w]) ∧
        ∀ row ∈ front, dominates [v, w] row = false) ∧
      (Container.empty (.nondominated .standard (some 0))).addAll id
        (front.map Configuration.pointOf) =
          (⟨.nondominated .standard (some 0), front.map Configuration.pointOf⟩, .ok true) := by
  intro front
  have hfront : ZdtProblem.zdt2.front 3 = front := by
    norm_num [ZdtProblem.front, Zdt.front2, Zdt.curve, Vector.spaced_unit, front,
      List.range_succ]
  obtain ⟨hfree, -, -, hmask, -, -, hall⟩ :=
    front_attained_undominated (α := ℝ) (p := .zdt2) (Or.inr rfl) (show 1 ≤ 3 by decide)
  rw [hfront] at hfree hmask hall
  refine ⟨hfront, hmask, hfree [1 / 2, 1 / 9] le_rfl ?_, hall⟩
  norm_num

end ParetoSearch
