import ParetoSearch.Proofs.Arithmetic.Extended
import ParetoSearch.Proofs.Variation.Mutation

/-!
# Mutation of a variable that is fixed

A variable with one limit for both has no room to move, and polynomial mutation measures its
place in that room: zero over zero.  What is then not a number goes through every power and is
not brought back by clipping.  Nothing else is in the way of the limits: a variable with room,
or one that is not selected, ends up at a number between them.

The rules are those without rounding, around which what is not a number behaves as it does
among doubles (`Extended`).  There the moves of a variable with room are those of exact numbers
(`moved_finite`).  That doubles do the same to a fixed variable is shown at the end.
-/

namespace ParetoSearch

variable {σ : Type}

namespace PolynomialMutation

open Extended (finite nan)
open Scalar (half two)

/-- The same mutation where values may be infinite, or no number at all. -/
noncomputable def extended (m : PolynomialMutation ℝ) : PolynomialMutation (Extended ℝ) :=
  ⟨finite m.eta, m.probability.map finite, ⟨m.bounds.lower.map finite, m.bounds.upper.map finite⟩⟩

variable {m : PolynomialMutation ℝ} {l u x r t : ℝ}

theorem limits_extended {i : Nat} (h : m.bounds.Limits i l u) :
    m.extended.bounds.Limits i (finite l) (finite u) := by
  refine ⟨?_, ?_⟩
  · exact (Vector.atPlace?_map finite _ i).trans (congrArg (Option.map finite) h.1)
  · exact (Vector.atPlace?_map finite _ i).trans (congrArg (Option.map finite) h.2)

theorem spans_extended {n : Nat} (h : m.bounds.Spans n) : m.extended.bounds.Spans n := by
  unfold Bounds.Spans Vector.Spans at h ⊢
  simpa [extended] using h

/-- There is no share of a room that has no width. -/
theorem moved_fixed (m : PolynomialMutation ℝ) (l : ℝ) (r : Extended ℝ) :
    m.extended.moved (finite l) (finite l) (finite l) r = nan := by
  have hshare : (finite l - finite l) / (finite l - finite l) = nan := by
    rw [Extended.finite_sub, sub_self, Extended.zero_div_zero]
  simp [moved, down, up, hshare]

section

variable (heta : 0 ≤ m.eta)

include heta

theorem exponent_extended : m.extended.exponent = finite m.exponent :=
  Extended.finite_div 1 (by positivity : m.eta + 1 ≠ 0)

theorem power_share (ht : 0 ≤ t) :
    Scalar.power (finite t) (m.extended.eta + 1) = finite (Scalar.power t (m.eta + 1)) ∧
      0 ≤ Scalar.power t (m.eta + 1) := by
  have hpositive : 0 < m.eta + 1 := by positivity
  refine ⟨Extended.power_finite ht hpositive, ?_⟩
  rw [Scalar.power_eq_rpow t hpositive]
  exact Real.rpow_nonneg ht _

theorem power_exponent (ht : 0 ≤ t) :
    Scalar.power (finite t) m.extended.exponent = finite (Scalar.power t m.exponent) := by
  rw [exponent_extended heta]
  exact Extended.power_finite ht (one_div_pos.mpr (by positivity))

theorem down_finite (h0 : 0 ≤ r) (hr : r < 1 / 2) (ht : 0 ≤ t) :
    m.extended.down (finite r) (finite t) = finite (m.down r t) := by
  obtain ⟨hpower, hnonneg⟩ := power_share heta ht
  have hbase : 0 ≤ two * r + (1 - two * r) * Scalar.power t (m.eta + 1) := by
    have hweight : 0 ≤ 1 - 2 * r := by linarith
    rw [Scalar.two_eq]
    positivity
  rw [down, hpower, Extended.two_eq_finite, Extended.one_eq]
  simp only [Extended.finite_mul, Extended.finite_sub, Extended.finite_add]
  rw [power_exponent heta hbase, Extended.finite_sub]
  rfl

theorem up_finite (hr : 1 / 2 ≤ r) (h1 : r < 1) (ht : 0 ≤ t) :
    m.extended.up (finite r) (finite t) = finite (m.up r t) := by
  obtain ⟨hpower, hnonneg⟩ := power_share heta ht
  have hbase : 0 ≤ two * (1 - r) + two * (r - half) * Scalar.power t (m.eta + 1) := by
    have hweight : 0 ≤ 1 - r := by linarith
    have hweight' : 0 ≤ r - 1 / 2 := by linarith
    rw [Scalar.two_eq, Scalar.half_eq]
    positivity
  rw [up, hpower, Extended.two_eq_finite, Extended.half_eq_finite, Extended.one_eq]
  simp only [Extended.finite_mul, Extended.finite_sub, Extended.finite_add]
  rw [power_exponent heta hbase, Extended.finite_sub]
  rfl

/-- With room between the limits nothing but finite numbers occurs. -/
theorem moved_finite (hlu : l < u) (hl : l ≤ x) (hu : x ≤ u) (h0 : 0 ≤ r) (h1 : r < 1) :
    m.extended.moved (finite l) (finite u) (finite x) (finite r) = finite (m.moved l u x r) := by
  have hwidth : u - l ≠ 0 := (sub_pos.mpr hlu).ne'
  -- The share of the far side is not negative, so every power is taken of a finite base.
  simp only [moved, Extended.finite_sub, Extended.finite_div _ hwidth, Extended.one_eq,
    Extended.half_eq_finite, Extended.finite_lt_finite, Scalar.half_eq]
  split
  case isTrue hr =>
    have hshare : 0 ≤ 1 - (x - l) / (u - l) :=
      sub_nonneg.mpr ((div_le_one (sub_pos.mpr hlu)).mpr (sub_le_sub_right hu l))
    rw [down_finite heta h0 hr hshare]
    rfl
  case isFalse hr =>
    have hshare : 0 ≤ 1 - (u - x) / (u - l) :=
      sub_nonneg.mpr ((div_le_one (sub_pos.mpr hlu)).mpr (sub_le_sub_left hl u))
    rw [up_finite heta (not_lt.mp hr) h1 hshare]
    rfl

/-- What becomes of a variable once it is settled and clipped. -/
theorem clip_settle (hl : l ≤ x) (hu : x ≤ u) (picked : Bool) (h0 : 0 ≤ r) (h1 : r < 1) :
    (picked = true → l = u → Scalar.clip (m.extended.settle (finite x, finite l, finite u)
        (picked, finite r)) (finite l) (finite u) = nan) ∧
    ((picked = true → l ≠ u) →
      (l ≤ m.settle (x, l, u) (picked, r) ∧ m.settle (x, l, u) (picked, r) ≤ u) ∧
      Scalar.clip (m.extended.settle (finite x, finite l, finite u) (picked, finite r))
        (finite l) (finite u) = finite (m.settle (x, l, u) (picked, r))) := by
  constructor
  · rintro rfl rfl
    obtain rfl := le_antisymm hl hu
    rw [settle, if_pos rfl, moved_fixed, Extended.clip_nan]
  · intro hfree
    cases picked with
    | false => exact ⟨⟨hl, hu⟩, Extended.clip_finite hl hu⟩
    | true =>
      have hlu : l < u := lt_of_le_of_ne (hl.trans hu) (hfree rfl)
      have hwithin := settle_between heta hlu hl hu true h0 h1
      refine ⟨hwithin, ?_⟩
      rw [settle, if_pos rfl, moved_finite heta hlu hl hu h0 h1]
      exact Extended.clip_finite hwithin.1 hwithin.2

end

/-- A selected variable whose limits are equal is not a number afterwards.  Every other variable
goes where it goes among exact numbers, which is between its limits. -/
theorem mutate_within_unless_fixed (heta : 0 ≤ m.eta) {xs : List ℝ}
    (hspans : m.bounds.Spans xs.length) (hxs : m.bounds.Holds xs)
    {dice : Dice σ (Extended ℝ)} (hdice : dice.InUnit) (s : σ) :
    (m.extended.mutate dice (.vector (xs.map finite))).Ends s
      (fun y _ => ∃ ys chance, y = .vector ys ∧ ys.length = xs.length ∧
        m.extended.chance xs.length = .ok chance ∧
        ∀ i x l u, xs[i]? = some x → m.bounds.Limits i l u → ∃ pick r,
          (dice.roll xs.length s).1[i]? = some pick ∧
          (dice.roll xs.length (dice.roll xs.length s).2).1[i]? = some (finite r) ∧
          (pick < chance → l = u → ys[i]? = some nan) ∧
          ((pick < chance → l ≠ u) → ∃ y, ys[i]? = some (finite y) ∧ l ≤ y ∧ y ≤ u ∧
            y = m.settle (x, l, u) (decide (pick < chance), r)))
      fun e _ => e = .divisionByZero ∧ xs = [] ∧ m.probability = none := by
  have hlength : (xs.map finite).length = xs.length := List.length_map finite
  have hspans' : m.extended.bounds.Spans (xs.map finite).length :=
    hlength.symm ▸ spans_extended hspans
  have hends := mutate_ends hspans' hdice s
  rw [hlength] at hends
  refine hends.mono ?_ ?_
  · rintro y - ⟨ys, chance, rfl, hys, hchance, hentry⟩
    refine ⟨ys, chance, rfl, hys, hchance, fun i x l u hx hlimit => ?_⟩
    have hx' : (xs.map finite)[i]? = some (finite x) := by
      rw [List.getElem?_map, hx, Option.map_some]
    obtain ⟨pick, r, hpick, hr, hy⟩ := hentry i _ _ _ hx' (limits_extended hlimit)
    obtain ⟨hnonneg, hbelow⟩ := (hdice _ _).2 r (List.mem_of_getElem? hr)
    obtain ⟨r, rfl, h0, h1⟩ := Extended.exists_finite hnonneg hbelow
    obtain ⟨hl, hu⟩ := hxs i x l u hx hlimit
    obtain ⟨hfixed, hfree⟩ := clip_settle heta hl hu (decide (pick < chance)) h0 h1
    refine ⟨pick, r, hpick, hr, fun hpicked hlu => ?_, fun hroom => ?_⟩
    · rcases hy with hy | ⟨hnot, -⟩
      · rw [hy, hfixed (decide_eq_true hpicked) hlu]
      · exact absurd hpicked hnot
    · obtain ⟨⟨hleast, hmost⟩, hclip⟩ := hfree fun h => hroom (of_decide_eq_true h)
      refine ⟨_, ?_, hleast, hmost, rfl⟩
      rcases hy with hy | ⟨hnot, hy⟩
      · rw [hy, hclip]
      · rw [hy, settle, decide_eq_false hnot]
        rfl
  · rintro e - ⟨he, hnil, hnone⟩
    exact ⟨he, List.map_eq_nil_iff.mp hnil, Option.map_eq_none_iff.mp hnone⟩

/-- The first variable is fixed and the second is not; both are selected. -/
noncomputable def pinned : PolynomialMutation ℝ := ⟨1, some 1, ⟨[1, 0], [1, 1]⟩⟩

theorem mutate_within_unless_fixed_pinned :
    0 ≤ pinned.eta ∧ pinned.bounds.Spans 2 ∧ pinned.bounds.Holds [1, 1] ∧
      (Dice.quarters : Dice Nat (Extended ℝ)).InUnit ∧
      ∃ y s', (pinned.extended.mutate .quarters (.vector [finite 1, finite 1])).run.run 0 =
        (.ok (.vector [nan, finite y]), s') ∧ 0 ≤ y ∧ y ≤ 1 := by
  have heta : 0 ≤ pinned.eta := zero_le_one
  have hspans : pinned.bounds.Spans ([1, 1] : List ℝ).length := ⟨Or.inr rfl, Or.inr rfl⟩
  have hxs : pinned.bounds.Holds [1, 1] := Bounds.holds_pair (by norm_num) (by norm_num)
  have hdice : (Dice.quarters : Dice Nat (Extended ℝ)).InUnit := by
    refine Dice.inUnit_quarters fun q hq => ?_
    have hfour : (0 : ℝ) < (4 : Nat) := Nat.cast_pos.mpr (Nat.succ_pos 3)
    rw [Extended.ratio_eq_finite q (Nat.succ_ne_zero 3)]
    refine ⟨Extended.finite_le_finite.mpr ?_, Extended.finite_lt_finite.mpr ?_⟩
    · exact div_nonneg (Nat.cast_nonneg q) hfour.le
    · exact (div_lt_one hfour).mpr (Nat.cast_lt.mpr hq)
  obtain ⟨-, s', hrun, ys, chance, rfl, hlength, hchance, hys⟩ :=
    (mutate_within_unless_fixed heta hspans hxs hdice 0).run
      fun _ _ h => absurd h.2.1 (List.cons_ne_nil 1 [1])
  obtain rfl : 1 = chance := Except.ok.inj hchance
  obtain ⟨x, z, rfl⟩ := List.length_eq_two.mp hlength
  obtain ⟨pick, -, hpick, -, hfixed, -⟩ := hys 0 1 1 1 rfl ⟨rfl, rfl⟩
  obtain ⟨other, r, -, -, -, hfree⟩ := hys 1 1 0 1 rfl ⟨rfl, rfl⟩
  have hbelow := ((hdice 2 0).2 pick (List.mem_of_getElem? hpick)).2
  obtain rfl : x = nan := Option.some.inj (hfixed hbelow rfl)
  obtain ⟨y, hy, hl, hu, -⟩ := hfree fun _ => zero_ne_one
  obtain rfl : z = finite y := Option.some.inj hy
  exact ⟨heta, hspans, hxs, hdice, y, s', hrun, hl, hu⟩

set_option maxRecDepth 2000 in
/-- A fixed variable of doubles: it lies within its bounds, and its mutation is not a number. -/
theorem mutate_fixed_double :
    let m : PolynomialMutation Float := ⟨1, some 1, ⟨[0.5], [0.5]⟩⟩
    0 ≤ m.eta ∧ m.bounds.Spans 1 ∧ m.bounds.Holds [0.5] ∧ (0 : Float) ≤ 0.25 ∧ (0.25 : Float) < 1 ∧
      ∃ y s', (m.mutate .ofSource (.vector [0.5])).run.run (Source.ofList [0.25]) =
        (.ok (.vector [y]), s') ∧ Scalar.isNumber y = false := by
  refine ⟨by decide, ⟨Or.inl rfl, Or.inl rfl⟩, ?_, by decide, by decide, ?_⟩
  · refine Bounds.holds_of_entries rfl fun i l u hi hlimit => ?_
    obtain rfl : i = 0 := Nat.lt_one_iff.mp hi
    obtain rfl := Option.some.inj hlimit.1
    obtain rfl := Option.some.inj hlimit.2
    exact ⟨0.5, rfl, by decide, by decide⟩
  · with_unfolding_all exact ⟨_, _, rfl, rfl⟩

end PolynomialMutation
end ParetoSearch
