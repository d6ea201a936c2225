import ParetoSearch.Proofs.Variation.Bounds
import ParetoSearch.Variation.Mutation

/-!
# Where polynomial mutation moves a variable

A selected variable moves down on a draw below one half and up on any other.  How far is said by
a power mean of two numbers: one, and the share of the room between the limits that lies on the
far side of the variable.  The draw gives the weights (`mean`).  A mean lies between the numbers
it is a mean of, so the variable stops at the limit it moves towards (`moved_between_below`,
`moved_between_above`), and it grows with the weight of the greater, so a greater draw goes no
lower (`moved_monotone`).

What a run makes of its draws is stated for numbers of any kind (`mutate_ends`).  Over the reals
it leaves nothing to clip (`mutate_settles`).
-/

namespace ParetoSearch

variable {σ α : Type}

namespace PolynomialMutation

/-! ## Variable by variable -/

section

variable [Scalar α] {m : PolynomialMutation α} {xs : List α}

theorem apply_vector (hspans : m.bounds.Spans xs.length) {selected : List Bool} {us : List α}
    (hselected : selected.length = xs.length) (hus : us.length = xs.length) :
    ∃ ys, m.apply selected us (.vector xs) = .ok (.vector ys) ∧ ys.length = xs.length ∧
      ∀ i x l u picked r, xs[i]? = some x → m.bounds.Limits i l u → selected[i]? = some picked →
        us[i]? = some r → ys[i]? = some (Scalar.clip (m.settle (x, l, u) (picked, r)) l u) := by
  obtain ⟨pairs, hpairs, hpairsSpan, hlimits⟩ := Bounds.pairs_spans hspans
  obtain ⟨cells, hcells, hcellsLength, hcell⟩ := Tensor.pairUp_vectors (α := α) rfl hpairsSpan
  have hdraws : (selected.zip us).length = xs.length := by
    rw [List.length_zip, hselected, hus, Nat.min_self]
  obtain ⟨settled, hsettle, hsettledLength, hsettled⟩ :=
    Tensor.combine_vectors (α := α) m.settle hcellsLength (Or.inr hdraws)
  obtain ⟨ys, hclip, hlength, hentry⟩ := Bounds.clip_vector hspans hsettledLength
  refine ⟨ys, ?_, hlength, fun i x l u picked r hx hlimit hpicked hr => ?_⟩
  · rw [apply, hpairs, ok_bind, hcells, ok_bind, hsettle, ok_bind, hclip]
  · have hi : i < xs.length := (List.getElem?_eq_some_iff.mp hx).1
    have hdraw : Vector.atPlace? (selected.zip us) i = some (picked, r) := by
      rw [Vector.atPlace?_eq hdraws hi]
      exact List.getElem?_zip_eq_some.mpr ⟨hpicked, hr⟩
    exact hentry i _ l u (hsettled i _ _ (hcell i x _ hx (hlimits i l u hlimit)) hdraw) hlimit

theorem of_chance_error {n : Nat} {e : Fault α} (h : m.chance n = .error e) :
    e = .divisionByZero ∧ n = 0 ∧ m.probability = none := by
  unfold chance at h
  split at h
  case h_1 => cases h
  case h_2 hnone =>
    split at h
    case isTrue hzero =>
      cases h
      exact ⟨rfl, hzero, hnone⟩
    case isFalse => cases h

/-- Every variable ends up where its two draws send it, clipped to its limits; where no
variable is selected nothing is even clipped.  Only a chance of one in no variables is a
fault. -/
theorem mutate_ends (hspans : m.bounds.Spans xs.length) {dice : Dice σ α} (hdice : dice.InUnit)
    (s : σ) :
    (m.mutate dice (.vector xs)).Ends s
      (fun y _ => ∃ ys chance, y = .vector ys ∧ ys.length = xs.length ∧
        m.chance xs.length = .ok chance ∧
        ∀ i x l u, xs[i]? = some x → m.bounds.Limits i l u → ∃ pick r,
          (dice.roll xs.length s).1[i]? = some pick ∧
          (dice.roll xs.length (dice.roll xs.length s).2).1[i]? = some r ∧
          (ys[i]? = some (Scalar.clip (m.settle (x, l, u) (decide (pick < chance), r)) l u) ∨
            ¬ pick < chance ∧ ys[i]? = some x))
      fun e _ => e = .divisionByZero ∧ xs = [] ∧ m.probability = none := by
  obtain ⟨hpicks, -⟩ := hdice xs.length s
  obtain ⟨hus, -⟩ := hdice xs.length (dice.roll xs.length s).2
  have hlength : (Tensor.vector xs).length? = (.ok xs.length : Except (Fault α) Nat) := rfl
  rw [Work.Ends, mutate, Work.run_bind (Work.run_lift hlength s),
    Work.run_bind (dice.draws_run xs.length s)]
  cases hchance : m.chance xs.length with
  | error e =>
    obtain ⟨he, hzero, hnone⟩ := of_chance_error hchance
    exact ⟨he, List.length_eq_zero_iff.mp hzero, hnone⟩
  | ok chance =>
    rw [Work.run_bind (Work.run_lift rfl _)]
    by_cases hnone : (((dice.roll xs.length s).1.map fun u => decide (u < chance)).all (!·)) = true
    -- Without a selected variable nothing more is drawn; what would be drawn next is named all
    -- the same, so that both cases say one thing.
    · rw [if_pos hnone]
      refine ⟨xs, chance, rfl, rfl, rfl, fun i x l u hx hlimit => ?_⟩
      have hi : i < xs.length := (List.getElem?_eq_some_iff.mp hx).1
      have hpick := List.getElem?_eq_getElem (hpicks.symm ▸ hi)
      refine ⟨_, _, hpick, List.getElem?_eq_getElem (hus.symm ▸ hi), Or.inr ⟨?_, hx⟩⟩
      simpa using List.all_eq_true.mp hnone _ (List.mem_map_of_mem (List.mem_of_getElem? hpick))
    · rw [if_neg hnone]
      have hselected : ((dice.roll xs.length s).1.map fun u => decide (u < chance)).length =
          xs.length := (List.length_map _).trans hpicks
      obtain ⟨ys, happly, hys, hentry⟩ := apply_vector hspans hselected hus
      rw [Work.run_bind (dice.draws_run xs.length _), Work.run_lift happly]
      refine ⟨ys, chance, rfl, hys, rfl, fun i x l u hx hlimit => ?_⟩
      have hi : i < xs.length := (List.getElem?_eq_some_iff.mp hx).1
      have hpick := List.getElem?_eq_getElem (hpicks.symm ▸ hi)
      have hr := List.getElem?_eq_getElem (hus.symm ▸ hi)
      refine ⟨_, _, hpick, hr, Or.inl (hentry i x l u _ _ hx hlimit ?_ hr)⟩
      rw [List.getElem?_map, hpick, Option.map_some]

end

/-! ## How far -/

open Scalar (half two_eq half_eq power_eq_rpow)

/-- The power mean of one, with weight `w`, and of the share `t`. -/
noncomputable def mean (eta w t : ℝ) : ℝ := (w + (1 - w) * t ^ (eta + 1)) ^ (1 / (eta + 1))

section

variable {eta w w' t : ℝ} (heta : 0 ≤ eta) (ht : 0 ≤ t)

include heta ht

theorem mean_zero : mean eta 0 t = t := by
  have hpositive : eta + 1 ≠ 0 := by positivity
  rw [mean, zero_add, sub_zero, one_mul, one_div, Real.rpow_rpow_inv ht hpositive]

variable (hone : t ≤ 1)

include hone

theorem mean_mono (hw : 0 ≤ w) (hww' : w ≤ w') : mean eta w t ≤ mean eta w' t := by
  -- One is the greater of the two, so its weight is what counts.
  have hpower : t ^ (eta + 1) ≤ 1 := Real.rpow_le_one ht hone (by positivity)
  have hnonneg : 0 ≤ t ^ (eta + 1) := Real.rpow_nonneg ht _
  refine Real.rpow_le_rpow ?_ ?_ (by positivity)
  · nlinarith
  · nlinarith

theorem le_mean (hw : 0 ≤ w) : t ≤ mean eta w t :=
  (mean_zero heta ht).symm.trans_le (mean_mono heta ht hone le_rfl hw)

theorem mean_le_one (hw : 0 ≤ w) (hw' : w ≤ 1) : mean eta w t ≤ 1 := by
  have hmono := mean_mono heta ht hone hw hw'
  rwa [mean, mean, sub_self, zero_mul, add_zero, Real.one_rpow] at hmono

end

/-- A distance as a share of a width that it does not exceed. -/
theorem share_spec {d width : ℝ} (hwidth : 0 < width) (hd : 0 ≤ d) (hle : d ≤ width) :
    0 ≤ d / width ∧ d / width ≤ 1 ∧ (1 - d / width) * width = width - d := by
  refine ⟨div_nonneg hd hwidth.le, (div_le_one hwidth).mpr hle, ?_⟩
  rw [sub_mul, div_mul_cancel₀ _ hwidth.ne', one_mul]

section

variable {m : PolynomialMutation ℝ} (heta : 0 ≤ m.eta)

include heta

theorem down_eq (r t : ℝ) : m.down r t = mean m.eta (2 * r) t - 1 := by
  have hexponent : 0 < m.exponent := one_div_pos.mpr (by positivity)
  rw [down, power_eq_rpow _ hexponent, power_eq_rpow _ (by positivity), two_eq]
  rfl

theorem up_eq (r t : ℝ) : m.up r t = 1 - mean m.eta (2 * (1 - r)) t := by
  have hexponent : 0 < m.exponent := one_div_pos.mpr (by positivity)
  rw [up, power_eq_rpow _ hexponent, power_eq_rpow _ (by positivity), two_eq, half_eq, mean]
  have hweight : 2 * (r - 1 / 2) = 1 - 2 * (1 - r) := by ring
  rw [hweight]
  rfl

variable {l u x r : ℝ} (hlu : l < u)

include hlu

theorem moved_below (hr : r < 1 / 2) :
    m.moved l u x r = x - (1 - mean m.eta (2 * r) ((u - x) / (u - l))) * (u - l) := by
  have hshare : 1 - (x - l) / (u - l) = (u - x) / (u - l) := by
    have hwidth : u - l ≠ 0 := (sub_pos.mpr hlu).ne'
    field_simp
    ring
  simp only [moved, half_eq, if_pos hr, down_eq heta, hshare]
  ring

theorem moved_above (hr : 1 / 2 ≤ r) :
    m.moved l u x r = x + (1 - mean m.eta (2 * (1 - r)) ((x - l) / (u - l))) * (u - l) := by
  have hshare : 1 - (u - x) / (u - l) = (x - l) / (u - l) := by
    have hwidth : u - l ≠ 0 := (sub_pos.mpr hlu).ne'
    field_simp
    ring
  simp only [moved, half_eq, if_neg (not_lt.mpr hr), up_eq heta, hshare]

variable (hl : l ≤ x) (hu : x ≤ u)

include hl hu

theorem moved_between_below (h0 : 0 ≤ r) (hr : r < 1 / 2) :
    l ≤ m.moved l u x r ∧ m.moved l u x r ≤ x := by
  obtain ⟨ht, hone, hreach⟩ :=
    share_spec (sub_pos.mpr hlu) (sub_nonneg.mpr hu) (sub_le_sub_left hl u)
  have hwidth : 0 ≤ u - l := sub_nonneg.mpr hlu.le
  have hleast := le_mean heta ht hone (by linarith : 0 ≤ 2 * r)
  have hmost := mean_le_one heta ht hone (by linarith : 0 ≤ 2 * r) (by linarith)
  rw [moved_below heta hlu hr]
  constructor
  · have hstep := mul_le_mul_of_nonneg_right (sub_le_sub_left hleast 1) hwidth
    linarith
  · exact sub_le_self x (mul_nonneg (sub_nonneg.mpr hmost) hwidth)

theorem moved_between_above (hr : 1 / 2 ≤ r) (h1 : r < 1) :
    x ≤ m.moved l u x r ∧ m.moved l u x r ≤ u := by
  obtain ⟨ht, hone, hreach⟩ :=
    share_spec (sub_pos.mpr hlu) (sub_nonneg.mpr hl) (sub_le_sub_right hu l)
  have hwidth : 0 ≤ u - l := sub_nonneg.mpr hlu.le
  have hleast := le_mean heta ht hone (by linarith : 0 ≤ 2 * (1 - r))
  have hmost := mean_le_one heta ht hone (by linarith : 0 ≤ 2 * (1 - r)) (by linarith)
  rw [moved_above heta hlu hr]
  constructor
  · exact le_add_of_nonneg_right (mul_nonneg (sub_nonneg.mpr hmost) hwidth)
  · have hstep := mul_le_mul_of_nonneg_right (sub_le_sub_left hleast 1) hwidth
    linarith

theorem settle_between (picked : Bool) (h0 : 0 ≤ r) (h1 : r < 1) :
    l ≤ m.settle (x, l, u) (picked, r) ∧ m.settle (x, l, u) (picked, r) ≤ u := by
  cases picked with
  | false => exact ⟨hl, hu⟩
  | true =>
    rcases lt_or_ge r (1 / 2) with hr | hr
    · obtain ⟨hleast, hmost⟩ := moved_between_below heta hlu hl hu h0 hr
      exact ⟨hleast, hmost.trans hu⟩
    · obtain ⟨hleast, hmost⟩ := moved_between_above heta hlu hl hu hr h1
      exact ⟨hl.trans hleast, hmost⟩

/-- The draw zero goes all the way down. -/
theorem moved_zero : m.moved l u x 0 = l := by
  obtain ⟨ht, -, hreach⟩ :=
    share_spec (sub_pos.mpr hlu) (sub_nonneg.mpr hu) (sub_le_sub_left hl u)
  rw [moved_below heta hlu (by norm_num), mul_zero, mean_zero heta ht, hreach]
  ring

/-- A greater draw goes no lower. -/
theorem moved_monotone : MonotoneOn (m.moved l u x) (Set.Ico 0 1) := by
  rintro r ⟨h0, -⟩ r' ⟨-, h1⟩ hrr'
  have hwidth : 0 ≤ u - l := sub_nonneg.mpr hlu.le
  rcases lt_or_ge r' (1 / 2) with hr' | hr'
  · have hr : r < 1 / 2 := hrr'.trans_lt hr'
    obtain ⟨ht, hone, -⟩ :=
      share_spec (sub_pos.mpr hlu) (sub_nonneg.mpr hu) (sub_le_sub_left hl u)
    have hmean := mean_mono heta ht hone (by linarith : 0 ≤ 2 * r) (by linarith : 2 * r ≤ 2 * r')
    rw [moved_below heta hlu hr, moved_below heta hlu hr']
    gcongr
  · rcases lt_or_ge r (1 / 2) with hr | hr
    · exact (moved_between_below heta hlu hl hu h0 hr).2.trans
        (moved_between_above heta hlu hl hu hr' h1).1
    · obtain ⟨ht, hone, -⟩ :=
        share_spec (sub_pos.mpr hlu) (sub_nonneg.mpr hl) (sub_le_sub_right hu l)
      have hmean := mean_mono heta ht hone (by linarith : 0 ≤ 2 * (1 - r'))
        (by linarith : 2 * (1 - r') ≤ 2 * (1 - r))
      rw [moved_above heta hlu hr, moved_above heta hlu hr']
      gcongr

end

/-- Between its limits no variable has to be brought there. -/
theorem mutate_settles {m : PolynomialMutation ℝ} (heta : 0 ≤ m.eta) {xs : List ℝ}
    (hspans : m.bounds.Spans xs.length)
    (hwide : ∀ i l u, i < xs.length → m.bounds.Limits i l u → l < u) (hxs : m.bounds.Holds xs)
    {dice : Dice σ ℝ} (hdice : dice.InUnit) (s : σ) :
    (m.mutate dice (.vector xs)).Ends s
      (fun y _ => ∃ ys chance, y = .vector ys ∧ ys.length = xs.length ∧
        m.chance xs.length = .ok chance ∧ m.bounds.Holds ys ∧
        ∀ i x l u, xs[i]? = some x → m.bounds.Limits i l u → ∃ pick r,
          (dice.roll xs.length s).1[i]? = some pick ∧
          (dice.roll xs.length (dice.roll xs.length s).2).1[i]? = some r ∧ 0 ≤ r ∧ r < 1 ∧
          ys[i]? = some (m.settle (x, l, u) (decide (pick < chance), r)))
      fun e _ => e = .divisionByZero ∧ xs = [] ∧ m.probability = none := by
  refine (mutate_ends hspans hdice s).mono ?_ fun _ _ h => h
  rintro y - ⟨ys, chance, rfl, hlength, hchance, hys⟩
  have hsettled : ∀ i x l u, xs[i]? = some x → m.bounds.Limits i l u → ∃ pick r,
      (dice.roll xs.length s).1[i]? = some pick ∧
      (dice.roll xs.length (dice.roll xs.length s).2).1[i]? = some r ∧ 0 ≤ r ∧ r < 1 ∧
      ys[i]? = some (m.settle (x, l, u) (decide (pick < chance), r)) := by
    intro i x l u hx hlimit
    obtain ⟨pick, r, hpick, hr, hy⟩ := hys i x l u hx hlimit
    obtain ⟨h0, h1⟩ := (hdice _ _).2 r (List.mem_of_getElem? hr)
    refine ⟨pick, r, hpick, hr, h0, h1, ?_⟩
    rcases hy with hy | ⟨hnot, hy⟩
    · have hlu := hwide i l u (List.getElem?_eq_some_iff.mp hx).1 hlimit
      obtain ⟨hl, hu⟩ := hxs i x l u hx hlimit
      obtain ⟨hleast, hmost⟩ := settle_between heta hlu hl hu (decide (pick < chance)) h0 h1
      rw [hy, Scalar.clip_eq_self hleast hmost]
    · rw [hy, settle, decide_eq_false hnot]
      rfl
  refine ⟨ys, chance, rfl, hlength, hchance,
    Bounds.holds_of_entries hlength fun i l u hi hlimit => ?_, hsettled⟩
  have hx : xs[i]? = some xs[i] := List.getElem?_eq_getElem hi
  obtain ⟨pick, r, -, -, h0, h1, hsettle⟩ := hsettled i xs[i] l u hx hlimit
  obtain ⟨hl, hu⟩ := hxs i xs[i] l u hx hlimit
  exact ⟨_, hsettle, settle_between heta (hwide i l u hi hlimit) hl hu _ h0 h1⟩

/-- A variable that is not selected stays where it is.  One that is selected moves no further
than its lower limit on a draw below one half and no further than its upper limit on any other,
without being clipped; further down on a smaller draw, and all the way on zero. -/
theorem mutate_moves {m : PolynomialMutation ℝ} (heta : 0 ≤ m.eta) {xs : List ℝ}
    (hspans : m.bounds.Spans xs.length)
    (hwide : ∀ i l u, i < xs.length → m.bounds.Limits i l u → l < u) (hxs : m.bounds.Holds xs)
    {dice : Dice σ ℝ} (hdice : dice.InUnit) (s : σ) :
    (m.mutate dice (.vector xs)).Ends s
      (fun y _ => ∃ ys chance, y = .vector ys ∧ ys.length = xs.length ∧
        m.chance xs.length = .ok chance ∧ m.bounds.clip (.vector ys) = .ok (.vector ys) ∧
        ∀ i x l u, xs[i]? = some x → m.bounds.Limits i l u → ∃ pick r,
          (dice.roll xs.length s).1[i]? = some pick ∧
          (dice.roll xs.length (dice.roll xs.length s).2).1[i]? = some r ∧
          (chance ≤ pick → ys[i]? = some x) ∧
          (pick < chance → ys[i]? = some (m.moved l u x r) ∧
            (r < 1 / 2 → l ≤ m.moved l u x r ∧ m.moved l u x r ≤ x) ∧
            (1 / 2 ≤ r → x ≤ m.moved l u x r ∧ m.moved l u x r ≤ u)))
      (fun e _ => e = .divisionByZero ∧ xs = [] ∧ m.probability = none) ∧
    ∀ l u x, l < u → l ≤ x → x ≤ u →
      MonotoneOn (m.moved l u x) (Set.Ico 0 1) ∧ m.moved l u x 0 = l := by
  refine ⟨(mutate_settles heta hspans hwide hxs hdice s).mono ?_ fun _ _ h => h,
    fun l u x hlu hl hu => ⟨moved_monotone heta hlu hl hu, moved_zero heta hlu hl hu⟩⟩
  rintro y - ⟨ys, chance, rfl, hlength, hchance, hholds, hsettled⟩
  refine ⟨ys, chance, rfl, hlength, hchance, Bounds.clip_of_holds (hlength ▸ hspans) hholds,
    fun i x l u hx hlimit => ?_⟩
  have hlu := hwide i l u (List.getElem?_eq_some_iff.mp hx).1 hlimit
  obtain ⟨hl, hu⟩ := hxs i x l u hx hlimit
  obtain ⟨pick, r, hpick, hr, h0, h1, hsettle⟩ := hsettled i x l u hx hlimit
  refine ⟨pick, r, hpick, hr, fun hnot => ?_, fun hpicked => ⟨?_, fun hlow => ?_, fun hhigh => ?_⟩⟩
  · rw [hsettle, settle, decide_eq_false (not_lt.mpr hnot)]
    rfl
  · rw [hsettle, settle, decide_eq_true hpicked]
    rfl
  · exact moved_between_below heta hlu hl hu h0 hlow
  · exact moved_between_above heta hlu hl hu hhigh h1

/-- The first variable is at its upper limit and the second inside its own. -/
noncomputable def slanted : PolynomialMutation ℝ := ⟨1, some half, ⟨[0, -1], [1, 1]⟩⟩

/-- The draws are three quarters and zero, then a quarter and a half. -/
theorem mutate_moves_slanted :
    0 ≤ slanted.eta ∧ slanted.bounds.Spans 2 ∧
      (∀ i l u, i < 2 → slanted.bounds.Limits i l u → l < u) ∧ slanted.bounds.Holds [1, 0] ∧
      (Dice.quarters : Dice Nat ℝ).InUnit ∧ slanted.moved (-1) 1 0 0 = -1 ∧
      ∃ y s', (slanted.mutate .quarters (.vector [1, 0])).run.run 3 =
        (.ok (.vector [1, y]), s') ∧ 0 ≤ y ∧ y ≤ 1 := by
  have heta : 0 ≤ slanted.eta := zero_le_one
  have hspans : slanted.bounds.Spans ([1, 0] : List ℝ).length := ⟨Or.inr rfl, Or.inr rfl⟩
  have hwide : ∀ i l u, i < 2 → slanted.bounds.Limits i l u → l < u := by
    intro i l u hi h
    rcases Bounds.limits_pair hi h with ⟨-, rfl, rfl⟩ | ⟨-, rfl, rfl⟩ <;> norm_num
  have hxs : slanted.bounds.Holds [1, 0] := Bounds.holds_pair (by norm_num) (by norm_num)
  have hdice : (Dice.quarters : Dice Nat ℝ).InUnit := Dice.inUnit_quarters_exact
  obtain ⟨hends, hmoved⟩ := mutate_moves heta hspans hwide hxs hdice 3
  obtain ⟨-, s', hrun, ys, chance, rfl, hlength, hchance, -, hys⟩ :=
    hends.run fun _ _ h => absurd h.2.1 (List.cons_ne_nil 1 [0])
  obtain rfl : half = chance := Except.ok.inj hchance
  obtain ⟨x, y, rfl⟩ := List.length_eq_two.mp hlength
  obtain ⟨pick, -, hpick, -, hkept, -⟩ := hys 0 1 0 1 rfl ⟨rfl, rfl⟩
  obtain ⟨pick', r, hpick', hr, -, hmoves⟩ := hys 1 0 (-1) 1 rfl ⟨rfl, rfl⟩
  obtain rfl : Scalar.ratio 3 4 = pick := Option.some.inj hpick
  obtain rfl : Scalar.ratio 0 4 = pick' := Option.some.inj hpick'
  obtain rfl : Scalar.ratio 2 4 = r := Option.some.inj hr
  obtain rfl : x = 1 := Option.some.inj (hkept (by norm_num [Scalar.ratio, half_eq]))
  obtain ⟨hy, -, hup⟩ := hmoves (by norm_num [Scalar.ratio, half_eq])
  obtain rfl := Option.some.inj hy
  exact ⟨heta, hspans, hwide, hxs, hdice, (hmoved (-1) 1 0 (by norm_num) (by norm_num)
    (by norm_num)).2, _, s', hrun, hup (by norm_num [Scalar.ratio])⟩

end PolynomialMutation
end ParetoSearch
