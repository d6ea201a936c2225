import ParetoSearch.Proofs.Variation.Bounds
import ParetoSearch.Variation.Crossover

/-!
# Where simulated binary crossover puts the children

The two values of a variable are blended with weights that add up to one, so they keep their
mean, and their distance is multiplied by the spread factor (`blend_add`, `blend_sub`).  The
factor is at most one exactly for draws up to one half (`spread_le_one_iff`), and then the
values stay between those of the parents, where no limit is in the way.

A draw decides for each variable which child gets which value.  That is done before the values
are clipped; as both have the same limits it could as well be done after (`clip_exchange`).
-/

namespace ParetoSearch

variable {σ α : Type}

namespace SimulatedBinary

/-- The draws for the spreads of so many variables. -/
def spreadDraws (dice : Dice σ α) (n : Nat) (s : σ) : List α := (dice.roll n (dice.roll 1 s).2).1

/-- The draws for their exchanges. -/
def exchangeDraws (dice : Dice σ α) (n : Nat) (s : σ) : List α :=
  (dice.roll n (dice.roll n (dice.roll 1 s).2).2).1

theorem spreadDraws_run (dice : Dice σ α) (n : Nat) (s : σ) :
    (dice.draws n : Work σ α (List α)).run.run (dice.roll 1 s).2 =
      (.ok (spreadDraws dice n s), (dice.roll n (dice.roll 1 s).2).2) :=
  dice.draws_run n _

theorem exchangeDraws_run (dice : Dice σ α) (n : Nat) (s : σ) :
    (dice.draws n : Work σ α (List α)).run.run (dice.roll n (dice.roll 1 s).2).2 =
      (.ok (exchangeDraws dice n s), (dice.roll n (dice.roll n (dice.roll 1 s).2).2).2) :=
  dice.draws_run n _

/-! ## Variable by variable -/

section

variable [Scalar α] {c : SimulatedBinary α} {p q : List α}

/-- The values of a variable before they are exchanged and clipped. -/
def blended (c : SimulatedBinary α) (r x y : α) : α × α :=
  (blend (c.spread r) x y, blendBack (c.spread r) x y)

theorem children_vector (hq : q.length = p.length) {us : List α} (hus : us.length = p.length) :
    ∃ pairs, c.children us (.vector p) (.vector q) = .ok (.vector pairs) ∧
      pairs.length = p.length ∧ ∀ (i : Nat) x y r, p[i]? = some x → q[i]? = some y →
        us[i]? = some r → pairs[i]? = some (c.blended r x y) := by
  obtain ⟨parents, hparents, hlength, hparent⟩ := Tensor.pairUp_vectors (α := α) rfl (Or.inr hq)
  have hspreads : (us.map c.spread).length = p.length := (List.length_map _).trans hus
  obtain ⟨pairs, hpairs, hpairsLength, hpair⟩ := Tensor.combine_vectors (α := α)
    (fun beta pair => (blend beta pair.1 pair.2, blendBack beta pair.1 pair.2)) hspreads
    (Or.inr hlength)
  refine ⟨pairs, ?_, hpairsLength, fun i x y r hx hy hr => ?_⟩
  · rw [children, hparents, ok_bind]
    exact hpairs
  · have hi : i < p.length := (List.getElem?_eq_some_iff.mp hx).1
    refine hpair i (c.spread r) (x, y) ?_ ?_
    · rw [List.getElem?_map, hr, Option.map_some]
    · rw [Vector.atPlace?_eq hlength hi]
      exact hparent i x y hx ((Vector.atPlace?_eq hq hi).trans hy)

theorem exchanged_vector {n : Nat} {us : List α} {pairs : List (α × α)} (hus : us.length = n)
    (hpairs : pairs.length = n) :
    ∃ pairs', exchanged us (.vector pairs) = .ok (.vector pairs') ∧ pairs'.length = n ∧
      ∀ (i : Nat) w pair, us[i]? = some w → pairs[i]? = some pair →
        pairs'[i]? = some (exchange w pair) := by
  obtain ⟨pairs', hexchanged, hlength, hpair⟩ :=
    Tensor.combine_vectors (α := α) exchange hus (Or.inr hpairs)
  refine ⟨pairs', hexchanged, hlength, fun i w pair hw hp => hpair i w pair hw ?_⟩
  rwa [Vector.atPlace?_eq hpairs (hus ▸ (List.getElem?_eq_some_iff.mp hw).1)]

theorem exchange_cases {w x y a b : α} (h : (a, b) = exchange w (x, y)) :
    a = x ∧ b = y ∨ a = y ∧ b = x := by
  unfold exchange at h
  split at h
  · cases h
    exact Or.inr ⟨rfl, rfl⟩
  · cases h
    exact Or.inl ⟨rfl, rfl⟩

/-- Which child gets which value does not depend on the limits. -/
theorem clip_exchange (w l u : α) (pair : α × α) :
    (Scalar.clip (exchange w pair).1 l u, Scalar.clip (exchange w pair).2 l u) =
      exchange w (Scalar.clip pair.1 l u, Scalar.clip pair.2 l u) := by
  unfold exchange
  split <;> rfl

/-- Parents of one length have two children: themselves where the first draw is against it, and
else at each variable what its two draws make of the parents' values. -/
theorem cross_ends (hq : q.length = p.length) (hspans : c.bounds.Spans p.length)
    {dice : Dice σ α} (hdice : dice.InUnit) (s : σ) :
    (c.cross dice (.vector p) (.vector q)).Ends s
      (fun children _ => ∃ c₁ c₂ decision, children = [.vector c₁, .vector c₂] ∧
        c₁.length = p.length ∧ c₂.length = p.length ∧ (dice.roll 1 s).1 = [decision] ∧
        (c.probability ≤ decision → c₁ = p ∧ c₂ = q) ∧
        (¬ c.probability ≤ decision → ∀ i x y l u, p[i]? = some x → q[i]? = some y →
          c.bounds.Limits i l u → ∃ r w a b, (spreadDraws dice p.length s)[i]? = some r ∧
            (exchangeDraws dice p.length s)[i]? = some w ∧ c₁[i]? = some a ∧ c₂[i]? = some b ∧
            (a, b) = exchange w (Scalar.clip (c.blended r x y).1 l u,
              Scalar.clip (c.blended r x y).2 l u)))
      fun _ _ => False := by
  obtain ⟨decision, hdecision⟩ := List.length_eq_one_iff.mp (hdice 1 s).1
  have hdraw : (dice.draw : Work σ α α).run.run s = (.ok decision, (dice.roll 1 s).2) := by
    rw [Dice.draw, Work.run_bind (dice.draws_run 1 s), hdecision]
    rfl
  rw [Work.Ends, cross, Work.run_bind hdraw]
  by_cases hagainst : c.probability ≤ decision
  · rw [if_pos hagainst]
    exact ⟨p, q, decision, rfl, rfl, hq, hdecision, fun _ => ⟨rfl, rfl⟩,
      fun h => absurd hagainst h⟩
  · have hus : (spreadDraws dice p.length s).length = p.length := (hdice _ _).1
    have hvs : (exchangeDraws dice p.length s).length = p.length := (hdice _ _).1
    obtain ⟨pairs, hchildren, hpairs, hpair⟩ := children_vector (c := c) hq hus
    obtain ⟨pairs', hexchanged, hpairs', hpair'⟩ := exchanged_vector hvs hpairs
    obtain ⟨c₁, hclip₁, hlength₁, hfirst⟩ :=
      Bounds.clip_vector hspans ((List.length_map Prod.fst).trans hpairs')
    obtain ⟨c₂, hclip₂, hlength₂, hsecond⟩ :=
      Bounds.clip_vector hspans ((List.length_map Prod.snd).trans hpairs')
    rw [← Tensor.map_vector] at hclip₁ hclip₂
    have hlength : (Tensor.vector p).length? = (.ok p.length : Except (Fault α) Nat) := rfl
    rw [if_neg hagainst, Work.run_bind (Work.run_lift hlength _),
      Work.run_bind (spreadDraws_run dice _ s), Work.run_bind (Work.run_lift hchildren _),
      Work.run_bind (exchangeDraws_run dice _ s), Work.run_bind (Work.run_lift hexchanged _),
      Work.run_bind (Work.run_lift hclip₁ _), Work.run_bind (Work.run_lift hclip₂ _)]
    refine ⟨c₁, c₂, decision, rfl, hlength₁, hlength₂, hdecision, fun h => absurd h hagainst,
      fun _ i x y l u hx hy hlimit => ?_⟩
    have hi : i < p.length := (List.getElem?_eq_some_iff.mp hx).1
    have hr := List.getElem?_eq_getElem (hus.symm ▸ hi)
    have hw := List.getElem?_eq_getElem (hvs.symm ▸ hi)
    have hvalues := hpair' i _ _ hw (hpair i x y _ hx hy hr)
    refine ⟨_, _, _, _, hr, hw, hfirst i _ l u ?_ hlimit, hsecond i _ l u ?_ hlimit,
      clip_exchange _ l u _⟩
    · rw [List.getElem?_map, hvalues, Option.map_some]
    · rw [List.getElem?_map, hvalues, Option.map_some]

end

/-! ## How far apart -/

open Scalar (two half)

section

variable {c : SimulatedBinary ℝ} {beta r x y : ℝ}

theorem blend_add (beta x y : ℝ) : blend beta x y + blendBack beta x y = x + y := by
  rw [blend, blendBack, Scalar.half_eq]
  ring

theorem blend_sub (beta x y : ℝ) : blend beta x y - blendBack beta x y = beta * (x - y) := by
  rw [blend, blendBack, Scalar.half_eq]
  ring

theorem blendBack_eq (beta x y : ℝ) : blendBack beta x y = blend beta y x := by
  rw [blend, blendBack, add_comm]

/-- With a factor of at most one both weights count. -/
theorem blend_between (h0 : 0 ≤ beta) (h1 : beta ≤ 1) :
    min x y ≤ blend beta x y ∧ blend beta x y ≤ max x y := by
  have hfirst : 0 ≤ 1 + beta := by linarith
  have hsecond : 0 ≤ 1 - beta := by linarith
  rw [blend, Scalar.half_eq]
  constructor
  · have hx := mul_le_mul_of_nonneg_left (min_le_left x y) hfirst
    have hy := mul_le_mul_of_nonneg_left (min_le_right x y) hsecond
    linarith
  · have hx := mul_le_mul_of_nonneg_left (le_max_left x y) hfirst
    have hy := mul_le_mul_of_nonneg_left (le_max_right x y) hsecond
    linarith

theorem blendBack_between (h0 : 0 ≤ beta) (h1 : beta ≤ 1) :
    min x y ≤ blendBack beta x y ∧ blendBack beta x y ≤ max x y := by
  rw [blendBack_eq, min_comm, max_comm]
  exact blend_between h0 h1

variable (heta : 0 ≤ c.eta)

include heta

theorem exponent_pos : 0 < c.exponent := one_div_pos.mpr (by positivity)

theorem spread_of_le (hr : r ≤ 1 / 2) : c.spread r = (2 * r) ^ c.exponent := by
  rw [spread, Scalar.half_eq, if_pos hr, Scalar.two_eq,
    Scalar.power_eq_rpow _ (exponent_pos heta)]

theorem spread_of_lt (hr : 1 / 2 < r) : c.spread r = (1 / (2 * (1 - r))) ^ c.exponent := by
  rw [spread, Scalar.half_eq, if_neg (not_le.mpr hr), Scalar.two_eq,
    Scalar.power_eq_rpow _ (exponent_pos heta)]

variable (h0 : 0 ≤ r) (h1 : r < 1)

include h0 h1

theorem spread_nonneg : 0 ≤ c.spread r := by
  rcases le_or_gt r (1 / 2) with hr | hr
  · rw [spread_of_le heta hr]
    positivity
  · have hrest : 0 ≤ 1 - r := by linarith
    rw [spread_of_lt heta hr]
    positivity

theorem spread_le_one_iff : c.spread r ≤ 1 ↔ r ≤ 1 / 2 := by
  constructor
  · intro hspread
    by_contra hr
    -- Past one half the base is above one, and a power with a positive exponent keeps it there.
    have hbase : 1 < 1 / (2 * (1 - r)) := (one_lt_div (by linarith)).mpr (by linarith)
    rw [spread_of_lt heta (not_le.mp hr)] at hspread
    exact absurd hspread (not_le.mpr (Real.one_lt_rpow hbase (exponent_pos heta)))
  · intro hr
    rw [spread_of_le heta hr]
    exact Real.rpow_le_one (by linarith) (by linarith) (exponent_pos heta).le

end

/-- What the children have at a variable with the limits `l` and `u`, where the parents have
`x` and `y`, after the draws `r` for its spread and `w` for its exchange. -/
structure Recombined (c : SimulatedBinary ℝ) (l u x y r w a b : ℝ) : Prop where
  /-- The second draw says no more than which child gets which value. -/
  exchanged : (a, b) =
    exchange w (Scalar.clip (c.blended r x y).1 l u, Scalar.clip (c.blended r x y).2 l u)
  within : (l ≤ a ∧ a ≤ u) ∧ l ≤ b ∧ b ≤ u
  spread_le_one_iff : c.spread r ≤ 1 ↔ r ≤ 1 / 2
  contracted : r ≤ 1 / 2 → (a, b) = exchange w (c.blended r x y) ∧
    (min x y ≤ a ∧ a ≤ max x y) ∧ min x y ≤ b ∧ b ≤ max x y
  symmetric : l ≤ (c.blended r x y).1 → (c.blended r x y).1 ≤ u → l ≤ (c.blended r x y).2 →
    (c.blended r x y).2 ≤ u → a + b = x + y ∧ |a - b| = c.spread r * |x - y|

/-- No limit is in the way of values that lie within the limits. -/
theorem clip_blended {c : SimulatedBinary ℝ} {l u x y r w a b : ℝ}
    (h : (a, b) = exchange w (Scalar.clip (c.blended r x y).1 l u,
      Scalar.clip (c.blended r x y).2 l u))
    (hfirst : l ≤ (c.blended r x y).1 ∧ (c.blended r x y).1 ≤ u)
    (hsecond : l ≤ (c.blended r x y).2 ∧ (c.blended r x y).2 ≤ u) :
    (a, b) = exchange w (c.blended r x y) := by
  rwa [Scalar.clip_eq_self hfirst.1 hfirst.2, Scalar.clip_eq_self hsecond.1 hsecond.2] at h

theorem recombined {c : SimulatedBinary ℝ} (heta : 0 ≤ c.eta) {l u x y r w a b : ℝ}
    (hx : l ≤ x ∧ x ≤ u) (hy : l ≤ y ∧ y ≤ u) (h0 : 0 ≤ r) (h1 : r < 1)
    (h : (a, b) = exchange w (Scalar.clip (c.blended r x y).1 l u,
      Scalar.clip (c.blended r x y).2 l u)) :
    c.Recombined l u x y r w a b where
  exchanged := h
  within := by
    have hlu : l ≤ u := hx.1.trans hx.2
    rcases exchange_cases h with ⟨rfl, rfl⟩ | ⟨rfl, rfl⟩
    all_goals exact ⟨Scalar.clip_between _ hlu, Scalar.clip_between _ hlu⟩
  spread_le_one_iff := spread_le_one_iff heta h0 h1
  contracted := by
    intro hr
    have hspread := (spread_le_one_iff heta h0 h1).mpr hr
    have hfirst := blend_between (x := x) (y := y) (spread_nonneg heta h0 h1) hspread
    have hsecond := blendBack_between (x := x) (y := y) (spread_nonneg heta h0 h1) hspread
    -- What lies between the parents lies within the limits, as they do.
    have hleast : l ≤ min x y := le_min hx.1 hy.1
    have hmost : max x y ≤ u := max_le hx.2 hy.2
    have hvalues := clip_blended h ⟨hleast.trans hfirst.1, hfirst.2.trans hmost⟩
      ⟨hleast.trans hsecond.1, hsecond.2.trans hmost⟩
    refine ⟨hvalues, ?_⟩
    rcases exchange_cases hvalues with ⟨rfl, rfl⟩ | ⟨rfl, rfl⟩
    · exact ⟨hfirst, hsecond⟩
    · exact ⟨hsecond, hfirst⟩
  symmetric := by
    intro hl hu hl' hu'
    have hsum := blend_add (c.spread r) x y
    have hdistance : |blend (c.spread r) x y - blendBack (c.spread r) x y| =
        c.spread r * |x - y| := by
      rw [blend_sub, abs_mul, abs_of_nonneg (spread_nonneg heta h0 h1)]
    rcases exchange_cases (clip_blended h ⟨hl, hu⟩ ⟨hl', hu'⟩) with ⟨rfl, rfl⟩ | ⟨rfl, rfl⟩
    · exact ⟨hsum, hdistance⟩
    · rw [add_comm, abs_sub_comm]
      exact ⟨hsum, hdistance⟩

/-- Two parents within the bounds have two children within the bounds.  Where the parents are
recombined, so is every variable, and nothing is divided by zero whatever is drawn. -/
theorem cross_recombines {c : SimulatedBinary ℝ} (heta : 0 ≤ c.eta) {p q : List ℝ}
    (hq : q.length = p.length) (hspans : c.bounds.Spans p.length) (hps : c.bounds.Holds p)
    (hqs : c.bounds.Holds q) {dice : Dice σ ℝ} (hdice : dice.InUnit) (s : σ) :
    (c.cross dice (.vector p) (.vector q)).Ends s
      (fun children _ => ∃ c₁ c₂ decision, children = [.vector c₁, .vector c₂] ∧
        c₁.length = p.length ∧ c₂.length = p.length ∧ c.bounds.Holds c₁ ∧ c.bounds.Holds c₂ ∧
        (dice.roll 1 s).1 = [decision] ∧
        (c.probability ≤ decision → c₁ = p ∧ c₂ = q) ∧
        (decision < c.probability → ∀ i x y l u, p[i]? = some x → q[i]? = some y →
          c.bounds.Limits i l u → ∃ r w a b, (spreadDraws dice p.length s)[i]? = some r ∧
            (exchangeDraws dice p.length s)[i]? = some w ∧ c₁[i]? = some a ∧ c₂[i]? = some b ∧
            c.Recombined l u x y r w a b))
      (fun _ _ => False) ∧
    c.eta + 1 ≠ 0 ∧ ∀ r ∈ spreadDraws dice p.length s, two * (1 - r) ≠ 0 := by
  refine ⟨(cross_ends hq hspans hdice s).mono ?_ fun _ _ h => h, by positivity, fun r hr => ?_⟩
  · rintro children - ⟨c₁, c₂, decision, rfl, hlength₁, hlength₂, hdecision, hagainst, hfor⟩
    have hrecombined : decision < c.probability → ∀ i x y l u, p[i]? = some x →
        q[i]? = some y → c.bounds.Limits i l u → ∃ r w a b,
          (spreadDraws dice p.length s)[i]? = some r ∧
          (exchangeDraws dice p.length s)[i]? = some w ∧ c₁[i]? = some a ∧ c₂[i]? = some b ∧
          c.Recombined l u x y r w a b := by
      intro hdecided i x y l u hx hy hlimit
      obtain ⟨r, w, a, b, hr, hw, ha, hb, hvalues⟩ :=
        hfor (not_le.mpr hdecided) i x y l u hx hy hlimit
      obtain ⟨h0, h1⟩ := (hdice _ _).2 r (List.mem_of_getElem? hr)
      exact ⟨r, w, a, b, hr, hw, ha, hb,
        recombined heta (hps i x l u hx hlimit) (hqs i y l u hy hlimit) h0 h1 hvalues⟩
    have hholds : c.bounds.Holds c₁ ∧ c.bounds.Holds c₂ := by
      rcases le_or_gt c.probability decision with hkept | hdecided
      · obtain ⟨rfl, rfl⟩ := hagainst hkept
        exact ⟨hps, hqs⟩
      · refine ⟨Bounds.holds_of_entries hlength₁ fun i l u hi hlimit => ?_,
          Bounds.holds_of_entries hlength₂ fun i l u hi hlimit => ?_⟩
        all_goals
          obtain ⟨r, w, a, b, -, -, ha, hb, hvalues⟩ := hrecombined hdecided i _ _ l u
            (List.getElem?_eq_getElem hi) (List.getElem?_eq_getElem (hq.symm ▸ hi)) hlimit
        · exact ⟨a, ha, hvalues.within.1⟩
        · exact ⟨b, hb, hvalues.within.2⟩
    exact ⟨c₁, c₂, decision, rfl, hlength₁, hlength₂, hholds.1, hholds.2, hdecision, hagainst,
      hrecombined⟩
  · have h1 := ((hdice _ _).2 r hr).2
    rw [Scalar.two_eq]
    exact mul_ne_zero two_ne_zero (sub_pos.mpr h1).ne'

/-- Each of two variables has limits of its own. -/
noncomputable def paired : SimulatedBinary ℝ := ⟨1, 1, ⟨[0, -1], [1, 1]⟩⟩

/-- The draws are zero, then a quarter and a half, then three quarters and zero. -/
theorem cross_recombines_paired :
    0 ≤ paired.eta ∧ paired.bounds.Spans 2 ∧ paired.bounds.Holds [1 / 4, 1] ∧
      paired.bounds.Holds [3 / 4, 0] ∧ (Dice.quarters : Dice Nat ℝ).InUnit ∧
      ∃ a b a' b' s', (paired.cross .quarters (.vector [1 / 4, 1]) (.vector [3 / 4, 0])).run.run 0 =
        (.ok [.vector [a, b], .vector [a', b']], s') ∧ a + a' = 1 / 4 + 3 / 4 ∧
          |a - a'| = paired.spread (1 / 4) * |1 / 4 - 3 / 4| ∧ paired.spread (1 / 4) ≤ 1 ∧
          0 ≤ b ∧ b ≤ 1 := by
  have heta : 0 ≤ paired.eta := zero_le_one
  have hspans : paired.bounds.Spans ([1 / 4, 1] : List ℝ).length := ⟨Or.inr rfl, Or.inr rfl⟩
  have hps : paired.bounds.Holds [1 / 4, 1] := Bounds.holds_pair (by norm_num) (by norm_num)
  have hqs : paired.bounds.Holds [3 / 4, 0] := Bounds.holds_pair (by norm_num) (by norm_num)
  have hdice : (Dice.quarters : Dice Nat ℝ).InUnit := Dice.inUnit_quarters_exact
  obtain ⟨hends, -⟩ :=
    cross_recombines (p := [1 / 4, 1]) (q := [3 / 4, 0]) heta rfl hspans hps hqs hdice 0
  obtain ⟨-, s', hrun, c₁, c₂, decision, rfl, hlength₁, hlength₂, -, -, hdecision, -, hvalues⟩ :=
    hends.run fun _ _ h => h
  obtain ⟨a, b, rfl⟩ := List.length_eq_two.mp hlength₁
  obtain ⟨a', b', rfl⟩ := List.length_eq_two.mp hlength₂
  have hdecided : decision < paired.probability :=
    ((hdice 1 0).2 decision (hdecision ▸ List.mem_singleton_self decision)).2
  obtain ⟨r, w, _, _, hr, -, ha, ha', hfirst⟩ :=
    hvalues hdecided 0 (1 / 4) (3 / 4) 0 1 rfl rfl ⟨rfl, rfl⟩
  obtain ⟨r', w', _, _, hr', -, hb, -, hsecond⟩ :=
    hvalues hdecided 1 1 0 (-1) 1 rfl rfl ⟨rfl, rfl⟩
  obtain rfl := Option.some.inj ha
  obtain rfl := Option.some.inj ha'
  obtain rfl := Option.some.inj hb
  obtain rfl : Scalar.ratio 1 4 = r := Option.some.inj hr
  obtain rfl : Scalar.ratio 2 4 = r' := Option.some.inj hr'
  have hquarter : (Scalar.ratio 1 4 : ℝ) = 1 / 4 := by norm_num [Scalar.ratio]
  have hhalf : (Scalar.ratio 2 4 : ℝ) ≤ 1 / 2 := by norm_num [Scalar.ratio]
  rw [hquarter] at hfirst
  have hspread := hfirst.spread_le_one_iff.mpr (by norm_num)
  have hnonneg : 0 ≤ paired.spread (1 / 4) := spread_nonneg heta (by norm_num) (by norm_num)
  have hmoved := blend_between (x := 1 / 4) (y := 3 / 4) hnonneg hspread
  have hmoved' := blendBack_between (x := 1 / 4) (y := 3 / 4) hnonneg hspread
  obtain ⟨hsum, hdistance⟩ := hfirst.symmetric (le_trans (by norm_num) hmoved.1)
    (hmoved.2.trans (by norm_num)) (le_trans (by norm_num) hmoved'.1)
    (hmoved'.2.trans (by norm_num))
  obtain ⟨-, hbetween, -⟩ := hsecond.contracted hhalf
  rw [min_eq_right zero_le_one, max_eq_left zero_le_one] at hbetween
  exact ⟨heta, hspans, hps, hqs, hdice, _, _, _, _, s', hrun, hsum, hdistance, hspread, hbetween⟩

end SimulatedBinary
end ParetoSearch
