import ParetoSearch.Proofs.Arithmetic.Extremes
import ParetoSearch.Proofs.Dominance
import ParetoSearch.Proofs.Draws
import ParetoSearch.Proofs.Work
import ParetoSearch.Variation.Bounds

/-!
# Variables and their limits

Bounds come as one pair of limits for all variables or as one a variable, and everything that
meets them is as long as there are variables.  So a place has its own entry in each vector
(`Vector.atPlace?`), and what is computed entry by entry is read place by place.

What lies within its limits is not changed by bringing it there, and what is brought within
limits of which the lower is not the greater lies between them (`Scalar.clip_eq_self`,
`Scalar.clip_between`).
-/

namespace ParetoSearch

variable {α β γ δ : Type}

namespace Vector

/-- One entry for all of so many places, or one a place. -/
def Spans (xs : List β) (n : Nat) : Prop := xs.length = 1 ∨ xs.length = n

/-- The entry for a place. -/
def atPlace? (xs : List β) (i : Nat) : Option β := xs[if xs.length = 1 then 0 else i]?

theorem atPlace?_eq {xs : List β} {n i : Nat} (h : xs.length = n) (hi : i < n) :
    atPlace? xs i = xs[i]? := by
  unfold atPlace?
  split
  case isTrue hone =>
    have hzero : i = 0 := by omega
    rw [hzero]
  case isFalse => rfl

theorem exists_atPlace? {xs : List β} {n i : Nat} (h : Spans xs n) (hi : i < n) :
    ∃ x, atPlace? xs i = some x := by
  have hlt : (if xs.length = 1 then 0 else i) < xs.length := by
    rcases h with h | h
    · simp [h]
    · split <;> omega
  exact ⟨_, List.getElem?_eq_getElem hlt⟩

theorem atPlace?_map (f : β → γ) (xs : List β) (i : Nat) :
    atPlace? (xs.map f) i = (atPlace? xs i).map f := by
  unfold atPlace?
  rw [List.length_map, List.getElem?_map]

/-- What meets at a place are the two entries for it. -/
theorem of_pairUp_ok {a : List β} {b : List γ} {c : List (β × γ)}
    (h : (pairUp a b : Except (Fault α) (List (β × γ))) = .ok c) :
    c.length = (if a.length = 1 then b.length else a.length) ∧ ∀ i x y,
      atPlace? a i = some x → atPlace? b i = some y → atPlace? c i = some (x, y) := by
  unfold pairUp at h
  split at h
  case isTrue hlength =>
    cases h
    have hzip : (a.zip b).length = a.length := by
      rw [List.length_zip, ← hlength, Nat.min_self]
    refine ⟨by rw [hzip, ← hlength, ite_self], fun i x y hx hy => ?_⟩
    unfold atPlace? at hx hy ⊢
    rw [← hlength] at hy
    rw [hzip]
    exact List.getElem?_zip_eq_some.mpr ⟨hx, hy⟩
  case isFalse hne =>
    split at h
    case h_1 _ _ x =>
      cases h
      refine ⟨List.length_map _, fun i x' y hx hy => ?_⟩
      obtain rfl : x = x' := by simpa [atPlace?] using hx
      rw [atPlace?_map, hy, Option.map_some]
    case h_2 _ _ y _ =>
      cases h
      refine ⟨(List.length_map _).trans (if_neg hne).symm, fun i x y' hx hy => ?_⟩
      obtain rfl : y = y' := by simpa [atPlace?] using hy
      rw [atPlace?_map, hx, Option.map_some]
    case h_3 => cases h

/-- Vectors that span the same places meet, and what they make spans them. -/
theorem pairUp_spans {a : List β} {b : List γ} {n : Nat} (ha : Spans a n) (hb : Spans b n) :
    ∃ c, (pairUp a b : Except (Fault α) (List (β × γ))) = .ok c ∧ Spans c n ∧
      (a.length = n → c.length = n) ∧ ∀ i x y, atPlace? a i = some x → atPlace? b i = some y →
        atPlace? c i = some (x, y) := by
  unfold Spans at ha hb ⊢
  have hmeet : a.length = b.length ∨ a.length = 1 ∨ b.length = 1 := by omega
  obtain ⟨c, hc⟩ := pairUp_ok (α := α) hmeet
  obtain ⟨hlength, hentry⟩ := of_pairUp_ok hc
  refine ⟨c, hc, ?_, fun hn => ?_, hentry⟩
  all_goals
    split at hlength
    all_goals omega

end Vector

namespace Tensor

theorem map_vector (f : β → γ) (xs : List β) : (vector xs).map f = vector (xs.map f) := by
  rw [vector, vector, List.length_map]
  rfl

theorem pairUp_vectors {a : List β} {b : List γ} {n : Nat} (ha : a.length = n)
    (hb : Vector.Spans b n) :
    ∃ cs, (pairUp (.vector a) (.vector b) : Except (Fault α) (Tensor (β × γ))) = .ok (.vector cs) ∧
      cs.length = n ∧ ∀ i x y, a[i]? = some x → Vector.atPlace? b i = some y →
        cs[i]? = some (x, y) := by
  obtain ⟨cs, hc, -, hlength, hentry⟩ := Vector.pairUp_spans (α := α) (Or.inr ha) hb
  refine ⟨cs, ?_, hlength ha, fun i x y hx hy => ?_⟩
  · simp only [pairUp, vector, hc, ok_bind]
    rfl
  · have hi : i < n := ha ▸ (List.getElem?_eq_some_iff.mp hx).1
    rw [← Vector.atPlace?_eq ha hi] at hx
    rw [← Vector.atPlace?_eq (hlength ha) hi]
    exact hentry i x y hx hy

/-- Entry by entry over a vector that has one for every place. -/
theorem combine_vectors (f : β → γ → δ) {a : List β} {b : List γ} {n : Nat} (ha : a.length = n)
    (hb : Vector.Spans b n) :
    ∃ cs, (combine f (.vector a) (.vector b) : Except (Fault α) (Tensor δ)) = .ok (.vector cs) ∧
      cs.length = n ∧ ∀ i x y, a[i]? = some x → Vector.atPlace? b i = some y →
        cs[i]? = some (f x y) := by
  obtain ⟨cs, hmeet, hlength, hentry⟩ := pairUp_vectors (α := α) ha hb
  refine ⟨cs.map fun p => f p.1 p.2, ?_, (List.length_map _).trans hlength, fun i x y hx hy => ?_⟩
  · rw [combine, hmeet, ok_bind, map_vector]
    rfl
  · rw [List.getElem?_map, hentry i x y hx hy, Option.map_some]

end Tensor

namespace Bounds

variable (b : Bounds α)

/-- A pair of limits for each of so many variables. -/
def Spans (n : Nat) : Prop := Vector.Spans b.lower n ∧ Vector.Spans b.upper n

/-- What limits the variable at a place. -/
def Limits (i : Nat) (l u : α) : Prop :=
  Vector.atPlace? b.lower i = some l ∧ Vector.atPlace? b.upper i = some u

/-- Every variable lies within its limits. -/
def Holds [LE α] (xs : List α) : Prop :=
  ∀ i x l u, xs[i]? = some x → b.Limits i l u → l ≤ x ∧ x ≤ u

variable {b} {n : Nat}

theorem exists_limits (h : b.Spans n) {i : Nat} (hi : i < n) : ∃ l u, b.Limits i l u := by
  obtain ⟨l, hl⟩ := Vector.exists_atPlace? h.1 hi
  obtain ⟨u, hu⟩ := Vector.exists_atPlace? h.2 hi
  exact ⟨l, u, hl, hu⟩

theorem holds_of_entries [LE α] {xs : List α} (hn : xs.length = n)
    (h : ∀ i l u, i < n → b.Limits i l u → ∃ x, xs[i]? = some x ∧ l ≤ x ∧ x ≤ u) : b.Holds xs := by
  intro i x l u hx hlimits
  obtain ⟨x', hx', hwithin⟩ := h i l u (hn ▸ (List.getElem?_eq_some_iff.mp hx).1) hlimits
  obtain rfl := Option.some.inj (hx.symm.trans hx')
  exact hwithin

theorem limits_pair {l l' u u' a c : α} {i : Nat} (hi : i < 2)
    (h : (⟨[l, l'], [u, u']⟩ : Bounds α).Limits i a c) :
    i = 0 ∧ a = l ∧ c = u ∨ i = 1 ∧ a = l' ∧ c = u' := by
  obtain ⟨hlower, hupper⟩ := h
  match i with
  | 0 => exact Or.inl ⟨rfl, (Option.some.inj hlower).symm, (Option.some.inj hupper).symm⟩
  | 1 => exact Or.inr ⟨rfl, (Option.some.inj hlower).symm, (Option.some.inj hupper).symm⟩

theorem holds_pair [LE α] {l l' u u' x y : α} (hx : l ≤ x ∧ x ≤ u) (hy : l' ≤ y ∧ y ≤ u') :
    (⟨[l, l'], [u, u']⟩ : Bounds α).Holds [x, y] := by
  refine holds_of_entries rfl fun i a c hi h => ?_
  rcases limits_pair hi h with ⟨rfl, rfl, rfl⟩ | ⟨rfl, rfl, rfl⟩
  · exact ⟨x, rfl, hx⟩
  · exact ⟨y, rfl, hy⟩

theorem pairs_spans (h : b.Spans n) :
    ∃ pairs, b.pairs = .ok pairs ∧ Vector.Spans pairs n ∧
      ∀ i l u, b.Limits i l u → Vector.atPlace? pairs i = some (l, u) := by
  obtain ⟨pairs, hpairs, hspans, -, hentry⟩ := Vector.pairUp_spans h.1 h.2
  exact ⟨pairs, hpairs, hspans, fun i l u hlimits => hentry i l u hlimits.1 hlimits.2⟩

theorem clip_vector [Scalar α] (h : b.Spans n) {ys : List α} (hn : ys.length = n) :
    ∃ zs, b.clip (.vector ys) = .ok (.vector zs) ∧ zs.length = n ∧
      ∀ i y l u, ys[i]? = some y → b.Limits i l u → zs[i]? = some (Scalar.clip y l u) := by
  obtain ⟨raised, hraise, hraised, hgreater⟩ :=
    Tensor.combine_vectors (α := α) Scalar.greater hn h.1
  obtain ⟨zs, hlower, hzs, hlesser⟩ := Tensor.combine_vectors (α := α) Scalar.lesser hraised h.2
  refine ⟨zs, ?_, hzs, fun i y l u hy hlimits => ?_⟩
  · rw [clip, hraise, ok_bind, hlower]
  · exact hlesser i _ u (hgreater i y l hy hlimits.1) hlimits.2

end Bounds

/-! ## Without rounding -/

section

variable [ExactScalar α] {x l u : α}

theorem Scalar.clip_eq (x l u : α) : clip x l u = min (max x l) u := by
  rw [clip, greater_eq_max, lesser_eq_min]

theorem Scalar.clip_eq_self (hl : l ≤ x) (hu : x ≤ u) : clip x l u = x := by
  rw [clip_eq, max_eq_left hl, min_eq_left hu]

theorem Scalar.clip_between (x : α) (h : l ≤ u) : l ≤ clip x l u ∧ clip x l u ≤ u := by
  rw [clip_eq]
  exact ⟨le_min (le_max_right x l) h, min_le_right _ u⟩

theorem Dice.inUnit_quarters_exact : (Dice.quarters : Dice Nat α).InUnit := by
  refine Dice.inUnit_quarters fun q hq => ?_
  have hfour : (0 : α) < (4 : Nat) := Nat.cast_pos.mpr (Nat.succ_pos 3)
  rw [Scalar.ratio, div_lt_one hfour]
  exact ⟨div_nonneg (Nat.cast_nonneg q) hfour.le, Nat.cast_lt.mpr hq⟩

/-- There is nothing to change about variables within their limits. -/
theorem Bounds.clip_of_holds {b : Bounds α} {xs : List α} (h : b.Spans xs.length)
    (hxs : b.Holds xs) : b.clip (.vector xs) = .ok (.vector xs) := by
  obtain ⟨zs, hclip, hlength, hentry⟩ := clip_vector h rfl
  have hsame : zs = xs := by
    refine List.ext_getElem hlength fun i hi hi' => ?_
    obtain ⟨l, u, hlimits⟩ := exists_limits h hi'
    have hx : xs[i]? = some xs[i] := List.getElem?_eq_getElem hi'
    obtain ⟨hl, hu⟩ := hxs i xs[i] l u hx hlimits
    have hz := hentry i xs[i] l u hx hlimits
    rw [List.getElem?_eq_getElem hi, Scalar.clip_eq_self hl hu] at hz
    exact Option.some.inj hz
  rw [hclip, hsame]

end
end ParetoSearch
