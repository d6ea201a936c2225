import ParetoSearch.Proofs.Arithmetic.Order
import ParetoSearch.Proofs.Comparator

/-!
# Preference turned round

A comparator that prefers the first of two solutions prefers the second when they are
named the other way round, and a solution ties with itself.  `compare_antisymmetric` says
so of every comparator, nested chains included.

The one thing in the way is a value that is not a number: it is neither below another nor
equal to it, itself included, and the last branch of a comparison of violations or of
fitnesses takes it for the worse one in both orders.  `Comparator.Reads` asks for numbers
exactly where a comparator compares single values.  It asks nothing of objectives: there,
what is not a number leaves a tie in both orders.
-/

namespace ParetoSearch

variable {X α β : Type}

/-! ## Dominance -/

section

variable [LT β] [LE β] [DecidableLT β] [DecidableLE β]

theorem somewhereBetter_of_nowhereWorse (hlaw : ∀ x y : β, x ≤ y → ¬ y < x) {i j : List β}
    (h : nowhereWorse i j = true) : somewhereBetter j i = false := by
  fun_induction nowhereWorse i j with
  | case1 x xs y ys ih =>
    rw [Bool.and_eq_true, decide_eq_true_eq] at h
    rw [somewhereBetter, ih h.2, Bool.or_false, decide_eq_false_iff_not]
    exact hlaw x y h.1
  | case2 i j hcons =>
    cases i with
    | nil => cases j <;> rfl
    | cons x xs =>
      cases j with
      | nil => rfl
      | cons y ys => exact (hcons x xs y ys rfl rfl).elim

theorem dominates_asymm (hlaw : ∀ x y : β, x ≤ y → ¬ y < x) {i j : List β}
    (h : dominates i j = true) : dominates j i = false := by
  rw [dominates, Bool.and_eq_true] at h
  rw [dominates, somewhereBetter_of_nowhereWorse hlaw h.1, Bool.and_false]

theorem dominanceOrder_swap (hlaw : ∀ x y : β, x ≤ y → ¬ y < x) {i j : List β}
    (h : i.length = j.length) :
    ∃ o, (dominanceOrder i j : Except (Fault α) Ordering) = .ok o ∧
      (dominanceOrder j i : Except (Fault α) Ordering) = .ok o.swap := by
  refine ⟨_, dominanceOrder_of_length_eq h, ?_⟩
  rw [dominanceOrder_of_length_eq h.symm]
  cases hij : dominates i j with
  | true => rw [dominates_asymm hlaw hij]; rfl
  | false => cases dominates j i <;> rfl

end

variable [Scalar α]

/-! ## Single values -/

/-- How two values compare where the smaller one is preferred. -/
def smallerFirst (x y : α) : Ordering := if x == y then .eq else if x < y then .lt else .gt

theorem compareViolation_eq (a b : Solution X α) :
    compareViolation a b = smallerFirst a.violation b.violation := rfl

namespace Comparator

mutual

/-- Each single value that a comparator compares is there and is a number. -/
def Reads : Comparator α → Solution X α → Prop
  | .pareto, _ => True
  | .violation, s => Scalar.isNumber s.violation = true
  | .boxes rule, s => rule.violationFirst = true → Scalar.isNumber s.violation = true
  | .chain first rest, s => Reads first s ∧ ReadsAll rest s
  | .fitness _, s => ∃ x, s.fitness? = some x ∧ Scalar.isNumber x = true
  | .undefined, _ => False

def ReadsAll : List (Comparator α) → Solution X α → Prop
  | [], _ => True
  | c :: rest, s => Reads c s ∧ ReadsAll rest s

end

end Comparator

section

variable [OrderlyScalar α]

theorem smallerFirst_swap {x y : α} (hx : Scalar.isNumber x = true)
    (hy : Scalar.isNumber y = true) : smallerFirst y x = (smallerFirst x y).swap := by
  unfold smallerFirst
  rw [SymmetricScalar.beq_comm y x]
  cases hxy : x == y with
  | true => rfl
  | false =>
    rcases OrderlyScalar.lt_or_lt hx hy hxy with h | h
    · simp [h, OrderlyScalar.lt_asymm h]
    · simp [h, OrderlyScalar.lt_asymm h]

theorem compareFitness_eq (larger : Bool) {a b : Solution X α} {x y : α}
    (ha : a.fitness? = some x) (hb : b.fitness? = some y) :
    compareFitness larger a b = .ok (if larger then smallerFirst y x else smallerFirst x y) := by
  unfold compareFitness smallerFirst
  rw [ha, hb, SymmetricScalar.beq_comm y x]
  cases hxy : x == y with
  | true => cases larger <;> simp [hxy]
  | false =>
    cases larger with
    | true => by_cases h : y < x <;> simp [hxy, h]
    | false => by_cases h : x < y <;> simp [hxy, h]

theorem compareFitness_swap (larger : Bool) {a b : Solution X α}
    (ha : ∃ x, a.fitness? = some x ∧ Scalar.isNumber x = true)
    (hb : ∃ y, b.fitness? = some y ∧ Scalar.isNumber y = true) :
    ∃ o, compareFitness larger a b = .ok o ∧ compareFitness larger b a = .ok o.swap := by
  obtain ⟨x, hax, hx⟩ := ha
  obtain ⟨y, hby, hy⟩ := hb
  refine ⟨_, compareFitness_eq larger hax hby, ?_⟩
  rw [compareFitness_eq larger hby hax]
  cases larger with
  | true => rw [if_pos rfl, if_pos rfl, smallerFirst_swap hy hx]
  | false => simp only [Bool.false_eq_true, if_false, smallerFirst_swap hx hy]

/-! ## Boxes -/

theorem comparePareto_swap {f g : List α} (h : f.length = g.length) :
    ∃ o, comparePareto f g = .ok o ∧ comparePareto g f = .ok o.swap :=
  dominanceOrder_swap (fun _ _ => OrderlyScalar.not_lt_of_le) h

namespace BoxSizes

/-- A distance that is not a number leaves the answer to dominance in both orders. -/
theorem compareInside_swap (b : BoxSizes α) {f g : List α} (h : f.length = g.length) :
    ∃ o, b.compareInside f g = .ok o ∧ b.compareInside g f = .ok o.swap := by
  unfold compareInside
  by_cases hfg : b.cornerDistance f < b.cornerDistance g
  · exact ⟨.lt, if_pos hfg, by rw [if_neg (OrderlyScalar.lt_asymm hfg), if_pos hfg]; rfl⟩
  · by_cases hgf : b.cornerDistance g < b.cornerDistance f
    · exact ⟨.gt, by rw [if_neg hfg, if_pos hgf], if_pos hgf⟩
    · simp only [if_neg hfg, if_neg hgf]
      exact comparePareto_swap h

theorem compare_swap (b : BoxSizes α) {f g : List α} (h : f.length = g.length) :
    ∃ o, b.compare f g = .ok o ∧ b.compare g f = .ok o.swap := by
  by_cases hbox : b.index f = b.index g
  · rw [compare_of_index_eq b hbox, compare_of_index_eq b hbox.symm]
    exact compareInside_swap b h
  · rw [compare_of_index_ne b hbox, compare_of_index_ne b (Ne.symm hbox)]
    have hlength : (b.index f).length = (b.index g).length := by
      rw [length_index, length_index, h]
    exact dominanceOrder_swap (fun _ _ hle => Int.not_lt_of_ge hle) hlength

end BoxSizes

theorem afterViolation_swap {a b : Solution X α} (ha : Scalar.isNumber a.violation = true)
    (hb : Scalar.isNumber b.violation = true) {p q : Except (Fault α) Ordering}
    (h : ∃ o, p = .ok o ∧ q = .ok o.swap) :
    ∃ o, afterViolation a b p = .ok o ∧ afterViolation b a q = .ok o.swap := by
  obtain ⟨o, rfl, rfl⟩ := h
  unfold afterViolation
  rw [compareViolation_eq b a, smallerFirst_swap ha hb, ← compareViolation_eq a b]
  cases compareViolation a b with
  | lt => exact ⟨.lt, rfl, rfl⟩
  | gt => exact ⟨.gt, rfl, rfl⟩
  | eq => exact ⟨o, rfl, rfl⟩

theorem BoxComparator.compare_swap (c : BoxComparator α) {a b : Solution X α}
    (hlength : a.objectives.length = b.objectives.length)
    (ha : c.violationFirst = true → Scalar.isNumber a.violation = true)
    (hb : c.violationFirst = true → Scalar.isNumber b.violation = true) :
    ∃ o, c.compare a b = .ok o ∧ c.compare b a = .ok o.swap := by
  rw [compare_eq, compare_eq]
  cases hfirst : c.violationFirst with
  | true =>
    rw [if_pos rfl, if_pos rfl]
    exact afterViolation_swap (ha hfirst) (hb hfirst) (c.boxes.compare_swap hlength)
  | false => exact c.boxes.compare_swap hlength

end

/-! ## Chains -/

namespace Comparator

mutual

theorem compare_swap [OrderlyScalar α] : ∀ (c : Comparator α) {a b : Solution X α},
    a.objectives.length = b.objectives.length → c.Reads a → c.Reads b →
      ∃ o, c.compare a b = .ok o ∧ c.compare b a = .ok o.swap
  | .pareto, _, _, h, _, _ => by
    rw [compare, compare]
    exact comparePareto_swap h
  | .violation, a, b, _, ha, hb => by
    rw [compare, compare, compareViolation_eq b a, smallerFirst_swap ha hb]
    exact ⟨_, rfl, rfl⟩
  | .boxes rule, _, _, h, ha, hb => by
    rw [compare, compare]
    exact rule.compare_swap h ha hb
  | .chain first rest, _, _, h, ha, hb => by
    obtain ⟨o, hab, hba⟩ := compare_swap first h ha.1 hb.1
    rw [compare, compare, hab, hba]
    cases o with
    | lt => exact ⟨.lt, rfl, rfl⟩
    | gt => exact ⟨.gt, rfl, rfl⟩
    | eq => exact compareFirst_swap rest h ha.2 hb.2
  | .fitness larger, _, _, _, ha, hb => by
    rw [compare, compare]
    exact compareFitness_swap larger ha hb
  | .undefined, _, _, _, ha, _ => ha.elim

theorem compareFirst_swap [OrderlyScalar α] : ∀ (cs : List (Comparator α))
    {a b : Solution X α}, a.objectives.length = b.objectives.length → ReadsAll cs a →
      ReadsAll cs b → ∃ o, compareFirst cs a b = .ok o ∧ compareFirst cs b a = .ok o.swap
  | [], _, _, _, _, _ => ⟨.eq, rfl, rfl⟩
  | c :: rest, _, _, h, ha, hb => by
    obtain ⟨o, hab, hba⟩ := compare_swap c h ha.1 hb.1
    rw [compareFirst, compareFirst, hab, hba]
    cases o with
    | lt => exact ⟨.lt, rfl, rfl⟩
    | gt => exact ⟨.gt, rfl, rfl⟩
    | eq => exact compareFirst_swap rest h ha.2 hb.2

end

theorem compare_self [OrderlyScalar α] (c : Comparator α) {s : Solution X α} (h : c.Reads s) :
    c.compare s s = .ok .eq := by
  obtain ⟨o, ho, hswap⟩ := compare_swap c rfl h h
  have hfixed : o = o.swap := Except.ok.inj (ho.symm.trans hswap)
  rw [ho]
  cases o with
  | eq => rfl
  | lt | gt => cases hfixed

/-- A solution ties with itself, and two solutions named the other way round are answered
the other way round, whatever the comparator is put together from. -/
theorem compare_antisymmetric [OrderlyScalar α] (c : Comparator α) {a b : Solution X α}
    (hlength : a.objectives.length = b.objectives.length) (ha : c.Reads a) (hb : c.Reads b) :
    c.compare a a = .ok .eq ∧ ∃ o, c.compare a b = .ok o ∧ c.compare b a = .ok o.swap :=
  ⟨compare_self c ha, compare_swap c hlength ha hb⟩

/-- Violation before boxes, then fitness, then larger boxes before dominance. -/
def layered : Comparator Float :=
  .chain (.chain .violation [.boxes ⟨⟨[1, 1], nofun, by with_unfolding_all rfl⟩, true⟩])
    [.fitness true, .chain (.boxes ⟨⟨[2], nofun, by with_unfolding_all rfl⟩, false⟩) [.pareto]]

def nearer : Solution Unit Float := ⟨(), [0.25, 1], [0.5, -0.25], [(fitnessName, 2)]⟩

def farther : Solution Unit Float := ⟨(), [1.25, 0.5], [0.75, 0], [(fitnessName, 2)]⟩

set_option maxRecDepth 2000 in
theorem compare_antisymmetric_layered :
    layered.Reads nearer ∧ layered.Reads farther ∧ layered.compare nearer farther = .ok .lt ∧
      layered.compare nearer nearer = .ok .eq ∧
        ∃ o, layered.compare nearer farther = .ok o ∧
          layered.compare farther nearer = .ok o.swap := by
  have hnumber (s : Solution Unit Float) (hviolation : Scalar.isNumber s.violation = true)
      (hfitness : s.fitness? = some 2) : layered.Reads s :=
    ⟨⟨hviolation, fun _ => hviolation, trivial⟩, ⟨2, hfitness, by with_unfolding_all rfl⟩,
      ⟨nofun, trivial, trivial⟩, trivial⟩
  have hnearer : layered.Reads nearer := hnumber nearer (by with_unfolding_all rfl) rfl
  have hfarther : layered.Reads farther := hnumber farther (by with_unfolding_all rfl) rfl
  exact ⟨hnearer, hfarther, by with_unfolding_all rfl,
    compare_antisymmetric layered (by decide) hnearer hfarther⟩

end Comparator
end ParetoSearch
