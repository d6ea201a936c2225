import Mathlib.Order.Comparable
import ParetoSearch.Container
import ParetoSearch.Proofs.Arithmetic.Symmetry
import ParetoSearch.Proofs.Dominance

/-!
# Ties

A comparator that prefers neither of two solutions prefers neither when they are
named the other way round.  `Comparator.tie_comm` says so of every comparator,
nested chains included, and of every pair of solutions, whatever they hold.

A preference itself cannot be turned round: a violation that is not a number
loses against every other in both orders.  Only ties are symmetric, and the
proof never looks at the other two answers.
-/

namespace ParetoSearch

variable {X α β : Type}

/-! ## Dominance in both directions -/

section

variable [LT β] [LE β] [DecidableLT β] [DecidableLE β]

/-- Which of two vectors dominates the other. -/
def dominanceOrder (i j : List β) : Except (Fault α) Ordering := do
  if ← dominates? i j then return .lt
  if ← dominates? j i then return .gt
  return .eq

theorem dominanceOrder_eq_iff (i j : List β) :
    (dominanceOrder i j : Except (Fault α) Ordering) = .ok .eq ↔
      (dominates? i j : Except (Fault α) Bool) = .ok false ∧
        (dominates? j i : Except (Fault α) Bool) = .ok false := by
  unfold dominanceOrder
  rcases dominates? (α := α) i j with e | _ | _ <;>
    rcases dominates? (α := α) j i with e | _ | _ <;>
      simp [bind, Except.bind, pure, Except.pure]

theorem dominanceOrder_of_length_eq {i j : List β} (h : i.length = j.length) :
    (dominanceOrder i j : Except (Fault α) Ordering) =
      .ok (if dominates i j then .lt else if dominates j i then .gt else .eq) := by
  unfold dominanceOrder
  rw [dominates?_of_length_eq h, dominates?_of_length_eq h.symm]
  cases dominates i j <;> cases dominates j i <;> rfl

theorem dominanceOrder_lt_iff {i j : List β} (h : i.length = j.length) :
    (dominanceOrder i j : Except (Fault α) Ordering) = .ok .lt ↔ dominates i j = true := by
  rw [dominanceOrder_of_length_eq h]
  cases dominates i j <;> cases dominates j i <;> simp

theorem forall₂_le_of_order_lt {i j : List β} (h : i.length = j.length)
    (hlt : (dominanceOrder i j : Except (Fault α) Ordering) = .ok .lt) :
    List.Forall₂ (· ≤ ·) i j :=
  forall₂_le_of_dominates h ((dominanceOrder_lt_iff h).mp hlt)

theorem forall₂_le_of_order_gt {i j : List β} (h : i.length = j.length)
    (hgt : (dominanceOrder i j : Except (Fault α) Ordering) = .ok .gt) :
    List.Forall₂ (· ≤ ·) j i := by
  have hji : dominates j i = true := by
    rw [dominanceOrder_of_length_eq h] at hgt
    cases hd : dominates j i with
    | true => rfl
    | false => cases hi : dominates i j <;> simp [hd, hi] at hgt
  exact forall₂_le_of_dominates h.symm hji

theorem dominanceOrder_tie_comm {i j : List β}
    (h : (dominanceOrder i j : Except (Fault α) Ordering) = .ok .eq) :
    (dominanceOrder j i : Except (Fault α) Ordering) = .ok .eq :=
  (dominanceOrder_eq_iff j i).mpr ((dominanceOrder_eq_iff i j).mp h).symm

end

/-- Different vectors of which neither dominates the other cannot be compared. -/
theorem incomparable_of_tie [PartialOrder β] [Zero β] [DecidableLT β] [DecidableLE β]
    {i j : List β} (h : i.length = j.length) (hne : i ≠ j)
    (htie : (dominanceOrder i j : Except (Fault α) Ordering) = .ok .eq) :
    IncompRel (· ≤ ·) (entries i) (entries j) := by
  rw [dominanceOrder_eq_iff, dominates?_of_length_eq h, dominates?_of_length_eq h.symm,
    Except.ok.injEq, Except.ok.injEq, ← Bool.not_eq_true, ← Bool.not_eq_true,
    dominates_iff_entries_lt h, dominates_iff_entries_lt h.symm] at htie
  have hentries : entries i ≠ entries j := (entries_inj h).not.mpr hne
  exact ⟨fun hle => htie.1 (hle.lt_of_ne hentries), fun hle => htie.2 (hle.lt_of_ne hentries.symm)⟩

variable [Scalar α]

theorem comparePareto_eq (f g : List α) : comparePareto f g = dominanceOrder f g := rfl

/-! ## Boxes -/

namespace BoxSizes

theorem length_expand (b : BoxSizes α) (n : Nat) : (b.expand n).length = n := by
  simp only [expand, List.length_append, List.length_take, List.length_replicate]
  omega

theorem length_index (b : BoxSizes α) (f : List α) : (b.index f).length = f.length := by
  rw [index, List.length_zipWith, length_expand, Nat.min_self]

/-- Inside a box the nearer vector is preferred, and dominance settles a tie. -/
def compareInside (b : BoxSizes α) (f g : List α) : Except (Fault α) Ordering :=
  if b.cornerDistance f < b.cornerDistance g then .ok .lt
  else if b.cornerDistance g < b.cornerDistance f then .ok .gt
  else comparePareto f g

theorem compare_of_index_eq (b : BoxSizes α) {f g : List α} (h : b.index f = b.index g) :
    b.compare f g = b.compareInside f g := by
  simp only [compare, compareInside, h, ne_eq, not_true_eq_false, if_false]
  rfl

theorem compare_of_index_ne (b : BoxSizes α) {f g : List α} (h : b.index f ≠ b.index g) :
    b.compare f g = dominanceOrder (b.index f) (b.index g) := by
  simp only [compare, h, ne_eq, not_false_eq_true, if_true]
  rfl

theorem compareInside_tie_comm (b : BoxSizes α) {f g : List α}
    (h : b.compareInside f g = .ok .eq) : b.compareInside g f = .ok .eq := by
  unfold compareInside at h ⊢
  by_cases hfg : b.cornerDistance f < b.cornerDistance g
  · simp [hfg] at h
  · by_cases hgf : b.cornerDistance g < b.cornerDistance f
    · simp [hfg, hgf] at h
    · rw [if_neg hfg, if_neg hgf] at h
      rw [if_neg hgf, if_neg hfg]
      exact dominanceOrder_tie_comm h

theorem tie_comm (b : BoxSizes α) {f g : List α} (h : b.compare f g = .ok .eq) :
    b.compare g f = .ok .eq := by
  by_cases hbox : b.index f = b.index g
  · rw [compare_of_index_eq b hbox] at h
    rw [compare_of_index_eq b hbox.symm]
    exact compareInside_tie_comm b h
  · rw [compare_of_index_ne b hbox] at h
    rw [compare_of_index_ne b (Ne.symm hbox)]
    exact dominanceOrder_tie_comm h

end BoxSizes

/-! ## Violations -/

/-- An answer that the violations leave open. -/
def afterViolation (a b : Solution X α) (answer : Except (Fault α) Ordering) :
    Except (Fault α) Ordering :=
  match compareViolation a b with
  | .eq => answer
  | decided => .ok decided

theorem compareViolation_eq_iff (a b : Solution X α) :
    compareViolation a b = .eq ↔ (a.violation == b.violation) = true := by
  unfold compareViolation
  by_cases h : (a.violation == b.violation) = true
  · simp [h]
  · by_cases hlt : a.violation < b.violation <;> simp [h, hlt]

theorem afterViolation_eq_iff (a b : Solution X α) (answer : Except (Fault α) Ordering) :
    afterViolation a b answer = .ok .eq ↔ compareViolation a b = .eq ∧ answer = .ok .eq := by
  unfold afterViolation
  cases compareViolation a b <;> simp

theorem afterViolation_ok (a b : Solution X α) {answer : Except (Fault α) Ordering}
    (h : ∃ o, answer = .ok o) : ∃ o, afterViolation a b answer = .ok o := by
  obtain ⟨o, rfl⟩ := h
  unfold afterViolation
  cases compareViolation a b with
  | lt => exact ⟨.lt, rfl⟩
  | gt => exact ⟨.gt, rfl⟩
  | eq => exact ⟨o, rfl⟩

theorem BoxComparator.compare_eq (c : BoxComparator α) (a b : Solution X α) :
    c.compare a b = if c.violationFirst
      then afterViolation a b (c.boxes.compare a.objectives b.objectives)
      else c.boxes.compare a.objectives b.objectives := by
  unfold BoxComparator.compare afterViolation
  split
  · cases compareViolation a b <;> rfl
  · rfl

/-- Whatever the violations say, a tie between solutions is one between boxes. -/
theorem BoxComparator.boxes_tie (c : BoxComparator α) {a b : Solution X α}
    (h : c.compare a b = .ok .eq) : c.boxes.compare a.objectives b.objectives = .ok .eq := by
  rw [compare_eq] at h
  split at h
  · exact ((afterViolation_eq_iff a b _).mp h).2
  · exact h

/-! ## Fitness -/

theorem compareFitness_eq_iff (larger : Bool) (a b : Solution X α) :
    compareFitness larger a b = .ok .eq ↔
      ∃ x y, a.fitness? = some x ∧ b.fitness? = some y ∧ (x == y) = true := by
  unfold compareFitness
  cases a.fitness? with
  | none => simp
  | some x =>
    cases b.fitness? with
    | none => simp
    | some y =>
      by_cases hxy : (x == y) = true
      · simp [hxy]
      · by_cases hbetter : (if larger then decide (y < x) else decide (x < y)) = true <;>
          simp [hxy, hbetter]

/-! ## Chains -/

namespace Comparator

theorem compare_standard (a b : Solution X α) :
    standard.compare a b = afterViolation a b (comparePareto a.objectives b.objectives) := by
  simp only [standard, compare, compareFirst, afterViolation]
  cases compareViolation a b with
  | lt => rfl
  | gt => rfl
  | eq => rcases comparePareto a.objectives b.objectives with e | _ | _ | _ <;> rfl

theorem compare_chain_eq_iff (first : Comparator α) (rest : List (Comparator α))
    (a b : Solution X α) :
    compare (.chain first rest) a b = .ok .eq ↔
      compare first a b = .ok .eq ∧ compareFirst rest a b = .ok .eq := by
  rw [compare]
  rcases compare first a b with e | _ | _ | _ <;> simp

theorem compareFirst_cons_eq_iff (c : Comparator α) (rest : List (Comparator α))
    (a b : Solution X α) :
    compareFirst (c :: rest) a b = .ok .eq ↔
      compare c a b = .ok .eq ∧ compareFirst rest a b = .ok .eq := by
  rw [compareFirst]
  rcases compare c a b with e | _ | _ | _ <;> simp

end Comparator

/-! ## Ties in both directions -/

section

variable [SymmetricScalar α]

theorem compareViolation_tie_comm {a b : Solution X α} (h : compareViolation a b = .eq) :
    compareViolation b a = .eq := by
  rw [compareViolation_eq_iff] at h ⊢
  rw [SymmetricScalar.beq_comm]
  exact h

theorem compareFitness_tie_comm {larger : Bool} {a b : Solution X α}
    (h : compareFitness larger a b = .ok .eq) : compareFitness larger b a = .ok .eq := by
  rw [compareFitness_eq_iff] at h ⊢
  obtain ⟨x, y, hx, hy, hxy⟩ := h
  exact ⟨y, x, hy, hx, by rw [SymmetricScalar.beq_comm]; exact hxy⟩

theorem BoxComparator.tie_comm (c : BoxComparator α) {a b : Solution X α}
    (h : c.compare a b = .ok .eq) : c.compare b a = .ok .eq := by
  rw [compare_eq] at h ⊢
  split at h
  case isTrue hfirst =>
    rw [afterViolation_eq_iff] at h
    rw [if_pos hfirst, afterViolation_eq_iff]
    exact ⟨compareViolation_tie_comm h.1, c.boxes.tie_comm h.2⟩
  case isFalse hfirst =>
    rw [if_neg hfirst]
    exact c.boxes.tie_comm h

end

namespace Comparator

mutual

theorem tie_comm [SymmetricScalar α] : ∀ (c : Comparator α) {a b : Solution X α},
    compare c a b = .ok .eq → compare c b a = .ok .eq
  | .pareto, _, _, h => by
    rw [compare, comparePareto_eq] at h ⊢
    exact dominanceOrder_tie_comm h
  | .violation, a, b, h => by
    rw [compare, Except.ok.injEq] at h ⊢
    exact compareViolation_tie_comm h
  | .boxes rule, _, _, h => by
    rw [compare] at h ⊢
    exact rule.tie_comm h
  | .chain first rest, a, b, h => by
    rw [compare_chain_eq_iff] at h ⊢
    exact ⟨tie_comm first h.1, tie_comm_first rest h.2⟩
  | .fitness _, _, _, h => by
    rw [compare] at h ⊢
    exact compareFitness_tie_comm h
  | .undefined, _, _, h => by simp [compare] at h

theorem tie_comm_first [SymmetricScalar α] : ∀ (cs : List (Comparator α)) {a b : Solution X α},
    compareFirst cs a b = .ok .eq → compareFirst cs b a = .ok .eq
  | [], _, _, _ => rfl
  | c :: rest, a, b, h => by
    rw [compareFirst_cons_eq_iff] at h ⊢
    exact ⟨tie_comm c h.1, tie_comm_first rest h.2⟩

end

end Comparator
end ParetoSearch
