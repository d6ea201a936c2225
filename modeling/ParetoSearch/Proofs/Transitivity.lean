import Mathlib.Logic.Relation
import ParetoSearch.Proofs.Antisymmetry
import ParetoSearch.Proofs.Archive.Duplicates
import ParetoSearch.Proofs.Arithmetic.Chaining
import ParetoSearch.Proofs.Arithmetic.Distance

/-!
# Preferences that chain

The standard comparator and both comparators of boxes prefer in levels: by violation, by the
boxes, by the distance from the corner of a shared box, and by dominance.  Two of the levels
are read off a number and two are partial orders, and a chain of preferences may be decided
at a different level in each step.  It still never leads back to where it started
(`compare_transitive`).

What a level by a number has to do is leave a third value on one side or the other of two
that it tells apart (`Levelled`).  Then what ties at that level can be exchanged in a strict
preference, and the level below is asked only between solutions that all tie.  On doubles
this holds of violations because they are numbers.  It holds of distances even where
rounding leaves none, because then none of the vectors in the box has one.
-/

namespace ParetoSearch

variable {X α γ : Type}

/-! ## Levels by a number -/

section

variable [Scalar α]

/-- Where one value lies below another, a third is above the one or below the other. -/
def Levelled (value : γ → α) (P : γ → Prop) : Prop :=
  ∀ x y z, P x → P y → P z → value x < value z → value x < value y ∨ value y < value z

section

variable {value : γ → α} {P : γ → Prop} {x y z : γ}

theorem levelled_of_not_lt (h : ∀ x y, P x → P y → ¬ value x < value y) : Levelled value P :=
  fun x _ z hx _ hz hlt => absurd hlt (h x z hx hz)

theorem levelled_of_isNumber [ChainedScalar α]
    (h : ∀ x, P x → Scalar.isNumber (value x) = true) : Levelled value P :=
  fun _ y _ _ hy _ hlt => ChainedScalar.lt_or_lt_of_lt hlt (h y hy)

namespace Levelled

variable (h : Levelled value P) (hx : P x) (hy : P y) (hz : P z)

include h hx hy hz

theorem lt_of_lt_of_not_lt (hxy : value x < value y) (hzy : ¬ value z < value y) :
    value x < value z :=
  (h x z y hx hz hy hxy).resolve_right hzy

theorem lt_of_not_lt_of_lt (hyx : ¬ value y < value x) (hyz : value y < value z) :
    value x < value z :=
  (h y x z hy hx hz hyz).resolve_left hyx

theorem not_lt_trans (hxy : ¬ value x < value y) (hyz : ¬ value y < value z) :
    ¬ value x < value z :=
  fun hxz => (h x y z hx hy hz hxz).elim hxy hyz

theorem lt_trans [OrderlyScalar α] (hxy : value x < value y) (hyz : value y < value z) :
    value x < value z :=
  h.lt_of_lt_of_not_lt hx hy hz hxy (OrderlyScalar.lt_asymm hyz)

end Levelled

end

/-! ## Boxes -/

namespace BoxSizes

variable (b : BoxSizes α) {f g k : List α}

theorem compareInside_lt_iff (h : f.length = g.length) :
    b.compareInside f g = .ok .lt ↔ b.cornerDistance f < b.cornerDistance g ∨
      ¬ b.cornerDistance f < b.cornerDistance g ∧ ¬ b.cornerDistance g < b.cornerDistance f ∧
        dominates f g = true := by
  unfold compareInside
  by_cases hfg : b.cornerDistance f < b.cornerDistance g
  · simp [hfg]
  · by_cases hgf : b.cornerDistance g < b.cornerDistance f
    · simp [hfg, hgf]
    · simp only [hfg, hgf, if_false, false_or, not_false_eq_true, true_and]
      exact dominanceOrder_lt_iff h

theorem compare_lt_iff (h : f.length = g.length) :
    b.compare f g = .ok .lt ↔ b.index f = b.index g ∧ b.compareInside f g = .ok .lt ∨
      dominates (b.index f) (b.index g) = true := by
  have hlength : (b.index f).length = (b.index g).length := by
    rw [length_index, length_index, h]
  by_cases hbox : b.index f = b.index g
  · rw [compare_of_index_eq b hbox, hbox, not_dominates_self]
    simp
  · rw [compare_of_index_ne b hbox, dominanceOrder_lt_iff hlength]
    simp [hbox]

variable [ChainedScalar α]

theorem compareInside_trans {P : List α → Prop} (hlevels : Levelled b.cornerDistance P)
    (hf : P f) (hg : P g) (hk : P k) (hfg : f.length = g.length) (hgk : g.length = k.length)
    (hlt : b.compareInside f g = .ok .lt) (hlt' : b.compareInside g k = .ok .lt) :
    b.compareInside f k = .ok .lt := by
  rw [compareInside_lt_iff b hfg] at hlt
  rw [compareInside_lt_iff b hgk] at hlt'
  rw [compareInside_lt_iff b (hfg.trans hgk)]
  rcases hlt with hnear | ⟨hfg', hgf', hdominates⟩
  · refine Or.inl ?_
    rcases hlt' with hnear' | ⟨-, hkg', -⟩
    · exact hlevels.lt_trans hf hg hk hnear hnear'
    · exact hlevels.lt_of_lt_of_not_lt hf hg hk hnear hkg'
  · rcases hlt' with hnear' | ⟨hgk', hkg', hdominates'⟩
    · exact Or.inl (hlevels.lt_of_not_lt_of_lt hf hg hk hgf' hnear')
    · exact Or.inr ⟨hlevels.not_lt_trans hf hg hk hfg' hgk',
        hlevels.not_lt_trans hk hg hf hkg' hgf', dominates_trans hfg hgk hdominates hdominates'⟩

theorem compare_trans {P : List α → Prop}
    (hlevels : Levelled b.cornerDistance fun x => P x ∧ b.index x = b.index g)
    (hf : P f) (hg : P g) (hk : P k) (hfg : f.length = g.length) (hgk : g.length = k.length)
    (hlt : b.compare f g = .ok .lt) (hlt' : b.compare g k = .ok .lt) :
    b.compare f k = .ok .lt := by
  have hindex : (b.index f).length = (b.index g).length := by
    rw [length_index, length_index, hfg]
  have hindex' : (b.index g).length = (b.index k).length := by
    rw [length_index, length_index, hgk]
  rw [compare_lt_iff b hfg] at hlt
  rw [compare_lt_iff b hgk] at hlt'
  rw [compare_lt_iff b (hfg.trans hgk)]
  rcases hlt with ⟨hbox, hinside⟩ | hdominates
  · rw [hbox]
    rcases hlt' with ⟨hbox', hinside'⟩ | hdominates'
    · exact Or.inl ⟨hbox', compareInside_trans b hlevels ⟨hf, hbox⟩ ⟨hg, rfl⟩ ⟨hk, hbox'.symm⟩
        hfg hgk hinside hinside'⟩
    · exact Or.inr hdominates'
  · refine Or.inr ?_
    rcases hlt' with ⟨hbox', -⟩ | hdominates'
    · rwa [← hbox']
    · exact dominates_trans hindex hindex' hdominates hdominates'

end BoxSizes

/-! ## Violations -/

theorem afterViolation_lt_or (a b : Solution X α) (answer : Except (Fault α) Ordering) :
    afterViolation a b answer = .ok .lt ↔
      compareViolation a b = .lt ∨ compareViolation a b = .eq ∧ answer = .ok .lt := by
  unfold afterViolation
  cases compareViolation a b <;> simp

theorem smallerFirst_lt_iff [OrderlyScalar α] {x y : α} : smallerFirst x y = .lt ↔ x < y := by
  unfold smallerFirst
  cases hxy : x == y with
  | true => simp [OrderlyScalar.not_lt_of_beq hxy]
  | false => by_cases hlt : x < y <;> simp [hlt]

theorem smallerFirst_eq_iff [OrderlyScalar α] {x y : α} (hx : Scalar.isNumber x = true)
    (hy : Scalar.isNumber y = true) : smallerFirst x y = .eq ↔ ¬ x < y ∧ ¬ y < x := by
  unfold smallerFirst
  cases hxy : x == y with
  | true =>
    have hyx : (y == x) = true := SymmetricScalar.beq_comm x y ▸ hxy
    simp [OrderlyScalar.not_lt_of_beq hxy, OrderlyScalar.not_lt_of_beq hyx]
  | false =>
    have hone := OrderlyScalar.lt_or_lt hx hy hxy
    by_cases hlt : x < y <;> simp_all

variable [ChainedScalar α]

/-- Where violations tie all along, what is asked after them has to chain. -/
theorem afterViolation_trans {a b c : Solution X α} (ha : Scalar.isNumber a.violation = true)
    (hb : Scalar.isNumber b.violation = true) (hc : Scalar.isNumber c.violation = true)
    {p q r : Except (Fault α) Ordering} (h : p = .ok .lt → q = .ok .lt → r = .ok .lt)
    (hab : afterViolation a b p = .ok .lt) (hbc : afterViolation b c q = .ok .lt) :
    afterViolation a c r = .ok .lt := by
  have hlevels : Levelled (Solution.violation (X := X)) fun s : Solution X α =>
      Scalar.isNumber s.violation = true := levelled_of_isNumber fun _ hs => hs
  simp only [afterViolation_lt_or, compareViolation_eq, smallerFirst_lt_iff,
    smallerFirst_eq_iff, ha, hb, hc] at hab hbc ⊢
  rcases hab with hless | ⟨⟨hab, hba⟩, hp⟩
  · refine Or.inl ?_
    rcases hbc with hless' | ⟨⟨-, hcb⟩, -⟩
    · exact hlevels.lt_trans ha hb hc hless hless'
    · exact hlevels.lt_of_lt_of_not_lt ha hb hc hless hcb
  · rcases hbc with hless' | ⟨⟨hbc, hcb⟩, hq⟩
    · exact Or.inl (hlevels.lt_of_not_lt_of_lt ha hb hc hba hless')
    · exact Or.inr ⟨⟨hlevels.not_lt_trans ha hb hc hab hbc,
        hlevels.not_lt_trans hc hb ha hcb hba⟩, h hp hq⟩

end

/-! ## Comparators on doubles -/

/-- Finite numbers throughout, and so many objectives. -/
structure Solution.Finite (n : Nat) (s : Solution X Float) : Prop where
  length_eq : s.objectives.length = n
  objectives : s.objectives.all Scalar.isFinite = true
  constraints : s.constraints.all Scalar.isFinite = true

open Doubles

theorem Solution.Finite.isNumber_violation {n : Nat} {s : Solution X Float} (h : s.Finite n) :
    Scalar.isNumber s.violation = true :=
  s.isNumber_violation fun x hx => isNumber_of_isFinite (List.all_eq_true.mp h.constraints x hx)

/-- Finite vectors of one box all have a distance from its corner, or none has. -/
theorem BoxSizes.levelled_cornerDistance (b : BoxSizes Float) (box : List Int) :
    Levelled b.cornerDistance fun f => f.all Scalar.isFinite = true ∧ b.index f = box := by
  rcases distance_dichotomy (b.corner box) with hnumber | hnone
  · refine levelled_of_isNumber ?_
    rintro f ⟨hfinite, rfl⟩
    exact hnumber f hfinite
  · refine levelled_of_not_lt ?_
    rintro f g ⟨-, rfl⟩ hg
    have hcorner : f.length = (b.corner (b.index f)).length := by
      rw [corner, List.length_zipWith, length_expand, length_index, Nat.min_self]
    exact (not_lt_of_not_number (hnone f hcorner) _).1

namespace Comparator

/-- The standard comparator and those of boxes, with or without a look at violations first. -/
inductive Basic : Comparator Float → Prop
  | standard : Basic .standard
  | boxes (rule : BoxComparator Float) : Basic (.boxes rule)

variable {n : Nat}

theorem Basic.compare_trans {c : Comparator Float} (hc : Basic c) {r s t : Solution X Float}
    (hr : r.Finite n) (hs : s.Finite n) (ht : t.Finite n) (hrs : c.compare r s = .ok .lt)
    (hst : c.compare s t = .ok .lt) : c.compare r t = .ok .lt := by
  have hlength : r.objectives.length = s.objectives.length := hr.length_eq.trans hs.length_eq.symm
  have hlength' : s.objectives.length = t.objectives.length :=
    hs.length_eq.trans ht.length_eq.symm
  cases hc with
  | standard =>
    rw [compare_standard] at hrs hst ⊢
    refine afterViolation_trans hr.isNumber_violation hs.isNumber_violation
      ht.isNumber_violation (fun hp hq => ?_) hrs hst
    rw [comparePareto_eq, dominanceOrder_lt_iff hlength] at hp
    rw [comparePareto_eq, dominanceOrder_lt_iff hlength'] at hq
    rw [comparePareto_eq, dominanceOrder_lt_iff (hlength.trans hlength')]
    exact dominates_trans hlength hlength' hp hq
  | boxes rule =>
    have hboxes := rule.boxes.compare_trans
      (rule.boxes.levelled_cornerDistance (rule.boxes.index s.objectives)) hr.objectives
      hs.objectives ht.objectives hlength hlength'
    rw [compare, BoxComparator.compare_eq] at hrs hst ⊢
    cases hfirst : rule.violationFirst with
    | false =>
      simp only [hfirst, Bool.false_eq_true, if_false] at hrs hst ⊢
      exact hboxes hrs hst
    | true =>
      simp only [hfirst, if_true] at hrs hst ⊢
      exact afterViolation_trans hr.isNumber_violation hs.isNumber_violation
        ht.isNumber_violation hboxes hrs hst

theorem Basic.reads {c : Comparator Float} (hc : Basic c) {s : Solution X Float}
    (hs : s.Finite n) : c.Reads s := by
  cases hc with
  | standard => exact ⟨hs.isNumber_violation, trivial, trivial⟩
  | boxes rule => exact fun _ => hs.isNumber_violation

/-- A solution that is preferred to one that is preferred to a third is preferred to the
third, and no chain of preferences leads back to where it started. -/
theorem compare_transitive {c : Comparator Float} (hc : Basic c) (n : Nat) :
    (∀ {r s t : Solution X Float}, r.Finite n → s.Finite n → t.Finite n →
      c.compare r s = .ok .lt → c.compare s t = .ok .lt → c.compare r t = .ok .lt) ∧
    ∀ s : Solution X Float, ¬ Relation.TransGen
      (fun s t => s.Finite n ∧ t.Finite n ∧ c.compare s t = .ok .lt) s s := by
  have htrans : ∀ {r s t : Solution X Float}, r.Finite n → s.Finite n → t.Finite n →
      c.compare r s = .ok .lt → c.compare s t = .ok .lt → c.compare r t = .ok .lt :=
    fun hr hs ht => hc.compare_trans hr hs ht
  refine ⟨htrans, fun s hcycle => ?_⟩
  -- A chain of preferences is a preference, and nothing is preferred to itself.
  have hchain : ∀ {t : Solution X Float}, Relation.TransGen
      (fun s t => s.Finite n ∧ t.Finite n ∧ c.compare s t = .ok .lt) s t →
        s.Finite n ∧ t.Finite n ∧ c.compare s t = .ok .lt := by
    intro t h
    induction h with
    | single hone => exact hone
    | tail _ hlast ih => exact ⟨ih.1, hlast.2.1, htrans ih.1 ih.2.1 hlast.2.1 ih.2.2 hlast.2.2⟩
  obtain ⟨hs, -, hself⟩ := hchain hcycle
  rw [c.compare_self (hc.reads hs)] at hself
  cases hself

/-- Boxes of side one, after violations. -/
def squares : Comparator Float := .boxes ⟨⟨[1], nofun, by with_unfolding_all rfl⟩, true⟩

def inner : Solution Unit Float := ⟨(), [0.25, 0.5], [0.5], []⟩

def outer : Solution Unit Float := ⟨(), [0.75, 0.5], [0.5], []⟩

def beside : Solution Unit Float := ⟨(), [1.25, 0.25], [-0.5], []⟩

set_option maxRecDepth 2000 in
/-- The first preference is decided by a distance and the second by boxes. -/
theorem compare_transitive_beside :
    squares.compare inner outer = .ok .lt ∧ squares.compare outer beside = .ok .lt ∧
      squares.compare inner beside = .ok .lt ∧ ¬ Relation.TransGen
        (fun s t => s.Finite 2 ∧ t.Finite 2 ∧ squares.compare s t = .ok .lt) inner inner := by
  have hinner : inner.Finite 2 :=
    ⟨rfl, by with_unfolding_all rfl, by with_unfolding_all rfl⟩
  have houter : outer.Finite 2 :=
    ⟨rfl, by with_unfolding_all rfl, by with_unfolding_all rfl⟩
  have hbeside : beside.Finite 2 :=
    ⟨rfl, by with_unfolding_all rfl, by with_unfolding_all rfl⟩
  have hnear : squares.compare inner outer = .ok .lt := by with_unfolding_all rfl
  have hbox : squares.compare outer beside = .ok .lt := by with_unfolding_all rfl
  obtain ⟨htrans, hcycle⟩ := compare_transitive (X := Unit) (.boxes _) 2
  exact ⟨hnear, hbox, htrans hinner houter hbeside hnear hbox, hcycle inner⟩

end Comparator
end ParetoSearch
