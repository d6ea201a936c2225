import ParetoSearch.Proofs.Antisymmetry
import ParetoSearch.Proofs.Archive.Apart
import ParetoSearch.Proofs.Archive.Feasible
import ParetoSearch.Proofs.Arithmetic.Special

/-!
# Members offered again

An archive takes two solutions for the same when their objectives are no further apart
than its tolerance.  For finite objectives equal vectors have distance zero, so no two
members are equal and a member that is offered again stays out.

An infinity has no distance from itself.  A member with an infinite objective is not
recognised when it comes again, nor when another solution with its vector comes, and is let
in each time.  `session_members_again` tells the two cases apart by nothing but the
finiteness of the objectives.
-/

namespace ParetoSearch

open Doubles

/-! ## Offers that tie with every member -/

section

variable {ι X α : Type} [Scalar α] {look : ι → Solution X α} {c : Container ι α} {s : ι}

namespace Container

theorem add_of_free (h : ∀ m ∈ c.members, c.policy.compare (look s) (look m) = .ok .eq ∧
      c.policy.blocks (look s) (look m) = .ok false) :
    c.add look s = .ok ({ c with members := c.members ++ [s] }, true) := by
  obtain ⟨next, added, hadd⟩ :=
    add_ok (fun m hm => ⟨.eq, (h m hm).1⟩) fun m hm => ⟨false, (h m hm).2⟩
  cases added with
  | false =>
    obtain ⟨-, m, hm, hout⟩ := add_refuses hadd
    simp [h m hm] at hout
  | true =>
    have hall : c.members.filter (fun m => !beaten (c.policy.compare (look s) (look m))) =
        c.members := List.filter_eq_self.mpr fun m hm => by simp [(h m hm).1, beaten]
    rw [hadd, (add_admits_eq hadd).1, hall]

theorem add_of_blocked (h : ∀ m ∈ c.members, c.policy.compare (look s) (look m) = .ok .eq ∧
      ∃ d, c.policy.blocks (look s) (look m) = .ok d) {m : ι} (hm : m ∈ c.members)
    (hblocks : c.policy.blocks (look s) (look m) = .ok true) :
    c.add look s = .ok (c, false) := by
  obtain ⟨next, added, hadd⟩ := add_ok (fun k hk => ⟨.eq, (h k hk).1⟩) fun k hk => (h k hk).2
  cases added with
  | false => rw [hadd, (add_refuses hadd).1]
  | true =>
    have hstays := (add_admits_eq hadd).2 m hm
    simp [h m hm, hblocks] at hstays

end Container

variable [SymmetricScalar α] {comparator : Comparator α} {tolerance : α}

/-- Against any member but itself, a member ties and is far enough away. -/
theorem Container.Apart.of_mem (h : c.Apart look)
    (hpolicy : c.policy = .nondominated comparator (some tolerance)) {m k : ι}
    (hm : m ∈ c.members) (hk : k ∈ c.members) :
    k = m ∨ comparator.compare (look m) (look k) = .ok .eq ∧
      Policy.within (some tolerance) (look m).objectives (look k).objectives = .ok false := by
  have hapart := List.pairwise_iff_getElem.mp h
  rw [hpolicy] at hapart
  obtain ⟨i, hi, rfl⟩ := List.mem_iff_getElem.mp hm
  obtain ⟨j, hj, rfl⟩ := List.mem_iff_getElem.mp hk
  rcases Nat.lt_trichotomy i j with hlt | rfl | hgt
  · obtain ⟨htie, hfar⟩ := hapart i j hi hj hlt
    exact Or.inr ⟨comparator.tie_comm htie, (Policy.within_comm _ _ _).trans hfar⟩
  · exact Or.inl rfl
  · exact Or.inr (hapart j i hj hi hgt)

end

/-! ## Equal vectors -/

section

variable {f g : List Float} {tolerance : Float}

theorem forall₂_of_beq (h : (f == g) = true) :
    List.Forall₂ (fun x y => (x == y) = true) f g := by
  induction f generalizing g with
  | nil =>
    cases g with
    | nil => exact List.Forall₂.nil
    | cons y ys => cases h
  | cons x xs ih =>
    cases g with
    | nil => cases h
    | cons y ys =>
      rw [List.cons_beq_cons, Bool.and_eq_true] at h
      exact List.Forall₂.cons h.1 (ih h.2)

theorem differences_beq_zero (hfinite : f.all Scalar.isFinite = true) (h : (f == g) = true) :
    ∀ d ∈ (f.zip g).map fun p => p.1 - p.2, (d == 0) = true := by
  intro d hd
  obtain ⟨⟨x, y⟩, hp, rfl⟩ := List.mem_map.mp hd
  have hx : Scalar.isFinite x = true := List.all_eq_true.mp hfinite x (List.of_mem_zip hp).1
  exact sub_beq_zero hx ((List.forall₂_iff_zip.mp (forall₂_of_beq h)).2 hp)

theorem within_of_beq (htolerance : 0 ≤ tolerance) (hfinite : f.all Scalar.isFinite = true)
    (h : (f == g) = true) : Policy.within (some tolerance) f g = .ok true := by
  have hzero := norm_beq_zero (differences_beq_zero hfinite h)
  rw [Policy.within_of_length_eq (forall₂_of_beq h).length_eq]
  exact congrArg Except.ok (decide_eq_true (le_of_beq_zero hzero htolerance))

theorem differences_self (f : List Float) :
    ((f.zip f).map fun p => p.1 - p.2) = f.map fun x => x - x := by
  rw [List.map_zip_eq_zipWith, List.zipWith_self]
  rfl

theorem within_self (htolerance : 0 ≤ tolerance) (hfinite : f.all Scalar.isFinite = true) :
    Policy.within (some tolerance) f f = .ok true := by
  have hzero : (Vector.norm (f.map fun x => x - x) == 0) = true :=
    norm_beq_zero (List.forall_mem_map.mpr (List.all_eq_true.mp hfinite))
  rw [Policy.within_of_length_eq rfl, differences_self]
  exact congrArg Except.ok (decide_eq_true (le_of_beq_zero hzero htolerance))

/-- An infinite vector is not within any tolerance of itself. -/
theorem not_within_self (tolerance : Float) (h : f.all Scalar.isFinite = false) :
    Policy.within (some tolerance) f f = .ok false := by
  obtain ⟨x, hx, hnot⟩ := List.all_eq_false.mp h
  have hnorm : Scalar.isNumber (Vector.norm (f.map fun x => x - x)) = false :=
    norm_not_number ⟨x - x, List.mem_map_of_mem hx, sub_self_not_number (Bool.not_eq_true _ ▸ hnot)⟩
  rw [Policy.within_of_length_eq rfl, differences_self]
  exact congrArg Except.ok (decide_eq_false (not_le_of_not_number hnorm tolerance))

end

/-! ## Members and newcomers -/

theorem Solution.isNumber_violation {X : Type} {s : Solution X Float}
    (h : ∀ x ∈ s.constraints, Scalar.isNumber x = true) : Scalar.isNumber s.violation = true := by
  refine (Vector.total_induction (P := fun x => Unsigned x ∧ Scalar.isNumber x = true)
    ⟨unsigned_zero, rfl⟩ (fun x y hx hy => ?_) fun x hx => ?_).2
  · exact ⟨hx.1.add hy.1, hx.1.isNumber_add hy.1 hx.2 hy.2⟩
  · obtain ⟨c, hc, rfl⟩ := List.mem_map.mp hx
    exact ⟨unsigned_abs c, isNumber_abs (h c hc)⟩

theorem Comparator.standard_self {X : Type} {s : Solution X Float}
    (h : ∀ x ∈ s.constraints, Scalar.isNumber x = true) :
    Comparator.standard.compare s s = .ok .eq :=
  compare_self .standard ⟨s.isNumber_violation h, trivial, trivial⟩

/-- In every archive of a session that goes by the standard rule, with any tolerance, two
members with equal objectives have infinite ones.  A member that is offered again is kept
out if its objectives are finite, and is let in a second time if not. -/
theorem session_members_again {ι X : Type} [DecidableEq ι] (look : ι → Solution X Float)
    (events : List (Event ι Float)) :
    ∀ r ∈ Session.run look events, ∀ tolerance, 0 ≤ tolerance →
      r.archive.policy = .nondominated .standard (some tolerance) →
      (∀ s ∈ r.offered, ∀ x ∈ (look s).constraints, Scalar.isNumber x = true) →
        (r.archive.members.Pairwise fun a b =>
          ((look a).objectives == (look b).objectives) = true →
            (look a).objectives.all Scalar.isFinite = false) ∧
          ∀ m ∈ r.archive.members, r.archive.add look m = .ok
            (if (look m).objectives.all Scalar.isFinite then (r.archive, false)
              else ({ r.archive with members := r.archive.members ++ [m] }, true)) := by
  intro r hr tolerance htolerance hpolicy hconstraints
  have hapart : r.archive.Apart look := (apart_invariant look).session events r hr
  have hoffered := (members_offered_invariant look).session events r hr
  constructor
  · refine hapart.imp fun {a b} hfree hequal => Bool.eq_false_iff.mpr fun hfinite => ?_
    have hwithin := within_of_beq htolerance hfinite hequal
    rw [Policy.within_comm] at hwithin
    rw [hpolicy] at hfree
    exact absurd (hwithin.symm.trans hfree.2) (by simp)
  · intro m hm
    have hself : Comparator.standard.compare (look m) (look m) = .ok .eq :=
      Comparator.standard_self (hconstraints m (hoffered m hm))
    have hothers := fun k (hk : k ∈ r.archive.members) => hapart.of_mem hpolicy hm hk
    cases hfinite : (look m).objectives.all Scalar.isFinite with
    | true =>
      have hwithin := within_self htolerance hfinite
      refine Container.add_of_blocked (fun k hk => ?_) hm (by rw [hpolicy]; exact hwithin)
      rw [hpolicy]
      rcases hothers k hk with rfl | ⟨htie, hfar⟩
      · exact ⟨hself, true, hwithin⟩
      · exact ⟨htie, false, hfar⟩
    | false =>
      refine Container.add_of_free fun k hk => ?_
      rw [hpolicy]
      rcases hothers k hk with rfl | hother
      · exact ⟨hself, not_within_self tolerance hfinite⟩
      · exact hother

/-- The second and the third have one infinite vector, and the fourth a vector that the
first dominates. -/
def unbounded : Nat → Solution Unit Float :=
  Solution.ofPairs [([1, 2], [0.5]), ([1 / 0, 0], [-0.5]), ([1 / 0, 0], [0.5]), ([3, 3], [0.5])]

def unboundedEvents : List (Event Nat Float) :=
  [.construct .standard [], .call 0 (.add (.solution 0)),
    .call 0 (.addAll [.solution 1, .solution 2, .solution 3])]

set_option maxRecDepth 2000 in
theorem session_members_again_unbounded :
    Session.run unbounded unboundedEvents = [⟨⟨.standard, [0, 1, 2]⟩, [0, 1, 2, 3]⟩] ∧
      (0 : Float) ≤ Policy.standardTolerance ∧
        (∀ s ∈ [0, 1, 2, 3], ∀ x ∈ (unbounded s).constraints, Scalar.isNumber x = true) ∧
          (⟨.standard, [0, 1, 2]⟩ : Container Nat Float).add unbounded 0 =
              .ok (⟨.standard, [0, 1, 2]⟩, false) ∧
            (⟨.standard, [0, 1, 2]⟩ : Container Nat Float).add unbounded 1 =
              .ok (⟨.standard, [0, 1, 2, 1]⟩, true) := by
  have hrun : Session.run unbounded unboundedEvents =
      [⟨⟨.standard, [0, 1, 2]⟩, [0, 1, 2, 3]⟩] := by with_unfolding_all rfl
  have hmember : ⟨⟨.standard, [0, 1, 2]⟩, [0, 1, 2, 3]⟩ ∈
      Session.run unbounded unboundedEvents := by
    rw [hrun]
    exact List.mem_cons_self
  have htolerance : (0 : Float) ≤ Policy.standardTolerance := by decide
  have hnumbers : ∀ s ∈ [0, 1, 2, 3], ∀ x ∈ (unbounded s).constraints,
      Scalar.isNumber x = true := by decide
  have hfinite : (unbounded 0).objectives.all Scalar.isFinite = true := by with_unfolding_all rfl
  have hinfinite : (unbounded 1).objectives.all Scalar.isFinite = false := by
    with_unfolding_all rfl
  obtain ⟨-, hagain⟩ := session_members_again unbounded unboundedEvents _ hmember
    Policy.standardTolerance htolerance rfl hnumbers
  have hfirst := hagain 0 (by decide)
  have hsecond := hagain 1 (by decide)
  rw [hfinite] at hfirst
  rw [hinfinite] at hsecond
  exact ⟨hrun, htolerance, hnumbers, hfirst, hsecond⟩

set_option maxRecDepth 2000 in
/-- Numbers for objectives and finite constraints are not enough: two solutions with equal
vectors are members, and one of them is let in again. -/
theorem equal_vectors_admitted :
    let archive := (Container.empty .standard).run unbounded ([.one 1, .one 2].map Offer.call)
    (∀ s ∈ [1, 2], (unbounded s).objectives.all Scalar.isNumber = true ∧
        (unbounded s).constraints.all Scalar.isFinite = true) ∧
      archive.members = [1, 2] ∧
        ((unbounded 1).objectives == (unbounded 2).objectives) = true ∧
          archive.add unbounded 1 = .ok (⟨.standard, [1, 2, 1]⟩, true) := by
  refine ⟨by decide, ?_⟩
  with_unfolding_all exact ⟨rfl, rfl, rfl⟩

end ParetoSearch
