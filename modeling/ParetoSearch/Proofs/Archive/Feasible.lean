import ParetoSearch.Proofs.Archive.Coverage
import ParetoSearch.Proofs.Arithmetic.Signs

/-!
# Feasible members

On doubles a violation is a number, infinite perhaps, or it is not a number at all.
Among numbers a feasible solution beats an infeasible one, and an archive that has
been offered a feasible solution holds feasible ones only.

A violation that is not a number beats nothing and is beaten by nothing.  Such a
solution is let in where it meets no member, and from then on it keeps everything
out, so the first solution that is offered settles which archive it will be
(`members_by_first_offer`).
-/

namespace ParetoSearch

open Doubles

/-! ## What a policy asks first -/

/-- The violations are compared before anything else, and vectors of one length are
always compared. -/
structure Policy.ViolationFirst {α : Type} [Scalar α] (X : Type) (p : Policy α) : Prop where
  compare_eq : ∀ a b : Solution X α, a.objectives.length = b.objectives.length →
    ∃ o, p.compare a b = afterViolation a b (.ok o)
  blocks_ok : ∀ a b : Solution X α, a.objectives.length = b.objectives.length →
    ∃ d, p.blocks a b = .ok d

section

variable {X α : Type} [Scalar α]

theorem Policy.ViolationFirst.standard : (Policy.standard : Policy α).ViolationFirst X where
  compare_eq a b h := by
    have hcompare : (Policy.standard : Policy α).compare a b =
        afterViolation a b (comparePareto a.objectives b.objectives) :=
      Comparator.compare_standard a b
    rw [hcompare, comparePareto_eq, dominanceOrder_of_length_eq h]
    exact ⟨_, rfl⟩
  blocks_ok a b h := by
    rw [Policy.standard, Policy.blocks, Policy.within_of_length_eq h]
    exact ⟨_, rfl⟩

theorem Policy.ViolationFirst.boxed (sizes : BoxSizes α) :
    (Policy.boxed ⟨sizes, true⟩).ViolationFirst X where
  compare_eq a b h := by
    obtain ⟨o, ho⟩ := sizes.compare_ok h
    rw [Policy.compare, BoxComparator.compare_eq, if_pos rfl, ho]
    exact ⟨o, rfl⟩
  blocks_ok a b h := by
    rw [Policy.blocks, Policy.within_of_length_eq h]
    split <;> exact ⟨_, rfl⟩

theorem Policy.ViolationFirst.add_ok {ι : Type} {look : ι → Solution X α} {p : Policy α} {n : Nat}
    {c : Container ι α} {s : ι} (hp : p.ViolationFirst X) (hpolicy : c.policy = p)
    (hlength : ∀ m ∈ c.members, (look m).objectives.length = n)
    (hs : (look s).objectives.length = n) : ∃ next added, c.add look s = .ok (next, added) := by
  subst hpolicy
  refine Container.add_ok (fun m hm => ?_) fun m hm =>
    hp.blocks_ok _ _ (hs.trans (hlength m hm).symm)
  obtain ⟨o, ho⟩ := hp.compare_eq _ _ (hs.trans (hlength m hm).symm)
  rw [ho]
  exact afterViolation_ok _ _ ⟨o, rfl⟩

end

/-! ## Violations on doubles -/

section

variable {X : Type} {a b : Solution X Float}

theorem Solution.unsigned_violation (s : Solution X Float) : Unsigned s.violation := by
  refine Vector.total_induction unsigned_zero (fun _ _ => Unsigned.add) fun x hx => ?_
  obtain ⟨c, -, rfl⟩ := List.mem_map.mp hx
  exact unsigned_abs c

/-- A violation that is not a number loses, whichever of the two is named first. -/
theorem compareViolation_of_not_number
    (h : Scalar.isNumber a.violation = false ∨ Scalar.isNumber b.violation = false) :
    compareViolation a b = .gt := by
  have hne : (a.violation == b.violation) = false := by
    rcases h with h | h
    · exact beq_of_not_number h _
    · rw [BEq.comm]
      exact beq_of_not_number h _
  have hlt : ¬ a.violation < b.violation := by
    rcases h with h | h
    · exact (not_lt_of_not_number h _).1
    · exact (not_lt_of_not_number h _).2
  rw [compareViolation, hne, if_neg Bool.false_ne_true, if_neg hlt]

theorem compareViolation_of_feasible (ha : a.feasible = true) (hb : b.feasible = false)
    (hnumber : Scalar.isNumber b.violation = true) : compareViolation a b = .lt := by
  have hne : (a.violation == b.violation) = false := by
    rw [BEq.comm, beq_of_beq_zero b.violation ha]
    exact hb
  have hlt : a.violation < b.violation := b.unsigned_violation.zero_lt hnumber hb ha
  rw [compareViolation, hne, if_neg Bool.false_ne_true, if_pos hlt]

theorem compareViolation_of_infeasible (ha : a.feasible = false) (hb : b.feasible = true) :
    compareViolation a b = .gt := by
  have hne : (a.violation == b.violation) = false := by
    rw [beq_of_beq_zero a.violation hb]
    exact ha
  have hlt : ¬ a.violation < b.violation := a.unsigned_violation.not_lt_zero hb
  rw [compareViolation, hne, if_neg Bool.false_ne_true, if_neg hlt]

theorem Solution.isNumber_of_feasible (h : a.feasible = true) :
    Scalar.isNumber a.violation = true := by
  by_contra hnot
  rw [Bool.not_eq_true] at hnot
  have hne : (a.violation == 0) = false := beq_of_not_number hnot 0
  rw [feasible, hne] at h
  exact Bool.false_ne_true h

end

/-! ## One insertion -/

section

variable {ι X : Type} {look : ι → Solution X Float} {p : Policy Float} {n : Nat}

/-- There are members, with numbers for their violations, and all of them are feasible if
anything was that was offered. -/
def Clean (look : ι → Solution X Float) (members offered : List ι) : Prop :=
  members ≠ [] ∧ (∀ m ∈ members, Scalar.isNumber (look m).violation = true) ∧
    ((∃ s ∈ offered, (look s).feasible = true) → ∀ m ∈ members, (look m).feasible = true)

/-- What the violations settle of the members, by the first solution that was offered. -/
def Settled (look : ι → Solution X Float) (members : List ι) : List ι → Prop
  | [] => members = []
  | first :: rest =>
    (Scalar.isNumber (look first).violation = false → members = [first]) ∧
      (Scalar.isNumber (look first).violation = true → Clean look members (first :: rest))

/-- The members were offered, have one number of objectives and are settled. -/
structure Container.Sound (look : ι → Solution X Float) (p : Policy Float) (n : Nat)
    (c : Container ι Float) (offered : List ι) : Prop where
  policy_eq : c.policy = p
  length_eq : ∀ m ∈ c.members, (look m).objectives.length = n
  subset : ∀ m ∈ c.members, m ∈ offered
  settled : Settled look c.members offered

namespace Policy.ViolationFirst

variable {c next : Container ι Float} {s : ι} {added : Bool}

theorem not_beaten_of_gt (hp : p.ViolationFirst X) {a b : Solution X Float}
    (hlen : a.objectives.length = b.objectives.length) (hgt : compareViolation a b = .gt) :
    p.compare a b = .ok .gt := by
  obtain ⟨o, ho⟩ := hp.compare_eq a b hlen
  rw [ho, afterViolation, hgt]

theorem beaten_of_lt (hp : p.ViolationFirst X) {a b : Solution X Float}
    (hlen : a.objectives.length = b.objectives.length) (hlt : compareViolation a b = .lt) :
    p.compare a b = .ok .lt := by
  obtain ⟨o, ho⟩ := hp.compare_eq a b hlen
  rw [ho, afterViolation, hlt]

/-- A member that wins by its violation keeps the candidate out. -/
theorem unchanged_of_gt (hp : p.ViolationFirst X) (hpolicy : c.policy = p) {m : ι}
    (hm : m ∈ c.members) (hlen : (look s).objectives.length = (look m).objectives.length)
    (hgt : compareViolation (look s) (look m) = .gt) (hadd : c.add look s = .ok (next, added)) :
    next = c := by
  subst hpolicy
  have hcompare := hp.not_beaten_of_gt hlen hgt
  cases added with
  | false => exact (Container.add_refuses hadd).1
  | true =>
    obtain ⟨left, -, -, hstay, hgone⟩ := Container.add_admits hadd
    rcases hgone m hm with hleft | hlt
    · have htie := (hstay m hleft).1
      rw [hcompare] at htie
      cases htie
    · rw [hcompare] at hlt
      cases hlt

/-- A feasible candidate either replaces every infeasible member or meets a feasible
one, if all violations are numbers. -/
theorem feasible_enters (hp : p.ViolationFirst X) (hpolicy : c.policy = p)
    (hlength : ∀ m ∈ c.members, (look m).objectives.length = n)
    (hs : (look s).objectives.length = n) (hfeasible : (look s).feasible = true)
    (hnumbers : ∀ m ∈ c.members, Scalar.isNumber (look m).violation = true)
    (hadd : c.add look s = .ok (next, added)) :
    (next = c ∧ ∃ m ∈ c.members, (look m).feasible = true) ∨
      ∀ m ∈ next.members, (look m).feasible = true := by
  subst hpolicy
  have hbeaten : ∀ m ∈ c.members, (look m).feasible = false →
      c.policy.compare (look s) (look m) = .ok .lt := fun m hm hnot =>
    hp.beaten_of_lt (hs.trans (hlength m hm).symm)
      (compareViolation_of_feasible hfeasible hnot (hnumbers m hm))
  cases added with
  | false =>
    obtain ⟨hsame, m, hm, hout⟩ := Container.add_refuses hadd
    refine Or.inl ⟨hsame, m, hm, ?_⟩
    by_contra hnot
    have hlt := hbeaten m hm (Bool.not_eq_true _ ▸ hnot)
    simp [hlt] at hout
  | true =>
    obtain ⟨left, rfl, hleft, hstay, -⟩ := Container.add_admits hadd
    refine Or.inr fun m hm => ?_
    rw [List.mem_append, List.mem_singleton] at hm
    rcases hm with hm | rfl
    · by_contra hnot
      have hlt := hbeaten m (hleft.subset hm) (Bool.not_eq_true _ ▸ hnot)
      have htie := (hstay m hm).1
      rw [hlt] at htie
      cases htie
    · exact hfeasible

end Policy.ViolationFirst

namespace Container

theorem members_ne_nil_of_add {c next : Container ι Float} {s : ι} {added : Bool}
    (hne : c.members ≠ []) (hadd : c.add look s = .ok (next, added)) : next.members ≠ [] := by
  cases added with
  | false =>
    rw [(add_refuses hadd).1]
    exact hne
  | true =>
    obtain ⟨left, rfl, -⟩ := add_admits hadd
    exact List.append_ne_nil_of_right_ne_nil left (List.cons_ne_nil s [])

section

variable {c next : Container ι Float} {offered : List ι} {s : ι} {added : Bool}

/-- The first offer is let in whatever it is. -/
theorem settled_first (hempty : c.members = []) (hadd : c.add look s = .ok (next, added)) :
    Settled look next.members [s] := by
  have hone : c.add look s = .ok ({ c with members := [s] }, true) := by
    rw [add, hempty]
    rfl
  rw [hone, Except.ok.injEq, Prod.mk.injEq] at hadd
  obtain ⟨rfl, -⟩ := hadd
  have hself {q : ι → Prop} (hq : q s) : ∀ m ∈ [s], q m := List.forall_mem_singleton.mpr hq
  refine ⟨fun _ => rfl, fun hnumber => ⟨List.cons_ne_nil s [], hself hnumber, ?_⟩⟩
  rintro ⟨t, ht, hfeasible⟩
  obtain rfl := List.mem_singleton.mp ht
  exact hself hfeasible

/-- Once the first offer had a number for its violation, feasible members stay among
themselves. -/
theorem Sound.clean_add (hp : p.ViolationFirst X) (hc : c.Sound look p n offered)
    (hs : (look s).objectives.length = n) (hadd : c.add look s = .ok (next, added))
    (hclean : Clean look c.members offered) : Clean look next.members (offered ++ [s]) := by
  obtain ⟨hpolicy, hlength, hsubset, -⟩ := hc
  obtain ⟨hne, hnumbers, hfeasible⟩ := hclean
  have hlen : ∀ m ∈ c.members, (look s).objectives.length = (look m).objectives.length :=
    fun m hm => hs.trans (hlength m hm).symm
  obtain ⟨m₀, hm₀⟩ := List.exists_mem_of_ne_nil c.members hne
  have hmem : ∀ t ∈ offered ++ [s], t ∈ offered ∨ t = s := fun t ht =>
    (List.mem_append.mp ht).imp_right List.mem_singleton.mp
  by_cases hs' : Scalar.isNumber (look s).violation = true
  case neg =>
    -- What is not a number does not get in, and is not feasible either.
    have hnot : Scalar.isNumber (look s).violation = false := Bool.not_eq_true _ ▸ hs'
    rw [hp.unchanged_of_gt hpolicy hm₀ (hlen m₀ hm₀)
      (compareViolation_of_not_number (Or.inl hnot)) hadd]
    refine ⟨hne, hnumbers, ?_⟩
    rintro ⟨t, ht, htf⟩
    rcases hmem t ht with ht | rfl
    · exact hfeasible ⟨t, ht, htf⟩
    · exact absurd (Solution.isNumber_of_feasible htf) hs'
  case pos =>
    refine ⟨members_ne_nil_of_add hne hadd, fun m hm => ?_, ?_⟩
    · rcases mem_of_add hadd hm with hm | rfl
      · exact hnumbers m hm
      · exact hs'
    · rintro ⟨t, ht, htf⟩
      by_cases hsf : (look s).feasible = true
      · rcases hp.feasible_enters hpolicy hlength hs hsf hnumbers hadd with
          ⟨rfl, m, hm, hmf⟩ | hall
        · exact hfeasible ⟨m, hsubset m hm, hmf⟩
        · exact hall
      · rcases hmem t ht with ht | rfl
        · have hall := hfeasible ⟨t, ht, htf⟩
          have hgt := compareViolation_of_infeasible (Bool.not_eq_true _ ▸ hsf) (hall m₀ hm₀)
          rw [hp.unchanged_of_gt hpolicy hm₀ (hlen m₀ hm₀) hgt hadd]
          exact hall
        · exact absurd htf hsf

theorem Sound.settled_add (hp : p.ViolationFirst X) (hc : c.Sound look p n offered)
    (hs : (look s).objectives.length = n) (hadd : c.add look s = .ok (next, added)) :
    Settled look next.members (offered ++ [s]) := by
  have hsettled := hc.settled
  cases offered with
  | nil => exact settled_first hsettled hadd
  | cons first rest =>
    obtain ⟨hstuck, hclean⟩ := hsettled
    refine ⟨fun hnot => ?_, fun hnumber => hc.clean_add hp hs hadd (hclean hnumber)⟩
    have hmembers := hstuck hnot
    have hm : first ∈ c.members := by rw [hmembers]; exact List.mem_cons_self
    have hlen := hs.trans (hc.length_eq first hm).symm
    rw [hp.unchanged_of_gt hc.policy_eq hm hlen
      (compareViolation_of_not_number (Or.inr hnot)) hadd]
    exact hmembers

end

theorem Sound.add {c : Container ι Float} {offered : List ι} {s : ι}
    (hp : p.ViolationFirst X) (hc : c.Sound look p n offered)
    (hs : (look s).objectives.length = n) :
    ∃ next added, c.add look s = .ok (next, added) ∧ next.Sound look p n (offered ++ [s]) := by
  obtain ⟨next, added, hadd⟩ := hp.add_ok hc.policy_eq hc.length_eq hs
  refine ⟨next, added, hadd, (policy_of_add hadd).trans hc.policy_eq, fun m hm => ?_,
    fun m hm => ?_, hc.settled_add hp hs hadd⟩
  · rcases mem_of_add hadd hm with hm | rfl
    · exact hc.length_eq m hm
    · exact hs
  · rcases mem_of_add hadd hm with hm | rfl
    · exact List.mem_append_left _ (hc.subset m hm)
    · exact List.mem_append_right _ (List.mem_singleton_self m)

theorem sound_run [DecidableEq ι] (hp : p.ViolationFirst X) (offers : List (Offer ι))
    (hoffers : ∀ s ∈ offers.flatMap Offer.solutions, (look s).objectives.length = n) :
    ((Container.empty p).run look (offers.map Offer.call)).Sound look p n
      (offers.flatMap Offer.solutions) := by
  have hstart : (Container.empty p : Container ι Float).Sound look p n [] :=
    ⟨rfl, by simp [Container.empty], by simp [Container.empty], rfl⟩
  have hrun := run_offers (P := fun c offered => c.Sound look p n offered)
    (fun hc hs => Sound.add hp hc hs) offers hoffers hstart
  rwa [List.nil_append] at hrun

end Container

/-! ## Runs of offers -/

/-- The first solution that is offered settles it.  If its violation is a number, then
once a feasible solution has been offered the archive holds feasible ones, and only
those.  If it is not a number, the archive never holds another. -/
theorem members_by_first_offer [DecidableEq ι]
    (hp : p = .standard ∨ ∃ sizes, p = .boxed ⟨sizes, true⟩) (look : ι → Solution X Float)
    (offers : List (Offer ι))
    (hoffers : ∀ s ∈ offers.flatMap Offer.solutions, (look s).objectives.length = n)
    {first : ι} (hfirst : (offers.flatMap Offer.solutions).head? = some first) :
    let members := ((Container.empty p).run look (offers.map Offer.call)).members
    (Scalar.isNumber (look first).violation = true →
      (∃ s ∈ offers.flatMap Offer.solutions, (look s).feasible = true) →
        members ≠ [] ∧ ∀ m ∈ members, (look m).feasible = true) ∧
      (Scalar.isNumber (look first).violation = false → members = [first]) := by
  intro members
  have hrule : p.ViolationFirst X := by
    rcases hp with rfl | ⟨sizes, rfl⟩
    · exact .standard
    · exact .boxed sizes
  obtain ⟨rest, hrest⟩ := List.head?_eq_some_iff.mp hfirst
  have hsettled := (Container.sound_run hrule offers hoffers).settled
  rw [hrest] at hsettled ⊢
  refine ⟨fun hnumber hsome => ?_, hsettled.1⟩
  obtain ⟨hne, -, hfeasible⟩ := hsettled.2 hnumber
  exact ⟨hne, hfeasible hsome⟩

end

/-- Solutions of which objectives and constraints are told. -/
def Solution.ofPairs (rows : List (List Float × List Float)) (i : Nat) : Solution Unit Float :=
  ⟨(), (rows.getD i ([], [])).1, (rows.getD i ([], [])).2, []⟩

/-- The first violates its constraint infinitely, the second by what is not a number,
and the third not at all. -/
def violators : Nat → Solution Unit Float :=
  Solution.ofPairs [([1, 2], [1 / 0]), ([0, 0], [0 / 0]), ([3, 3], [-0.0])]

set_option maxRecDepth 2000 in
theorem members_by_first_offer_violators :
    let members := ((Container.empty .standard).run violators
      ([.one 0, .all [1, 2]].map Offer.call)).members
    Scalar.isNumber (violators 0).violation = true ∧
      (∀ s ∈ [0, 1, 2], (violators s).objectives.length = 2) ∧
        (∃ s ∈ [0, 1, 2], (violators s).feasible = true) ∧
          members ≠ [] ∧ ∀ m ∈ members, (violators m).feasible = true := by
  have hnumber : Scalar.isNumber (violators 0).violation = true := by with_unfolding_all rfl
  have hlengths : ∀ s ∈ [0, 1, 2], (violators s).objectives.length = 2 := by decide
  have hfeasible : ∃ s ∈ [0, 1, 2], (violators s).feasible = true :=
    ⟨2, by decide, by with_unfolding_all rfl⟩
  exact ⟨hnumber, hlengths, hfeasible,
    (members_by_first_offer (Or.inl rfl) violators [.one 0, .all [1, 2]] hlengths rfl).1 hnumber
      hfeasible⟩

def wideBoxes : BoxSizes Float := ⟨[2], by decide, by decide⟩

set_option maxRecDepth 2000 in
/-- A feasible solution is kept out of an archive of either kind. -/
theorem feasible_kept_out :
    let offers : List (Call Nat) := [.one 1, .one 2].map Offer.call
    ((Container.empty .standard).run violators offers).members = [1] ∧
      ((Container.empty (.boxed ⟨wideBoxes, true⟩)).run violators offers).members = [1] ∧
        (violators 2).feasible = true ∧ (violators 1).feasible = false := by
  with_unfolding_all exact ⟨rfl, rfl, rfl, rfl⟩

end ParetoSearch
