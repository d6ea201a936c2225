import Mathlib.Algebra.Order.BigOperators.Ring.Finset
import Mathlib.Data.Fintype.BigOperators
import Mathlib.Data.List.Pairwise
import ParetoSearch.Proofs.Archive.Session
import ParetoSearch.Proofs.Comparator

/-!
# Members that are apart

Whatever calls an archive has seen, any two of its members tie under its
comparator and neither blocks the other (`session_members_tie`).  Insertion asks
this in one direction only, of the newcomer about each member that stays, and the
other direction rests on ties being symmetric.

In an archive of boxes, members that tie lie in boxes neither of which dominates
the other.  Two such boxes differ in at least two objectives, so leaving out any
one objective still tells the members apart, and the boxes of the others bound
their number (`session_boxes_thin`).  For this the direction in which insertion
asks is enough.
-/

namespace ParetoSearch

/-! ## Policies in both directions -/

namespace Policy

variable {X α : Type} [Scalar α]

/-- The tolerance within which a policy takes two members for duplicates. -/
def tolerance? : Policy α → Option (Option α)
  | .unrestricted => none
  | .nondominated _ tolerance => some tolerance
  | .boxed _ => some (some standardTolerance)

theorem within_of_not_blocks {p : Policy α} {a b : Solution X α}
    (h : p.blocks a b = .ok false) {tolerance : Option α}
    (ht : p.tolerance? = some tolerance) :
    within tolerance a.objectives b.objectives = .ok false := by
  cases p with
  | unrestricted => simp [tolerance?] at ht
  | nondominated c t =>
    rw [tolerance?, Option.some.injEq] at ht
    subst ht
    exact h
  | boxed rule =>
    rw [tolerance?, Option.some.injEq] at ht
    subst ht
    rw [blocks] at h
    split at h
    · simp at h
    · exact h

theorem sameBox_of_not_blocks {rule : BoxComparator α} {a b : Solution X α}
    (h : (Policy.boxed rule).blocks a b = .ok false) :
    rule.boxes.index a.objectives ≠ rule.boxes.index b.objectives := by
  intro heq
  rw [blocks, BoxSizes.sameBox, heq, beq_self_eq_true, if_pos rfl] at h
  simp at h

variable [SymmetricScalar α]

theorem within_comm (tolerance : Option α) (f g : List α) :
    within tolerance f g = within tolerance g f := by
  have hnorm (pairs : List (α × α)) :
      Vector.norm ((pairs.map Prod.swap).map fun p => p.1 - p.2) =
        Vector.norm (pairs.map fun p => p.1 - p.2) := by
    simp only [Vector.norm, List.map_map]
    congr 2
    refine List.map_congr_left fun p _ => ?_
    exact SymmetricScalar.sub_mul_self_comm p.2 p.1
  unfold within
  rw [Vector.pairUp_swap f g]
  cases Vector.pairUp (α := α) f g with
  | error e => rfl
  | ok pairs =>
    simp only [Except.map, bind, Except.bind, hnorm]

theorem tie_comm (p : Policy α) {a b : Solution X α} (h : p.compare a b = .ok .eq) :
    p.compare b a = .ok .eq := by
  cases p with
  | unrestricted => rfl
  | nondominated c t => exact c.tie_comm h
  | boxed rule => exact rule.tie_comm h

end Policy

/-! ## The invariant -/

variable {ι X α : Type} [Scalar α]

/-- Each member, asked about those before it, ties with them and is not blocked. -/
def Container.Apart (look : ι → Solution X α) (c : Container ι α) : Prop :=
  c.members.Pairwise fun older newer =>
    c.policy.compare (look newer) (look older) = .ok .eq ∧
      c.policy.blocks (look newer) (look older) = .ok false

theorem apart_invariant (look : ι → Solution X α) :
    Session.Invariant look fun c _ => c.Apart look where
  start _ := List.Pairwise.nil
  enter {c next offered s} h hadd := by
    obtain ⟨left, rfl, hleft, hties, -⟩ := Container.add_admits hadd
    refine List.pairwise_append.mpr ⟨h.sublist hleft, List.pairwise_singleton _ _, ?_⟩
    intro m hm k hk
    rw [List.mem_singleton] at hk
    subst hk
    exact hties m hm
  fewer h hleft := h.sublist hleft
  more h _ := h

theorem members_offered_invariant (look : ι → Solution X α) :
    Session.Invariant look fun (c : Container ι α) offered => ∀ m ∈ c.members, m ∈ offered where
  start _ := by simp [Container.empty]
  enter {c next offered s} h hadd := by
    obtain ⟨left, rfl, hleft, -, -⟩ := Container.add_admits hadd
    intro m hm
    rcases List.mem_append.mp hm with hm | hm
    · exact List.mem_append_left _ (h m (hleft.subset hm))
    · exact List.mem_append_right _ hm
  fewer h hleft m hm := h m (hleft.subset hm)
  more h extra m hm := List.mem_append_left _ (h m hm)

/-- After every call of a session on doubles, any two members of an archive at
different places, in either order, tie under its comparator and are further apart
than its tolerance. -/
theorem session_members_tie [DecidableEq ι] (look : ι → Solution X Float)
    (events : List (Event ι Float)) :
    ∀ r ∈ Session.run look events,
      ∀ i j (hi : i < r.archive.members.length) (hj : j < r.archive.members.length), i ≠ j →
        r.archive.policy.compare (look r.archive.members[i]) (look r.archive.members[j]) =
            .ok .eq ∧
          ∀ tolerance, r.archive.policy.tolerance? = some tolerance →
            Policy.within tolerance (look r.archive.members[i]).objectives
              (look r.archive.members[j]).objectives = .ok false := by
  intro r hr i j hi hj hij
  have hapart := List.pairwise_iff_getElem.mp ((apart_invariant look).session events r hr)
  -- Insertion put its questions to the later of the two.
  rcases Nat.lt_or_gt_of_ne hij with hlt | hgt
  · obtain ⟨htie, hfree⟩ := hapart i j hi hj hlt
    refine ⟨r.archive.policy.tie_comm htie, fun tolerance ht => ?_⟩
    rw [Policy.within_comm]
    exact Policy.within_of_not_blocks hfree ht
  · obtain ⟨htie, hfree⟩ := hapart j i hj hi hgt
    exact ⟨htie, fun tolerance ht => Policy.within_of_not_blocks hfree ht⟩

/-- The third has an objective that is not a number. -/
def unmeasured : Nat → Solution Unit Float :=
  Solution.ofRows [[1, 2], [2, 1], [0 / 0, 0], [3, 3]]

/-- On the archive a removal fails, on its copy an offer. -/
def unmeasuredEvents : List (Event Nat Float) :=
  [.construct .standard [.solution 0, .solution 3], .copy 0, .call 0 (.add (.solution 2)),
    .call 0 (.removeAt (-3)), .call 1 (.addAll [.solution 1, .other "str", .solution 2])]

set_option maxRecDepth 2000 in
theorem session_members_tie_unmeasured :
    Session.run unmeasured unmeasuredEvents =
        [⟨⟨.standard, [0, 2]⟩, [0, 3, 2]⟩, ⟨⟨.standard, [0, 1]⟩, [0, 3, 1, 2]⟩] ∧
      Policy.standard.compare (unmeasured 0) (unmeasured 2) = .ok .eq ∧
        Policy.within (some Policy.standardTolerance) (unmeasured 0).objectives
          (unmeasured 2).objectives = .ok false := by
  have hrun : Session.run unmeasured unmeasuredEvents =
      [⟨⟨.standard, [0, 2]⟩, [0, 3, 2]⟩, ⟨⟨.standard, [0, 1]⟩, [0, 3, 1, 2]⟩] := by
    with_unfolding_all rfl
  have hfirst : ⟨⟨.standard, [0, 2]⟩, [0, 3, 2]⟩ ∈ Session.run unmeasured unmeasuredEvents := by
    rw [hrun]
    exact List.mem_cons_self
  obtain ⟨htie, hfar⟩ := session_members_tie unmeasured unmeasuredEvents _ hfirst 0 1
    (by decide) (by decide) (by decide)
  exact ⟨hrun, htie, hfar _ rfl⟩

/-! ## Boxes that tie -/

namespace BoxSizes

/-- Different boxes that tie differ in two objectives at least: leaving one out
still tells them apart. -/
theorem differ_off_of_tie (b : BoxSizes α) {f g : List α} (h : f.length = g.length)
    (hne : b.index f ≠ b.index g) (htie : b.compare f g = .ok .eq) (j : Nat) :
    ∃ k < f.length, k ≠ j ∧ (b.index f)[k]? ≠ (b.index g)[k]? := by
  by_contra hnone
  have hlen : (b.index f).length = (b.index g).length := by
    rw [length_index, length_index, h]
  have hagree : ∀ k, k ≠ j → (b.index f)[k]? = (b.index g)[k]? := by
    intro k hk
    by_cases hkf : k < f.length
    · by_contra hdiffer
      exact hnone ⟨k, hkf, hk, hdiffer⟩
    · rw [List.getElem?_eq_none (by rw [length_index]; omega),
        List.getElem?_eq_none (by rw [length_index]; omega)]
  rw [compare_of_index_ne b hne, dominanceOrder_eq_iff, dominates?_of_length_eq hlen,
    dominates?_of_length_eq hlen.symm] at htie
  simp only [Except.ok.injEq] at htie
  rcases dominates_of_agree_off hlen hagree with heq | hfg | hgf
  · exact hne heq
  · exact absurd (htie.1.symm.trans hfg) (by decide)
  · exact absurd (htie.2.symm.trans hgf) (by decide)

end BoxSizes

/-- Members told apart by their entries at some places are at most as many as
there are combinations of the entries offered at those places. -/
theorem length_le_prod_of_differ {κ : Type} [DecidableEq κ] {members offered : List ι}
    (entry : ι → Nat → κ) (places : Finset Nat) (hsub : ∀ m ∈ members, m ∈ offered)
    (hdiffer : members.Pairwise fun p q => ∃ k ∈ places, entry p k ≠ entry q k)
    {K : Nat → Nat} (hK : ∀ k ∈ places, (offered.map (entry · k)).toFinset.card ≤ K k) :
    members.length ≤ ∏ k ∈ places, K k := by
  classical
  -- What is seen of a member is the family of its entries at the places, and members
  -- that differ at one of them are seen differently.
  let view : ι → (k : Nat) → k ∈ places → κ := fun m k _ => entry m k
  have hnodup : (members.map view).Nodup := by
    refine List.pairwise_map.mpr (hdiffer.imp ?_)
    rintro p q ⟨k, hk, hne⟩ heq
    exact hne (congrFun (congrFun heq k) hk)
  have hview : (members.map view).toFinset ⊆
      places.pi fun k => (offered.map (entry · k)).toFinset := by
    intro v hv
    obtain ⟨m, hm, rfl⟩ := List.mem_map.mp (List.mem_toFinset.mp hv)
    refine Finset.mem_pi.mpr fun k hk => ?_
    exact List.mem_toFinset.mpr (List.mem_map_of_mem (hsub m hm))
  calc members.length = (members.map view).toFinset.card := by
        rw [List.toFinset_card_of_nodup hnodup, List.length_map]
    _ ≤ (places.pi fun k => (offered.map (entry · k)).toFinset).card :=
        Finset.card_le_card hview
    _ = ∏ k ∈ places, (offered.map (entry · k)).toFinset.card := Finset.card_pi _ _
    _ ≤ ∏ k ∈ places, K k := Finset.prod_le_prod (fun _ _ => Nat.zero_le _) hK

/-- In an archive of boxes that was offered solutions with `n` objectives, no two
members share a box, nor do they once any one objective is left out.  So the
members are at most as many as the combinations of the box indices offered in the
other objectives. -/
theorem session_boxes_thin [DecidableEq ι] (look : ι → Solution X α)
    (events : List (Event ι α)) :
    ∀ r ∈ Session.run look events, ∀ rule, r.archive.policy = .boxed rule →
      ∀ n, (∀ s ∈ r.offered, (look s).objectives.length = n) →
        let box := fun s k => (rule.boxes.index (look s).objectives)[k]?
        (r.archive.members.Pairwise fun p q =>
          rule.boxes.index (look p).objectives ≠ rule.boxes.index (look q).objectives) ∧
        ∀ j,
          (r.archive.members.Pairwise fun p q => ∃ k < n, k ≠ j ∧ box p k ≠ box q k) ∧
          ∀ K : Nat → Nat,
            (∀ k < n, k ≠ j → (r.offered.map (box · k)).toFinset.card ≤ K k) →
              r.archive.members.length ≤ ∏ k ∈ (Finset.range n).erase j, K k := by
  intro r hr rule hrule n hn box
  have hsub := (members_offered_invariant look).session events r hr
  have hapart := (apart_invariant look).session events r hr
  rw [Container.Apart, hrule] at hapart
  have hboxes : r.archive.members.Pairwise fun p q =>
      rule.boxes.index (look p).objectives ≠ rule.boxes.index (look q).objectives :=
    hapart.imp fun h => (Policy.sameBox_of_not_blocks h.2).symm
  have hdiffer : ∀ j, r.archive.members.Pairwise fun p q =>
      ∃ k < n, k ≠ j ∧ box p k ≠ box q k := by
    intro j
    refine (hapart.and hboxes).imp_of_mem ?_
    rintro p q hp hq ⟨⟨htie, -⟩, hne⟩
    have hpn := hn p (hsub p hp)
    have hqn := hn q (hsub q hq)
    obtain ⟨k, hk, hkj, hbox⟩ := rule.boxes.differ_off_of_tie (hqn.trans hpn.symm)
      (Ne.symm hne) (rule.boxes_tie htie) j
    exact ⟨k, hqn ▸ hk, hkj, Ne.symm hbox⟩
  refine ⟨hboxes, fun j => ⟨hdiffer j, fun K hK => ?_⟩⟩
  refine length_le_prod_of_differ box _ hsub ((hdiffer j).imp ?_) fun k hk => ?_
  · rintro p q ⟨k, hk, hkj, hbox⟩
    exact ⟨k, Finset.mem_erase.mpr ⟨hkj, Finset.mem_range.mpr hk⟩, hbox⟩
  · rw [Finset.mem_erase, Finset.mem_range] at hk
    exact hK k hk.2 hk.1

/-- The third lies in the box of the first, and the fourth in one that is
dominated. -/
def crowded : Nat → Solution Unit Float :=
  Solution.ofRows [[0.5, 1.5], [1.5, 0.5], [0.25, 1.75], [1.5, 1.5]]

def crowdedRule : BoxComparator Float := ⟨⟨[1], by decide, by decide⟩, true⟩

def crowdedEvents : List (Event Nat Float) :=
  [.construct (.boxed crowdedRule) [.solution 0],
    .call 0 (.addAll [.solution 1, .solution 2, .solution 3])]

set_option maxRecDepth 2000 in
theorem session_boxes_thin_crowded :
    Session.run crowded crowdedEvents = [⟨⟨.boxed crowdedRule, [0, 1]⟩, [0, 1, 2, 3]⟩] ∧
      (([0, 1, 2, 3] : List Nat).map fun s =>
          (crowdedRule.boxes.index (crowded s).objectives)[1]?).toFinset.card = 2 ∧
        [0, 1].length ≤ ∏ _k ∈ (Finset.range 2).erase 0, 2 := by
  have hrun : Session.run crowded crowdedEvents =
      [⟨⟨.boxed crowdedRule, [0, 1]⟩, [0, 1, 2, 3]⟩] := by
    with_unfolding_all rfl
  have hmem : ⟨⟨.boxed crowdedRule, [0, 1]⟩, [0, 1, 2, 3]⟩ ∈
      Session.run crowded crowdedEvents := by
    rw [hrun]
    exact List.mem_cons_self
  have hcount : (([0, 1, 2, 3] : List Nat).map fun s =>
      (crowdedRule.boxes.index (crowded s).objectives)[1]?).toFinset.card = 2 := by
    decide +kernel
  obtain ⟨-, hthin⟩ := session_boxes_thin crowded crowdedEvents _ hmem crowdedRule rfl 2
    (by decide)
  refine ⟨hrun, hcount, (hthin 0).2 (fun _ => 2) fun k hk hk0 => ?_⟩
  obtain rfl : k = 1 := by omega
  exact hcount.le

end ParetoSearch
