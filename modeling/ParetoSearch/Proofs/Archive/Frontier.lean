import Mathlib.Data.Prod.Lex
import Mathlib.Order.Comparable
import ParetoSearch.Proofs.Archive.Coverage
import ParetoSearch.Proofs.Front

/-!
# Fronts of what was offered

An archive decides on each candidate by the members of the moment, and these depend
on the order in which solutions came.  What it ends with does not depend on the
members in between: it is a filter on the list of everything that was offered.

A policy compares solutions by their merit, an element of a partial order: the
violation first, then the objectives or the box, entry by entry.  The members show
what the minimal merits offered show, each once (`Frontier.keys_perm`).  Two fields of
the invariant are enough for this.  Every offer lies above a member, and no two members
can be compared, so a member that an offer lay strictly below would lie above another
member.

The standard archive with no tolerance moreover keeps the first of equals, and so it
is known member by member (`standard_members_eq_front`).  An archive of boxes may
replace the member of a box by another one, and only its boxes are known
(`boxed_boxes_perm_front`).
-/

namespace ParetoSearch

/-! ## Merit -/

variable {ι κ X α β : Type}

namespace Solution

/-- The violation, and among equal violations the entries of a vector made from the
objectives. -/
def merit [Scalar α] [Zero β] (key : List α → List β) (s : Solution X α) : α ×ₗ (Nat → β) :=
  toLex (s.violation, entries (key s.objectives))

section

variable [ExactScalar α] [Zero β] {key : List α → List β} {a b : Solution X α}

theorem merit_eq_iff : a.merit key = b.merit key ↔
    a.violation = b.violation ∧ entries (key a.objectives) = entries (key b.objectives) := by
  rw [merit, merit, toLex_inj, Prod.mk.injEq]

variable [PartialOrder β]

theorem merit_le_iff : a.merit key ≤ b.merit key ↔
    a.violation < b.violation ∨ a.violation = b.violation ∧
      entries (key a.objectives) ≤ entries (key b.objectives) := Prod.Lex.toLex_le_toLex

theorem merit_lt_iff : a.merit key < b.merit key ↔
    a.violation < b.violation ∨ a.violation = b.violation ∧
      entries (key a.objectives) < entries (key b.objectives) := Prod.Lex.toLex_lt_toLex

end

end Solution

/-- Minimal merits have one violation, so their vectors tell them apart. -/
theorem merit_eq_iff_of_minimals [ExactScalar α] [PartialOrder β] [Zero β] (look : ι → Solution X α)
    (key : List α → List β) {n : Nat} {ss : List ι}
    (hlength : ∀ s ∈ ss, (key (look s).objectives).length = n) {s t : ι}
    (hs : s ∈ minimals (fun s => (look s).merit key) ss)
    (ht : t ∈ minimals (fun s => (look s).merit key) ss) :
    (look s).merit key = (look t).merit key ↔
      key (look s).objectives = key (look t).objectives := by
  rw [mem_minimals] at hs ht
  have hviolation : (look s).violation = (look t).violation := by
    refine le_antisymm (le_of_not_gt fun hlt => ?_) (le_of_not_gt fun hlt => ?_)
    · exact hs.2 t ht.1 (Solution.merit_lt_iff.mpr (Or.inl hlt))
    · exact ht.2 s hs.1 (Solution.merit_lt_iff.mpr (Or.inl hlt))
  rw [Solution.merit_eq_iff, entries_inj ((hlength s hs.1).trans (hlength t ht.1).symm),
    and_iff_right hviolation]

/-! ## Archives that go by merit -/

/-- The members of an archive whose merits cannot be compared, below every offer. -/
structure Container.Frontier [Scalar α] [PartialOrder κ] (p : Policy α) (admissible : ι → Prop)
    (merit : ι → κ) (c : Container ι α) (offered : List ι) : Prop where
  policy_eq : c.policy = p
  admissible : ∀ m ∈ c.members, admissible m
  subset : ∀ m ∈ c.members, m ∈ offered
  covers : ∀ t ∈ offered, ∃ m ∈ c.members, merit m ≤ merit t
  apart : c.members.Pairwise fun a b => IncompRel (· ≤ ·) (merit a) (merit b)

namespace Container.Frontier

variable [Scalar α] [PartialOrder κ] {p : Policy α} {admissible : ι → Prop} {merit : ι → κ}
  {c : Container ι α} {offered : List ι}

theorem empty : (Container.empty p).Frontier p admissible merit [] :=
  ⟨rfl, by simp [Container.empty], by simp [Container.empty], by simp, List.Pairwise.nil⟩

theorem eq_of_le (h : c.Frontier p admissible merit offered) {a b : ι} (ha : a ∈ c.members)
    (hb : b ∈ c.members) (hle : merit a ≤ merit b) : a = b := by
  by_contra hne
  have : Std.Symm fun a b => IncompRel (· ≤ ·) (merit a) (merit b) := ⟨fun _ _ hab => hab.symm⟩
  exact (h.apart.forall ha hb hne).1 hle

theorem subset_minimals (h : c.Frontier p admissible merit offered) :
    ∀ m ∈ c.members, m ∈ minimals merit offered := by
  intro m hm
  refine (mem_minimals merit).mpr ⟨h.subset m hm, fun t ht hlt => ?_⟩
  obtain ⟨below, hbelow, hle⟩ := h.covers t ht
  have heq : below = m := h.eq_of_le hbelow hm (hle.trans hlt.le)
  exact hlt.not_ge (heq ▸ hle)

theorem exists_of_minimal (h : c.Frontier p admissible merit offered) {t : ι}
    (ht : t ∈ minimals merit offered) : ∃ m ∈ c.members, merit m = merit t := by
  obtain ⟨ht, hmin⟩ := (mem_minimals merit).mp ht
  obtain ⟨m, hm, hle⟩ := h.covers t ht
  exact ⟨m, hm, hle.eq_of_not_lt (hmin m (h.subset m hm))⟩

end Container.Frontier

/-- The members hold each of the minimal vectors once. -/
theorem Container.Frontier.keys_perm [ExactScalar α] [PartialOrder β] [Zero β] [DecidableEq β]
    {p : Policy α} {admissible : ι → Prop} {look : ι → Solution X α} {key : List α → List β}
    {n : Nat} {c : Container ι α} {offered : List ι}
    (h : c.Frontier p admissible (fun s => (look s).merit key) offered)
    (hlength : ∀ s ∈ offered, (key (look s).objectives).length = n) :
    (c.members.map fun s => key (look s).objectives).Perm
      ((minimals (fun s => (look s).merit key) offered).map fun s =>
        key (look s).objectives).dedup := by
  have hkey {s t : ι} (hs : s ∈ minimals (fun s => (look s).merit key) offered)
      (ht : t ∈ minimals (fun s => (look s).merit key) offered) :=
    merit_eq_iff_of_minimals look key hlength hs ht
  have hnodup : (c.members.map fun s => key (look s).objectives).Nodup := by
    refine List.pairwise_map.mpr (h.apart.imp_of_mem fun {s t} hs ht hapart heq => ?_)
    exact hapart.1 ((hkey (h.subset_minimals s hs) (h.subset_minimals t ht)).mpr heq).le
  rw [List.perm_ext_iff_of_nodup hnodup (List.nodup_dedup _)]
  intro k
  rw [List.mem_dedup, List.mem_map, List.mem_map]
  constructor
  · rintro ⟨m, hm, rfl⟩
    exact ⟨m, h.subset_minimals m hm, rfl⟩
  · rintro ⟨t, ht, rfl⟩
    obtain ⟨m, hm, heq⟩ := h.exists_of_minimal ht
    exact ⟨m, hm, (hkey (h.subset_minimals m hm) ht).mp heq⟩

/-- A policy that compares admissible solutions by violation and then by `answer`, and
with it by the order of the vectors that `key` makes from their objectives. -/
structure Policy.Ranks [Scalar α] [PartialOrder β] [Zero β] (p : Policy α)
    (look : ι → Solution X α) (admissible : ι → Prop)
    (answer : List α → List α → Except (Fault α) Ordering) (key : List α → List β) : Prop where
  compare_eq : ∀ a b : Solution X α,
    p.compare a b = afterViolation a b (answer a.objectives b.objectives)
  answers : ∀ {s m}, admissible s → admissible m →
    ∃ o, answer (look s).objectives (look m).objectives = .ok o
  decides : ∀ {s m}, admissible s → admissible m → ∃ d, p.blocks (look s) (look m) = .ok d
  le_of_lt : ∀ {s m}, admissible s → admissible m →
    answer (look s).objectives (look m).objectives = .ok .lt →
      entries (key (look s).objectives) ≤ entries (key (look m).objectives)
  le_of_gt : ∀ {s m}, admissible s → admissible m →
    answer (look s).objectives (look m).objectives = .ok .gt →
      entries (key (look m).objectives) ≤ entries (key (look s).objectives)
  le_of_blocks : ∀ {s m}, admissible s → admissible m → p.blocks (look s) (look m) = .ok true →
    entries (key (look m).objectives) ≤ entries (key (look s).objectives)
  apart : ∀ {s m}, admissible s → admissible m →
    answer (look s).objectives (look m).objectives = .ok .eq →
      p.blocks (look s) (look m) = .ok false →
        IncompRel (· ≤ ·) (entries (key (look s).objectives))
          (entries (key (look m).objectives))

namespace Policy.Ranks

variable [ExactScalar α] [PartialOrder β] [Zero β] {p : Policy α} {look : ι → Solution X α}
  {admissible : ι → Prop} {answer : List α → List α → Except (Fault α) Ordering}
  {key : List α → List β} {c next : Container ι α} {offered : List ι} {s m : ι}

theorem merit_le_of_beats (h : p.Ranks look admissible answer key) (hs : admissible s)
    (hm : admissible m) (hlt : p.compare (look s) (look m) = .ok .lt) :
    (look s).merit key ≤ (look m).merit key := by
  rw [h.compare_eq, afterViolation_lt_iff] at hlt
  rw [Solution.merit_le_iff]
  exact hlt.imp_right (And.imp_right (h.le_of_lt hs hm))

theorem merit_le_of_beaten (h : p.Ranks look admissible answer key) (hs : admissible s)
    (hm : admissible m) (hgt : p.compare (look s) (look m) = .ok .gt) :
    (look m).merit key ≤ (look s).merit key := by
  rw [h.compare_eq, afterViolation_gt_iff] at hgt
  rw [Solution.merit_le_iff]
  exact hgt.imp_right (And.imp Eq.symm (h.le_of_gt hs hm))

theorem violation_eq_of_tie (h : p.Ranks look admissible answer key)
    (htie : p.compare (look s) (look m) = .ok .eq) :
    (look s).violation = (look m).violation ∧
      answer (look s).objectives (look m).objectives = .ok .eq := by
  rwa [h.compare_eq, afterViolation_eq_iff, compareViolation_eq_cmp, cmp_eq_eq_iff] at htie

theorem merit_le_of_blocked (h : p.Ranks look admissible answer key) (hs : admissible s)
    (hm : admissible m) (htie : p.compare (look s) (look m) = .ok .eq)
    (hblock : p.blocks (look s) (look m) = .ok true) :
    (look m).merit key ≤ (look s).merit key := by
  rw [Solution.merit_le_iff]
  exact Or.inr ⟨(h.violation_eq_of_tie htie).1.symm, h.le_of_blocks hs hm hblock⟩

theorem merit_apart (h : p.Ranks look admissible answer key) (hs : admissible s)
    (hm : admissible m) (htie : p.compare (look s) (look m) = .ok .eq)
    (hfree : p.blocks (look s) (look m) = .ok false) :
    IncompRel (· ≤ ·) ((look s).merit key) ((look m).merit key) := by
  obtain ⟨hviolation, hanswer⟩ := h.violation_eq_of_tie htie
  obtain ⟨hsm, hms⟩ := h.apart hs hm hanswer hfree
  simp only [IncompRel, Solution.merit_le_iff, hviolation, lt_irrefl, false_or, true_and]
  exact ⟨hsm, hms⟩

theorem frontier_add (h : p.Ranks look admissible answer key)
    (hc : c.Frontier p admissible (fun s => (look s).merit key) offered) (hs : admissible s) :
    ∃ next added, c.add look s = .ok (next, added) ∧
      next.Frontier p admissible (fun s => (look s).merit key) (offered ++ [s]) := by
  obtain ⟨hpolicy, hadm, hsubset, hcovers, hapart⟩ := hc
  subst hpolicy
  obtain ⟨next, added, hadd⟩ := Container.add_ok
    (fun m hm => by
      rw [h.compare_eq]
      exact afterViolation_ok _ _ (h.answers hs (hadm m hm)))
    (fun m hm => h.decides hs (hadm m hm))
  refine ⟨next, added, hadd, Container.policy_of_add hadd, fun m hm => ?_, fun m hm => ?_, ?_, ?_⟩
  · rcases Container.mem_of_add hadd hm with hm | rfl
    · exact hadm m hm
    · exact hs
  · rcases Container.mem_of_add hadd hm with hm | rfl
    · exact List.mem_append_left _ (hsubset m hm)
    · exact List.mem_append_right _ (List.mem_singleton_self m)
  · exact Container.add_covers hadd hcovers le_rfl
      (fun m hm => h.merit_le_of_beaten hs (hadm m hm))
      (fun m hm => h.merit_le_of_blocked hs (hadm m hm))
      (fun m hm _ hlt hle => (h.merit_le_of_beats hs (hadm m hm) hlt).trans hle)
  · cases added with
    | false =>
      rw [(Container.add_refuses hadd).1]
      exact hapart
    | true =>
      obtain ⟨left, rfl, hleft, hties, -⟩ := Container.add_admits hadd
      refine List.pairwise_append.mpr ⟨hapart.sublist hleft, List.pairwise_singleton _ _, ?_⟩
      intro m hm k hk
      rw [List.mem_singleton] at hk
      subst hk
      exact (h.merit_apart hs (hadm m (hleft.subset hm)) (hties m hm).1 (hties m hm).2).symm

/-- Whatever the order of the offers, the archive ends as their front. -/
theorem frontier_addAll (h : p.Ranks look admissible answer key) (ss : List ι)
    (hss : ∀ s ∈ ss, admissible s) :
    ∃ next added, (Container.empty p).addAll look ss = (next, .ok added) ∧
      next.Frontier p admissible (fun s => (look s).merit key) ss := by
  exact Container.addAll_ok
    (P := fun c offered => c.Frontier p admissible (fun s => (look s).merit key) offered)
    (fun hc hs => h.frontier_add hc hs) ss hss Container.Frontier.empty

/-- A policy that lets in nothing equal to a member keeps the first of equals. -/
theorem members_add (h : p.Ranks look admissible answer key)
    (hstrict : ∀ {s m}, admissible s → admissible m →
      answer (look s).objectives (look m).objectives = .ok .lt →
        entries (key (look s).objectives) < entries (key (look m).objectives))
    (hc : c.Frontier p admissible (fun s => (look s).merit key) offered)
    (hmembers : c.members = frontBy (fun s => (look s).merit key) offered) (hs : admissible s)
    {added : Bool} (hadd : c.add look s = .ok (next, added)) :
    next.members = frontBy (fun s => (look s).merit key) (offered ++ [s]) := by
  have hpolicy := hc.policy_eq
  subst hpolicy
  cases added with
  | false =>
    obtain ⟨rfl, m, hm, hout⟩ := Container.add_refuses hadd
    have hle : (look m).merit key ≤ (look s).merit key := by
      rcases hout with hgt | ⟨htie, hblock⟩
      · exact h.merit_le_of_beaten hs (hc.admissible m hm) hgt
      · exact h.merit_le_of_blocked hs (hc.admissible m hm) htie hblock
    rw [frontBy_concat_of_le _ (hc.subset m hm) hle, hmembers]
  | true =>
    obtain ⟨rfl, hanswers⟩ := Container.add_admits_eq hadd
    have hfree : ∀ t ∈ offered, ¬ (look t).merit key ≤ (look s).merit key := by
      intro t ht hts
      obtain ⟨m, hm, hmt⟩ := hc.covers t ht
      rcases hanswers m hm with hlt | ⟨htie, hblock⟩
      · have hsm : (look s).merit key < (look m).merit key := by
          rw [h.compare_eq, afterViolation_lt_iff] at hlt
          rw [Solution.merit_lt_iff]
          exact hlt.imp_right (And.imp_right (hstrict hs (hc.admissible m hm)))
        exact hsm.not_ge (hmt.trans hts)
      · exact (h.merit_apart hs (hc.admissible m hm) htie hblock).2 (hmt.trans hts)
    rw [frontBy_concat_of_not_le _ hfree, ← hmembers]
    refine congrArg (· ++ [s]) (List.filter_congr fun m hm => ?_)
    rcases hanswers m hm with hlt | ⟨htie, hblock⟩
    · simp [hlt, beaten, h.merit_le_of_beats hs (hc.admissible m hm) hlt]
    · simp [htie, beaten, (h.merit_apart hs (hc.admissible m hm) htie hblock).1]

theorem members_addAll (h : p.Ranks look admissible answer key)
    (hstrict : ∀ {s m}, admissible s → admissible m →
      answer (look s).objectives (look m).objectives = .ok .lt →
        entries (key (look s).objectives) < entries (key (look m).objectives))
    (ss : List ι) (hss : ∀ s ∈ ss, admissible s) :
    ∃ next added, (Container.empty p).addAll look ss = (next, .ok added) ∧ next.policy = p ∧
      next.members = frontBy (fun s => (look s).merit key) ss := by
  have hempty : (Container.empty p).Frontier p admissible (fun s => (look s).merit key) [] ∧
      (Container.empty p).members = frontBy (fun s => (look s).merit key) [] :=
    ⟨Container.Frontier.empty, rfl⟩
  obtain ⟨next, added, hall, hnext, hmembers⟩ := Container.addAll_ok
    (P := fun c offered => c.Frontier p admissible (fun s => (look s).merit key) offered ∧
      c.members = frontBy (fun s => (look s).merit key) offered)
    (fun hc hs => by
      obtain ⟨next, added, hadd, hnext⟩ := h.frontier_add hc.1 hs
      exact ⟨next, added, hadd, hnext, h.members_add hstrict hc.1 hc.2 hs hadd⟩)
    ss hss hempty
  exact ⟨next, added, hall, hnext.policy_eq, hmembers⟩

/-- The vectors that the archive ends with do not depend on the order of the offers. -/
theorem keys_perm_of_perm [DecidableEq β] (h : p.Ranks look admissible answer key) {n : Nat}
    {ss order : List ι} (hss : ∀ s ∈ ss, admissible s)
    (hlength : ∀ s ∈ ss, (key (look s).objectives).length = n) (horder : order.Perm ss) :
    (((Container.empty p).addAll look order).1.members.map fun s =>
        key (look s).objectives).Perm
      (((Container.empty p).addAll look ss).1.members.map fun s => key (look s).objectives) := by
  obtain ⟨c, added, hall, hc⟩ := h.frontier_addAll ss hss
  obtain ⟨d, more, hother, hd⟩ :=
    h.frontier_addAll order fun s hs => hss s (horder.mem_iff.mp hs)
  rw [hall, hother]
  have hlast := hd.keys_perm fun s hs => hlength s (horder.mem_iff.mp hs)
  have hsame := ((minimals_perm (fun s => (look s).merit key) horder).map fun s =>
    key (look s).objectives).dedup
  exact (hlast.trans hsame).trans (hc.keys_perm hlength).symm

end Policy.Ranks

/-! ## The front as a filter -/

section

variable [Scalar α]

/-- The solutions with the least violation. -/
def leastViolating (look : ι → Solution X α) (ss : List ι) : List ι :=
  ss.filter fun s => ss.all fun t => decide ((look s).violation ≤ (look t).violation)

/-- The solutions whose objectives the mask marks. -/
def undominated (look : ι → Solution X α) (ss : List ι) : List ι :=
  ((ss.zip (nondominatedMask (ss.map fun s => (look s).objectives))).filter Prod.snd).map Prod.fst

theorem undominated_eq_filter (look : ι → Solution X α) (ss : List ι) :
    undominated look ss = ss.filter fun s =>
      !dominatedBy (ss.map fun t => (look t).objectives) (look s).objectives := by
  rw [undominated, nondominatedMask, List.map_map]
  exact filter_zip_map ss _ id

end

section

variable [ExactScalar α]

theorem mem_leastViolating {look : ι → Solution X α} {ss : List ι} {s : ι} :
    s ∈ leastViolating look ss ↔
      s ∈ ss ∧ ∀ t ∈ ss, (look s).violation ≤ (look t).violation := by
  simp [leastViolating]

/-- Minimal merit is the least violation, and among those that have it a vector that
none dominates. -/
theorem minimals_merit [PartialOrder β] [Zero β] [DecidableLT β] [DecidableLE β]
    (look : ι → Solution X α) (key : List α → List β) {n : Nat} {ss : List ι}
    (hlength : ∀ s ∈ ss, (key (look s).objectives).length = n) :
    minimals (fun s => (look s).merit key) ss =
      (leastViolating look ss).filter fun s =>
        !dominatedBy ((leastViolating look ss).map fun t => key (look t).objectives)
          (key (look s).objectives) := by
  classical
  have hdominates : ∀ t ∈ ss, ∀ s ∈ ss,
      dominates (key (look t).objectives) (key (look s).objectives) = true ↔
        entries (key (look t).objectives) < entries (key (look s).objectives) := fun t ht s hs =>
    dominates_iff_entries_lt ((hlength t ht).trans (hlength s hs).symm)
  unfold leastViolating
  rw [minimals, List.filter_filter]
  refine List.filter_congr fun s hs => ?_
  rw [Bool.eq_iff_iff, decide_eq_true_eq, Bool.and_eq_true, Bool.not_eq_true', ← Bool.not_eq_true,
    dominatedBy, List.any_map, List.any_eq_true, List.all_eq_true]
  simp only [decide_eq_true_eq, Function.comp]
  change _ ↔ (¬ ∃ t ∈ leastViolating look ss, _) ∧ _
  constructor
  · intro hmin
    refine ⟨?_, fun t ht => le_of_not_gt fun hlt => ?_⟩
    · rintro ⟨t, ht, hts⟩
      obtain ⟨ht, hleast⟩ := mem_leastViolating.mp ht
      refine hmin t ht (Solution.merit_lt_iff.mpr ?_)
      exact (hleast s hs).lt_or_eq.imp_right fun heq => ⟨heq, (hdominates t ht s hs).mp hts⟩
    · exact hmin t ht (Solution.merit_lt_iff.mpr (Or.inl hlt))
  · rintro ⟨hfree, hleast⟩ t ht hlt
    rcases Solution.merit_lt_iff.mp hlt with hlt | ⟨heq, hlt⟩
    · exact (hleast t ht).not_gt hlt
    · refine hfree ⟨t, mem_leastViolating.mpr ⟨ht, fun u hu => heq ▸ hleast u hu⟩, ?_⟩
      exact (hdominates t ht s hs).mpr hlt

/-! ## The standard archive without tolerance -/

theorem Policy.within_zero {f g : List α} (h : f.length = g.length) :
    within (some 0) f g = .ok (decide (f = g)) := by
  rw [within_of_length_eq h, Except.ok.injEq, decide_eq_decide, Vector.norm_sub_le_zero_iff h]

theorem standard_ranks (look : ι → Solution X α) (n : Nat) :
    (Policy.nondominated .standard (some 0)).Ranks look
      (fun s => (look s).objectives.length = n) comparePareto id where
  compare_eq a b := Comparator.compare_standard a b
  answers {s m} hs hm := by
    rw [comparePareto_eq, dominanceOrder_of_length_eq (hs.trans hm.symm)]
    exact ⟨_, rfl⟩
  decides {s m} hs hm := ⟨_, Policy.within_zero (hs.trans hm.symm)⟩
  le_of_lt {s m} hs hm hlt :=
    (forall₂_le_iff_entries_le (hs.trans hm.symm)).mp
      (forall₂_le_of_order_lt (hs.trans hm.symm) hlt)
  le_of_gt {s m} hs hm hgt :=
    (forall₂_le_iff_entries_le (hm.trans hs.symm)).mp
      (forall₂_le_of_order_gt (hs.trans hm.symm) hgt)
  le_of_blocks {s m} hs hm hblock := by
    rw [Policy.blocks, Policy.within_zero (hs.trans hm.symm), Except.ok.injEq,
      decide_eq_true_eq] at hblock
    rw [hblock]
  apart {s m} hs hm htie hfree := by
    rw [Policy.blocks, Policy.within_zero (hs.trans hm.symm), Except.ok.injEq,
      decide_eq_false_iff_not] at hfree
    exact incomparable_of_tie (hs.trans hm.symm) hfree htie

/-- The standard archive without a tolerance, offered one solution after another, ends
with the solutions of least violation whose objectives the mask marks, in the order
of the offers and of equal objectives the first.  So another order of the offers
leaves the same objectives. -/
theorem standard_members_eq_front (look : ι → Solution X α) {n : Nat} (ss : List ι)
    (hss : ∀ s ∈ ss, (look s).objectives.length = n) :
    let policy : Policy α := .nondominated .standard (some 0)
    let objectives := fun s => (look s).objectives
    (∃ added, (Container.empty policy).addAll look ss =
      (⟨policy, firstsBy objectives (undominated look (leastViolating look ss))⟩,
        .ok added)) ∧
      ∀ order, order.Perm ss →
        (((Container.empty policy).addAll look order).1.members.map objectives).Perm
          (((Container.empty policy).addAll look ss).1.members.map objectives) := by
  intro policy objectives
  have hranks : policy.Ranks look _ comparePareto id := standard_ranks look n
  refine ⟨?_, fun order horder => hranks.keys_perm_of_perm hss hss horder⟩
  have hstrict {s m : ι} (hs : (look s).objectives.length = n)
      (hm : (look m).objectives.length = n)
      (hlt : comparePareto (look s).objectives (look m).objectives = .ok .lt) :
      entries (look s).objectives < entries (look m).objectives :=
    (dominates_iff_entries_lt (hs.trans hm.symm)).mp
      ((dominanceOrder_lt_iff (hs.trans hm.symm)).mp hlt)
  obtain ⟨c, added, hall, hpolicy, hmembers⟩ := hranks.members_addAll hstrict ss hss
  have hfront : frontBy (fun s => (look s).merit id) ss =
      firstsBy objectives (undominated look (leastViolating look ss)) := by
    have hminimals := minimals_merit look id hss
    simp only [id] at hminimals
    rw [undominated_eq_filter, ← hminimals]
    exact frontBy_eq_firstsBy _ fun s hs t ht => merit_eq_iff_of_minimals look id hss hs ht
  refine ⟨added, hall.trans ?_⟩
  rw [← hfront, ← hmembers, ← hpolicy]

/-- The first violates a constraint, the fourth is dominated, and the fifth has the
objectives of the second. -/
noncomputable def contenders (i : Nat) : Solution Unit ℝ :=
  { Solution.ofRows ([[0, 0], [1, 2], [2, 1], [2, 2], [1, 2]].map (List.map Nat.cast)) i with
    constraints := if i = 0 then [1] else [] }

theorem standard_members_eq_front_contenders :
    (∀ s ∈ [0, 1, 2, 3, 4], (contenders s).objectives.length = 2) ∧
      (∃ added, (Container.empty (.nondominated .standard (some 0))).addAll contenders
        [0, 1, 2, 3, 4] = (⟨.nondominated .standard (some 0), [1, 2]⟩, .ok added)) ∧
      (((Container.empty (.nondominated .standard (some 0))).addAll contenders
        [4, 3, 2, 1, 0]).1.members.map fun s => (contenders s).objectives).Perm
          [[1, 2], [2, 1]] := by
  have hlengths : ∀ s ∈ [0, 1, 2, 3, 4], (contenders s).objectives.length = 2 := by
    simp [contenders, Solution.ofRows]
  have hviolation (i : Nat) : (contenders i).violation = if i = 0 then 1 else 0 := by
    by_cases h : i = 0 <;> simp [contenders, h, Solution.violation, Vector.total,
      Vector.halvingSum, Vector.blockSum, Vector.leftSum, Scalar.abs]
  have hleast : leastViolating contenders [0, 1, 2, 3, 4] = [1, 2, 3, 4] := by
    simp [leastViolating, hviolation]
  have hfree : undominated contenders [1, 2, 3, 4] = [1, 2, 4] := by
    simp [undominated_eq_filter, dominatedBy, dominates, nowhereWorse, somewhereBetter,
      contenders, Solution.ofRows]
  have hfirst : firstsBy (fun s => (contenders s).objectives) [1, 2, 4] = [1, 2] := by
    simp [firstsBy, contenders, Solution.ofRows]
  obtain ⟨⟨added, hall⟩, horder⟩ :=
    standard_members_eq_front contenders [0, 1, 2, 3, 4] hlengths
  rw [hleast, hfree, hfirst] at hall
  have hback := horder [4, 3, 2, 1, 0] (by decide)
  rw [hall] at hback
  exact ⟨hlengths, ⟨added, hall⟩, by simpa [contenders, Solution.ofRows] using hback⟩

/-! ## The archive of boxes -/

/-- Where solutions in different boxes are further apart than the tolerance, one that
is kept out for a member that ties shares its box. -/
theorem boxed_ranks (sizes : BoxSizes α) (look : ι → Solution X α) {n : Nat} {ss : List ι}
    (hss : ∀ s ∈ ss, (look s).objectives.length = n)
    (hfar : ∀ s ∈ ss, ∀ t ∈ ss,
      sizes.index (look s).objectives ≠ sizes.index (look t).objectives →
        Policy.within (some Policy.standardTolerance) (look s).objectives
          (look t).objectives = .ok false) :
    (Policy.boxed ⟨sizes, true⟩).Ranks look (· ∈ ss) sizes.compare sizes.index := by
  have hobjectives {s m : ι} (hs : s ∈ ss) (hm : m ∈ ss) :
      (look s).objectives.length = (look m).objectives.length := (hss s hs).trans (hss m hm).symm
  have hindex {s m : ι} (hs : s ∈ ss) (hm : m ∈ ss) :
      (sizes.index (look s).objectives).length = (sizes.index (look m).objectives).length := by
    rw [BoxSizes.length_index, BoxSizes.length_index, hobjectives hs hm]
  refine ⟨fun a b => ?_, fun hs hm => ?_, fun {s m} hs hm => ?_, fun hs hm hlt => ?_,
    fun hs hm hgt => ?_, fun {s m} hs hm hblock => ?_, fun hs hm htie hfree => ?_⟩
  · rw [Policy.compare, BoxComparator.compare_eq, if_pos rfl]
  · exact sizes.compare_ok (hobjectives hs hm)
  · rw [Policy.blocks, Policy.within_of_length_eq (hobjectives hs hm)]
    split <;> exact ⟨_, rfl⟩
  · exact (forall₂_le_iff_entries_le (hindex hs hm)).mp
      (sizes.index_le_of_lt (hobjectives hs hm) hlt)
  · exact (forall₂_le_iff_entries_le (hindex hm hs)).mp
      (sizes.index_le_of_gt (hobjectives hs hm) hgt)
  · have hbox : sizes.index (look s).objectives = sizes.index (look m).objectives := by
      by_contra hne
      rw [Policy.blocks, BoxSizes.sameBox, if_neg (by simpa using hne), hfar s hs m hm hne]
        at hblock
      simp at hblock
    rw [hbox]
  · have hne := Policy.sameBox_of_not_blocks hfree
    rw [BoxSizes.compare_of_index_ne sizes hne] at htie
    exact incomparable_of_tie (hindex hs hm) hne htie

/-- An archive of boxes, offered solutions of which no two in different boxes are
within the tolerance, ends with one member in each box that no box dominates among
those of the solutions of least violation.  So another order of the offers leaves
the same boxes. -/
theorem boxed_boxes_perm_front (sizes : BoxSizes α) (look : ι → Solution X α) {n : Nat}
    (ss : List ι) (hss : ∀ s ∈ ss, (look s).objectives.length = n)
    (hfar : ∀ s ∈ ss, ∀ t ∈ ss,
      sizes.index (look s).objectives ≠ sizes.index (look t).objectives →
        Policy.standardTolerance <
          Vector.norm ((look s).objectives.zipWith (· - ·) (look t).objectives)) :
    let archive : Container ι α := .empty (.boxed ⟨sizes, true⟩)
    let box := fun s => sizes.index (look s).objectives
    ∃ final added, archive.addAll look ss = (final, .ok added) ∧
      (final.members.map box).Perm (nondominated ((leastViolating look ss).map box)).dedup ∧
      ∀ order, order.Perm ss →
        ((archive.addAll look order).1.members.map box).Perm (final.members.map box) := by
  intro archive box
  have hwithin : ∀ s ∈ ss, ∀ t ∈ ss, box s ≠ box t →
      Policy.within (some Policy.standardTolerance) (look s).objectives
        (look t).objectives = .ok false := by
    intro s hs t ht hne
    rw [Policy.within_of_length_eq ((hss s hs).trans (hss t ht).symm), Except.ok.injEq,
      decide_eq_false_iff_not, not_le, List.map_zip_eq_zipWith]
    exact hfar s hs t ht hne
  have hranks := boxed_ranks sizes look hss hwithin
  have hlength : ∀ s ∈ ss, (box s).length = n := fun s hs =>
    (sizes.length_index _).trans (hss s hs)
  obtain ⟨final, added, hall, hfinal⟩ := hranks.frontier_addAll ss fun _ hs => hs
  refine ⟨final, added, hall, ?_, fun order horder => ?_⟩
  · have hboxes : nondominated ((leastViolating look ss).map box) =
        (minimals (fun s => (look s).merit sizes.index) ss).map box := by
      rw [nondominated, List.filter_map, minimals_merit look sizes.index hlength]
      rfl
    rw [hboxes]
    exact hfinal.keys_perm hlength
  · have hperm := hranks.keys_perm_of_perm (fun _ hs => hs) hlength horder
    rw [hall] at hperm
    exact hperm

end

/-- The second lies in the box of the first, nearer to its corner, and the box of the
last is dominated. -/
noncomputable def boxmates : Nat → Solution Unit ℝ :=
  Solution.ofRows
    ([[3 / 2, 1 / 2], [5 / 4, 1 / 4], [1 / 2, 3 / 2], [5 / 2, 5 / 2]].map (List.map Rat.cast))

theorem boxed_boxes_perm_front_boxmates :
    (∀ s ∈ [0, 1, 2, 3], (boxmates s).objectives.length = 2) ∧
      (∀ s ∈ [0, 1, 2, 3], ∀ t ∈ [0, 1, 2, 3],
        wholeBoxes.index (boxmates s).objectives ≠ wholeBoxes.index (boxmates t).objectives →
          Policy.standardTolerance <
            Vector.norm ((boxmates s).objectives.zipWith (· - ·) (boxmates t).objectives)) ∧
      ∃ final added, (Container.empty (.boxed ⟨wholeBoxes, true⟩)).addAll boxmates [0, 1, 2, 3] =
          (final, .ok added) ∧
        (final.members.map fun s => wholeBoxes.index (boxmates s).objectives).Perm
          [[1, 0], [0, 1]] := by
  have hlengths : ∀ s ∈ [0, 1, 2, 3], (boxmates s).objectives.length = 2 := by
    simp [boxmates, Solution.ofRows]
  have hboxes : [0, 1, 2, 3].map (fun s => wholeBoxes.index (boxmates s).objectives) =
      [[1, 0], [1, 0], [0, 1], [2, 2]] := by
    norm_num [boxmates, Solution.ofRows, BoxSizes.index, BoxSizes.expand, BoxSizes.last,
      wholeBoxes, Scalar.floor, Int.floor_eq_iff]
  have hfar : ∀ s ∈ [0, 1, 2, 3], ∀ t ∈ [0, 1, 2, 3],
      wholeBoxes.index (boxmates s).objectives ≠ wholeBoxes.index (boxmates t).objectives →
        Policy.standardTolerance <
          Vector.norm ((boxmates s).objectives.zipWith (· - ·) (boxmates t).objectives) := by
    intro s hs t ht hne
    by_contra hnear
    have hentry := fun x hx => Vector.abs_le_of_norm_le (x := x) (not_lt.mp hnear) hx
    have hst : s ≠ t := fun heq => hne (heq ▸ rfl)
    clear hnear hne
    fin_cases hs <;> fin_cases ht <;> first
      | exact absurd rfl hst
      | norm_num [boxmates, Solution.ofRows, Policy.standardTolerance, Scalar.ratio, abs_le]
          at hentry
  obtain ⟨final, added, hall, hfront, -⟩ :=
    boxed_boxes_perm_front wholeBoxes boxmates [0, 1, 2, 3] hlengths hfar
  have hleast : leastViolating boxmates [0, 1, 2, 3] = [0, 1, 2, 3] := by
    simp [leastViolating, boxmates, Solution.ofRows, Solution.violation]
  rw [hleast, hboxes] at hfront
  exact ⟨hlengths, hfar, final, added, hall, hfront.trans (by decide)⟩

end ParetoSearch
