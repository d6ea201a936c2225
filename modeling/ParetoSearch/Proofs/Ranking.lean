import Mathlib.Data.List.Perm.Subperm
import Mathlib.Order.Bounds.Basic
import ParetoSearch.Proofs.Arithmetic.Chaining
import ParetoSearch.Ranking

/-!
# Ranks as longest chains

Repeatedly striking out the rows that the mask keeps leaves fewer and fewer rows
(`remaining`).  The rounds of the sort do the same on counters: what a row has counted is
always the number of rows left that dominate it (`left_among`).  The rounds come to an end
because a chain of dominance meets no row twice (`remaining_length`).  So the rank of a row
is the round in which it is struck out, which is the length of the longest chain that leads
to it (`ranks_isGreatest_chain`).

Nothing is asked of the entries except that comparisons chain.  Values that are not numbers
may be among them.
-/

namespace ParetoSearch

variable {β : Type} [LT β] [LE β] [DecidableLT β] [DecidableLE β]

namespace Ranking

section

variable (rows : List (List β))

def rowAt (i : Nat) : List β := rows.getD i []

/-- The places, of those given, whose rows the mask keeps. -/
def kept (places : List Nat) : List Nat :=
  ((places.zip (nondominatedMask (places.map (rowAt rows)))).filter fun p => p.2).map Prod.fst

def struck (places : List Nat) : List Nat :=
  ((places.zip (nondominatedMask (places.map (rowAt rows)))).filter fun p => !p.2).map Prod.fst

/-- The places left when the rows that the mask keeps have been taken away so many times. -/
def remaining : Nat → List Nat
  | 0 => List.range rows.length
  | k + 1 => struck rows (remaining k)

def front (k : Nat) : List Nat := kept rows (remaining rows k)

/-- Rows each of which dominates the next, and the last of which dominates the given one. -/
def Chain (chain : List (List β)) (row : List β) : Prop :=
  (∀ a ∈ chain, a ∈ rows) ∧ (chain ++ [row]).IsChain fun a b => dominates a b = true

end

variable {rows : List (List β)}

/-! ## Striking out -/

theorem kept_eq (places : List Nat) :
    kept rows places =
      places.filter fun i => !dominatedBy (places.map (rowAt rows)) (rowAt rows i) := by
  rw [kept, nondominatedMask, List.map_map]
  exact filter_zip_map places _ id

theorem struck_eq (places : List Nat) :
    struck rows places =
      places.filter fun i => dominatedBy (places.map (rowAt rows)) (rowAt rows i) := by
  rw [struck, nondominatedMask, List.map_map]
  simpa using filter_zip_map places
    ((fun b => !dominatedBy (places.map (rowAt rows)) b) ∘ rowAt rows) not

theorem dominatedBy_map {places : List Nat} {b : List β} :
    dominatedBy (places.map (rowAt rows)) b = true ↔
      ∃ j ∈ places, dominates (rowAt rows j) b = true := by
  simp [dominatedBy]

theorem mem_remaining_succ {i k : Nat} :
    i ∈ remaining rows (k + 1) ↔ i ∈ remaining rows k ∧
      ∃ j ∈ remaining rows k, dominates (rowAt rows j) (rowAt rows i) = true := by
  rw [remaining, struck_eq, List.mem_filter, dominatedBy_map]

theorem mem_front {i k : Nat} :
    i ∈ front rows k ↔ i ∈ remaining rows k ∧ i ∉ remaining rows (k + 1) := by
  rw [mem_remaining_succ, front, kept_eq, List.mem_filter, Bool.not_eq_true', ← Bool.not_eq_true,
    dominatedBy_map]
  exact and_congr_right fun hi => by simp [hi]

theorem remaining_antitone {k m : Nat} (h : k ≤ m) {i : Nat} (hi : i ∈ remaining rows m) :
    i ∈ remaining rows k := by
  induction h with
  | refl => exact hi
  | step _ ih => exact ih (mem_remaining_succ.mp hi).1

theorem lt_of_mem_remaining {i k : Nat} (hi : i ∈ remaining rows k) : i < rows.length :=
  List.mem_range.mp (remaining_antitone (Nat.zero_le k) hi)

theorem front_unique {i k m : Nat} (hk : i ∈ front rows k) (hm : i ∈ front rows m) : k = m := by
  rw [mem_front] at hk hm
  by_contra hne
  rcases Nat.lt_or_gt_of_ne hne with hlt | hgt
  · exact hk.2 (remaining_antitone hlt hm.1)
  · exact hm.2 (remaining_antitone hgt hk.1)

omit [LT β] [LE β] [DecidableLT β] [DecidableLE β] in
theorem rowAt_of_lt {i : Nat} (hi : i < rows.length) : rowAt rows i = rows[i] := by
  simp [rowAt, hi]

theorem rowAt_mem {i k : Nat} (hi : i ∈ remaining rows k) : rowAt rows i ∈ rows := by
  rw [rowAt_of_lt (lt_of_mem_remaining hi)]
  exact List.getElem_mem _

omit [LT β] [LE β] [DecidableLT β] [DecidableLE β] in
theorem map_rowAt_range : (List.range rows.length).map (rowAt rows) = rows :=
  List.ext_getElem (by simp) fun i _ hi => by simp [rowAt, hi]

/-! ## Chains -/

namespace Chain

variable {chain : List (List β)} {a row : List β}

theorem tail (h : Chain rows (a :: chain) row) : Chain rows chain row :=
  ⟨fun b hb => h.1 b (List.mem_cons_of_mem a hb), h.2.tail⟩

theorem concat_iff : Chain rows (chain ++ [a]) row ↔
    Chain rows chain a ∧ a ∈ rows ∧ dominates a row = true := by
  simp only [Chain, List.mem_append, List.mem_singleton, or_imp, forall_and, forall_eq]
  rw [List.isChain_append]
  simp only [List.getLast?_concat, List.head?_cons, Option.mem_some_iff, forall_eq',
    List.isChain_singleton, true_and]
  tauto

end Chain

/-- What is left after so many rounds are the rows that a chain of as many steps leads to. -/
theorem mem_remaining_iff {i k : Nat} (hi : i < rows.length) :
    i ∈ remaining rows k ↔ ∃ chain, Chain rows chain (rowAt rows i) ∧ chain.length = k := by
  constructor
  · intro hmem
    induction k generalizing i with
    | zero => exact ⟨[], ⟨by simp, by simp⟩, rfl⟩
    | succ k ih =>
      obtain ⟨-, j, hj, hdominates⟩ := mem_remaining_succ.mp hmem
      obtain ⟨chain, hchain, rfl⟩ := ih (lt_of_mem_remaining hj) hj
      exact ⟨chain ++ [rowAt rows j], Chain.concat_iff.mpr ⟨hchain, rowAt_mem hj, hdominates⟩,
        by simp⟩
  · rintro ⟨chain, hchain, hlength⟩
    -- Without its first row the chain still leads here, and without its last step it leads to
    -- a row that dominates this one.
    induction k generalizing chain i with
    | zero => exact List.mem_range.mpr hi
    | succ k ih =>
      refine mem_remaining_succ.mpr ⟨ih hi chain.tail ?_ (by simp [hlength]), ?_⟩
      · cases chain with
        | nil => exact hchain
        | cons a chain => exact hchain.tail
      · rcases List.eq_nil_or_concat' chain with rfl | ⟨chain, a, rfl⟩
        · simp at hlength
        · obtain ⟨hbefore, ha, hdominates⟩ := Chain.concat_iff.mp hchain
          obtain ⟨j, hj, rfl⟩ := List.mem_iff_getElem.mp ha
          rw [← rowAt_of_lt hj] at hbefore hdominates
          exact ⟨j, ih hj chain hbefore (by simpa using hlength), hdominates⟩

theorem isGreatest_chain {i r : Nat} (hi : i < rows.length) (hfront : i ∈ front rows r) :
    IsGreatest {m | ∃ chain, Chain rows chain rows[i] ∧ chain.length = m} r := by
  obtain ⟨hleft, hgone⟩ := mem_front.mp hfront
  rw [← rowAt_of_lt hi]
  refine ⟨(mem_remaining_iff hi).mp hleft, fun m hm => ?_⟩
  by_contra hr
  exact hgone (remaining_antitone (not_le.mp hr) ((mem_remaining_iff hi).mpr hm))

theorem isGreatest_dominators {i m : Nat} (hi : i < rows.length)
    (hfront : i ∈ front rows (m + 1)) :
    IsGreatest {q | ∃ j, ∃ hj : j < rows.length, j ∈ front rows q ∧
      dominates rows[j] rows[i] = true} m := by
  obtain ⟨hleft, hgone⟩ := mem_front.mp hfront
  have hupper {j : Nat} (hj : j ∈ remaining rows (m + 1)) :
      dominates (rowAt rows j) (rowAt rows i) ≠ true := fun hdominates =>
    hgone (mem_remaining_succ.mpr ⟨hleft, j, hj, hdominates⟩)
  constructor
  · obtain ⟨-, j, hj, hdominates⟩ := mem_remaining_succ.mp hleft
    have hlt : j < rows.length := lt_of_mem_remaining hj
    refine ⟨j, hlt, mem_front.mpr ⟨hj, fun hstill => hupper hstill hdominates⟩, ?_⟩
    rwa [rowAt_of_lt hlt, rowAt_of_lt hi] at hdominates
  · rintro q ⟨j, hlt, hj, hdominates⟩
    by_contra hq
    rw [← rowAt_of_lt hlt, ← rowAt_of_lt hi] at hdominates
    exact hupper (remaining_antitone (not_le.mp hq) (mem_front.mp hj).1) hdominates

theorem nondominatedMask_getElem? {i r : Nat} (hi : i < rows.length) (hfront : i ∈ front rows r) :
    (nondominatedMask rows)[i]? = some (decide (r = 0)) := by
  have hstruck : dominatedBy rows rows[i] = true ↔ i ∈ remaining rows 1 := by
    rw [mem_remaining_succ, ← dominatedBy_map, rowAt_of_lt hi, remaining, map_rowAt_range]
    simp [hi]
  have hzero : r = 0 ↔ i ∉ remaining rows 1 := by
    obtain ⟨hleft, hgone⟩ := mem_front.mp hfront
    refine ⟨fun h => by rwa [h] at hgone, fun h => ?_⟩
    by_contra hr
    exact h (remaining_antitone (Nat.one_le_iff_ne_zero.mpr hr) hleft)
  rw [← hstruck, Bool.not_eq_true, ← Bool.not_eq_true'] at hzero
  simp [nondominatedMask, hi, hzero]

section

variable [ChainedOrder β] {width : Nat}

theorem pairwise_of_isChain {chain : List (List β)} (hwidth : ∀ a ∈ chain, a.length = width)
    (h : chain.IsChain fun a b => dominates a b = true) :
    chain.Pairwise fun a b => dominates a b = true := by
  induction h with
  | nil => exact List.Pairwise.nil
  | singleton => exact List.pairwise_singleton _ _
  | @cons_cons a b chain hab _ ih =>
    have hrest := ih fun c hc => hwidth c (List.mem_cons_of_mem a hc)
    refine List.pairwise_cons.mpr ⟨fun c hc => ?_, hrest⟩
    rcases List.mem_cons.mp hc with rfl | hc
    · exact hab
    · have hlength : ∀ d ∈ a :: b :: chain, d.length = b.length := fun d hd =>
        (hwidth d hd).trans (hwidth b (by simp)).symm
      exact dominates_trans (hlength a (by simp)) (hlength c (by simp [hc])).symm hab
        (List.rel_of_pairwise_cons hrest hc)

/-- A chain meets no row twice, so it has fewer steps than there are rows. -/
theorem Chain.length_lt {chain : List (List β)} {row : List β}
    (hrows : ∀ a ∈ rows, a.length = width) (hrow : row ∈ rows) (h : Chain rows chain row) :
    chain.length < rows.length := by
  have hsubset : chain ++ [row] ⊆ rows := by
    intro a ha
    rcases List.mem_append.mp ha with ha | ha
    · exact h.1 a ha
    · exact List.mem_singleton.mp ha ▸ hrow
  have hnodup : (chain ++ [row]).Nodup :=
    (pairwise_of_isChain (fun a ha => hrows a (hsubset ha)) h.2).imp fun {a b} hab heq => by
      rw [heq, not_dominates_self] at hab
      cases hab
  simpa using (hnodup.subperm hsubset).length_le

theorem remaining_length (hrows : ∀ a ∈ rows, a.length = width) :
    remaining rows rows.length = [] := by
  refine List.eq_nil_iff_forall_not_mem.mpr fun i hi => ?_
  obtain ⟨chain, hchain, hlength⟩ := (mem_remaining_iff (lt_of_mem_remaining hi)).mp hi
  exact (hchain.length_lt hrows (rowAt_mem hi)).ne hlength

theorem exists_front (hrows : ∀ a ∈ rows, a.length = width) {i : Nat} (hi : i < rows.length) :
    ∃ k, i ∈ front rows k := by
  obtain ⟨k, hk, hnext⟩ := Nat.exists_not_and_succ_of_not_zero_of_exists
    (p := fun k => i ∉ remaining rows k) (not_not.mpr (List.mem_range.mpr hi))
    ⟨rows.length, by simp [remaining_length hrows]⟩
  exact ⟨k, mem_front.mpr ⟨not_not.mp hk, hnext⟩⟩

theorem lt_of_mem_front (hrows : ∀ a ∈ rows, a.length = width) {i k : Nat}
    (hi : i ∈ front rows k) : k < rows.length := by
  by_contra hk
  have hmem := remaining_antitone (not_lt.mp hk) (mem_front.mp hi).1
  simp [remaining_length hrows] at hmem

end

end Ranking

namespace Unranked

open Ranking

/-! ## Counters -/

section

variable (rows : List (List β)) (places : List Nat)

/-- A row with how many of the rows at some places dominate it. -/
def counted (i : Nat) : Unranked β :=
  ⟨i, rowAt rows i, places.countP fun j => dominates (rowAt rows j) (rowAt rows i)⟩

def among : List (Unranked β) := places.map (counted rows places)

end

/-- What a round leaves. -/
def left (us : List (Unranked β)) : List (Unranked β) :=
  (us.filter fun u => !u.isFree).map (release (us.filter isFree))

/-- The rounds of the sort, until no row is left. -/
inductive Ranks : Nat → List (Unranked β) → List (Nat × Nat) → Prop
  | done (rank : Nat) : Ranks rank [] []
  | round {rank : Nat} {us : List (Unranked β)} {ranked : List (Nat × Nat)} :
      us ≠ [] → Ranks (rank + 1) (left us) ranked →
      Ranks rank us ((us.filter isFree).map (fun u => (u.place, rank)) ++ ranked)

variable {rows : List (List β)}

theorem start_eq : start rows = among rows (List.range rows.length) := by
  refine List.ext_getElem (by simp [start, among]) fun i hi _ => ?_
  have hi' : i < rows.length := by simpa [start] using hi
  have hcount : ((List.range rows.length).map (rowAt rows)).countP
      (fun a => dominates a rows[i]) = rows.countP fun a => dominates a rows[i] := by
    rw [map_rowAt_range]
  rw [List.countP_map] at hcount
  simpa [start, among, counted, rowAt_of_lt hi', List.countP_eq_length_filter,
    Function.comp_def] using hcount.symm

theorem isFree_counted (places : List Nat) (i : Nat) :
    (counted rows places i).isFree =
      !dominatedBy (places.map (rowAt rows)) (rowAt rows i) := by
  rw [Bool.eq_iff_iff]
  simp [isFree, counted, dominatedBy]

theorem filter_isFree_among (places : List Nat) :
    (among rows places).filter isFree = (kept rows places).map (counted rows places) := by
  rw [among, List.filter_map, kept_eq]
  exact congrArg _ (List.filter_congr fun i _ => isFree_counted places i)

/-- Taking a front off the counters leaves the counters of the rows that are left. -/
theorem left_among (places : List Nat) :
    left (among rows places) = among rows (struck rows places) := by
  have hrest : (among rows places).filter (fun u => !u.isFree) =
      (struck rows places).map (counted rows places) := by
    rw [among, List.filter_map, struck_eq]
    exact congrArg _ (List.filter_congr fun i _ => by simp [isFree_counted])
  rw [left, hrest, filter_isFree_among, List.map_map, among]
  refine List.map_congr_left fun i _ => ?_
  -- What dominates a row that is left is in the front, or left as well.
  have hsplit := List.countP_eq_countP_filter_add places
    (fun j => dominates (rowAt rows j) (rowAt rows i))
    (fun j => !dominatedBy (places.map (rowAt rows)) (rowAt rows j))
  simp only [Bool.not_not, ← kept_eq, ← struck_eq] at hsplit
  have hfront : (((kept rows places).map (counted rows places)).filter
      fun f => dominates f.row (rowAt rows i)).length =
        (kept rows places).countP fun j => dominates (rowAt rows j) (rowAt rows i) := by
    rw [← List.countP_eq_length_filter, List.countP_map]
    rfl
  simp only [Function.comp_apply, release, counted, Unranked.mk.injEq, true_and]
  omega

theorem peel_nil (fuel rank : Nat) : peel fuel rank ([] : List (Unranked β)) = [] := by
  induction fuel generalizing rank with
  | zero => rfl
  | succ fuel ih => simpa [peel] using ih (rank + 1)

theorem peel_succ (fuel rank : Nat) (us : List (Unranked β)) :
    peel (fuel + 1) rank us =
      (us.filter isFree).map (fun u => (u.place, rank)) ++ peel fuel (rank + 1) (left us) := rfl

theorem peel_remaining_succ (m k : Nat) :
    peel (m + 1) k (among rows (remaining rows k)) =
      (front rows k).map (fun i => (i, k)) ++
        peel m (k + 1) (among rows (remaining rows (k + 1))) := by
  rw [peel_succ, left_among, filter_isFree_among, List.map_map]
  rfl

/-- So many rounds rank the fronts of as many stages. -/
theorem mem_peel {m k i r : Nat} :
    (i, r) ∈ peel m k (among rows (remaining rows k)) ↔
      k ≤ r ∧ r < k + m ∧ i ∈ front rows r := by
  induction m generalizing k with
  | zero => simp [peel]; omega
  | succ m ih =>
    rw [peel_remaining_succ, List.mem_append, ih]
    have hone : (i, r) ∈ (front rows k).map (fun i => (i, k)) ↔ r = k ∧ i ∈ front rows r := by
      simp only [List.mem_map, Prod.mk.injEq]
      grind
    rw [hone]
    grind

theorem peel_perm (rows : List (List β)) (m k : Nat) :
    ((peel m k (among rows (remaining rows k))).map Prod.fst ++ remaining rows (k + m)).Perm
      (remaining rows k) := by
  induction m generalizing k with
  | zero => exact List.Perm.refl _
  | succ m ih =>
    have hpart : (front rows k ++ remaining rows (k + 1)).Perm (remaining rows k) := by
      rw [remaining, struck_eq, front, kept_eq]
      simpa using List.filter_append_perm
        (fun i => !dominatedBy ((remaining rows k).map (rowAt rows)) (rowAt rows i))
        (remaining rows k)
    have hfst : ((front rows k).map fun i => (i, k)).map Prod.fst = front rows k := by
      simp [Function.comp_def]
    rw [peel_remaining_succ, List.map_append, hfst, List.append_assoc, ← Nat.add_assoc,
      Nat.add_right_comm]
    exact ((ih (k + 1)).append_left _).trans hpart

theorem ranks_peel {m k : Nat} (h : remaining rows (k + m) = []) :
    Ranks k (among rows (remaining rows k)) (peel m k (among rows (remaining rows k))) := by
  induction m generalizing k with
  | zero =>
    rw [show remaining rows k = [] from h]
    exact Ranks.done k
  | succ m ih =>
    by_cases hempty : remaining rows k = []
    · rw [hempty, among, List.map_nil, peel_nil]
      exact Ranks.done k
    · rw [peel_succ]
      refine Ranks.round (by simpa [among] using hempty) ?_
      rw [left_among]
      refine ih (k := k + 1) ?_
      rw [Nat.add_right_comm]
      exact h

theorem lookup_eq_some {ranked : List (Nat × Nat)} {i r : Nat} (hmem : (i, r) ∈ ranked)
    (hunique : ∀ q, (i, q) ∈ ranked → q = r) : ranked.lookup i = some r := by
  cases hfound : ranked.lookup i with
  | none => simpa using List.lookup_eq_none_iff.mp hfound _ hmem
  | some q =>
    obtain ⟨before, after, rfl, -⟩ := List.lookup_eq_some_iff.mp hfound
    rw [hunique q (by simp)]

end Unranked

/-! ## Ranks -/

open Ranking Unranked

section

variable [ChainedOrder β] {rows : List (List β)} {width : Nat}

theorem lookup_peel (hrows : ∀ a ∈ rows, a.length = width) {i r : Nat} (hi : i ∈ front rows r) :
    (peel rows.length 0 (start rows)).lookup i = some r := by
  have hmem (q : Nat) : (i, q) ∈ peel rows.length 0 (start rows) ↔
      0 ≤ q ∧ q < 0 + rows.length ∧ i ∈ front rows q := by
    rw [start_eq]
    exact mem_peel
  refine lookup_eq_some ((hmem r).mpr ⟨Nat.zero_le r, ?_, hi⟩) fun q hq =>
    front_unique ((hmem q).mp hq).2.2 hi
  rw [Nat.zero_add]
  exact lt_of_mem_front hrows hi

theorem getElem?_ranks (hrows : ∀ a ∈ rows, a.length = width) {i r : Nat} :
    (ranks rows)[i]? = some r ↔ i ∈ front rows r := by
  have hfront {q : Nat} (hq : i ∈ front rows q) : (ranks rows)[i]? = some q := by
    have hi : i < rows.length := lt_of_mem_remaining (mem_front.mp hq).1
    simp [ranks, hi, lookup_peel hrows hq]
  refine ⟨fun h => ?_, hfront⟩
  have hi : i < rows.length := by
    simpa [ranks] using (List.getElem?_eq_some_iff.mp h).1
  obtain ⟨q, hq⟩ := exists_front hrows hi
  rwa [Option.some.inj (h.symm.trans (hfront hq))]

/-- The sort ends and ranks every row once.  The rank is the length of the longest chain of
dominance that leads to the row: none for the rows that the mask keeps, and one more than the
largest rank among the rows that dominate it for the others.  So the ranks are the stages at which
repeated use of the mask strikes the rows out. -/
theorem ranks_isGreatest_chain (hrows : ∀ row ∈ rows, row.length = width) :
    (∃ ranked, Ranks 0 (start rows) ranked ∧
      (ranked.map Prod.fst).Perm (List.range rows.length) ∧
      (ranks rows).map some = (List.range rows.length).map fun i => ranked.lookup i) ∧
    ∀ i (hi : i < rows.length), ∃ r, (ranks rows)[i]? = some r ∧
      IsGreatest {m | ∃ chain, Chain rows chain rows[i] ∧ chain.length = m} r ∧
      (nondominatedMask rows)[i]? = some (decide (r = 0)) ∧
      (r ≠ 0 → ∃ m, r = m + 1 ∧ IsGreatest {q | ∃ j, ∃ hj : j < rows.length,
        (ranks rows)[j]? = some q ∧ dominates rows[j] rows[i] = true} m) ∧
      ∀ k, r = k ↔ i ∈ front rows k := by
  refine ⟨⟨peel rows.length 0 (start rows), ?_, ?_, ?_⟩, fun i hi => ?_⟩
  · rw [start_eq]
    exact ranks_peel (k := 0) (by rw [Nat.zero_add, remaining_length hrows])
  · have hperm := peel_perm rows rows.length 0
    rw [Nat.zero_add, remaining_length hrows, List.append_nil] at hperm
    rwa [start_eq]
  · rw [ranks, List.map_map]
    refine List.map_congr_left fun i hi => ?_
    obtain ⟨r, hr⟩ := exists_front hrows (List.mem_range.mp hi)
    simp [lookup_peel hrows hr]
  · obtain ⟨r, hr⟩ := exists_front hrows hi
    refine ⟨r, (getElem?_ranks hrows).mpr hr, isGreatest_chain hi hr,
      nondominatedMask_getElem? hi hr, fun hne => ?_,
      fun k => ⟨fun h => h ▸ hr, fun hk => front_unique hr hk⟩⟩
    obtain ⟨m, rfl⟩ := Nat.exists_eq_succ_of_ne_zero hne
    simp only [getElem?_ranks hrows]
    exact ⟨m, rfl, isGreatest_dominators hi hr⟩

end

/-- Doubles among which one is not a number and others are infinite. -/
def strays : List (List Float) := [[0, 1], [2, 1], [0 / 0, 0], [1 / 0, 1], [0, 1], [-1 / 0, 0 / 0]]

set_option maxRecDepth 2000 in
theorem ranks_isGreatest_chain_strays : ranks strays = [0, 1, 0, 2, 0, 0] ∧
    (∀ row ∈ strays, row.length = 2) ∧
    IsGreatest {m | ∃ chain, Chain strays chain [1 / 0, 1] ∧ chain.length = m} 2 ∧
    (∀ k, 2 = k ↔ 3 ∈ front strays k) := by
  have hrows : ∀ row ∈ strays, row.length = 2 := by decide
  have hranks : ranks strays = [0, 1, 0, 2, 0, 0] := by with_unfolding_all rfl
  obtain ⟨-, h⟩ := ranks_isGreatest_chain hrows
  obtain ⟨r, hr, hchain, -, -, hfront⟩ := h 3 (by decide)
  rw [hranks] at hr
  obtain rfl : 2 = r := Option.some.inj hr
  exact ⟨hranks, hrows, hchain, hfront⟩

end ParetoSearch
