import Mathlib.Data.List.Basic
import Mathlib.Data.List.Induction
import ParetoSearch.Container

/-!
# Calls on archives

A session makes archives, calls them and copies them, in any order and with calls
that fail.  What holds of every archive of every session is proved once here
(`Session.Invariant.session`), from what one insertion does: besides insertion,
calls only take members out.

Two facts about insertion carry everything else.  A candidate that is let in
ties with each member that stays and is not blocked by it, and it beats each
member that goes (`Container.add_admits`).  A candidate that is kept out has met
a member that beats it or blocks it (`Container.add_refuses`).
-/

namespace ParetoSearch

/-! ## The members that stay -/

section

variable {ι ε : Type} {answer : ι → Except ε Ordering} {blocks : ι → Except ε Bool}

/-- Whether a candidate that got this answer removes the member. -/
def beaten : Except ε Ordering → Bool
  | .ok .lt => true
  | _ => false

theorem beaten_iff (a : Except ε Ordering) : beaten a = true ↔ a = .ok .lt := by
  rcases a with e | _ | _ | _ <;> simp [beaten]

/-- Who stays keeps its place; who is asked either goes, or ties and does not
block. -/
theorem survivors_some {members left : List ι}
    (h : survivors answer blocks members = .ok (some left)) :
    left = members.filter (fun m => !beaten (answer m)) ∧
      ∀ m ∈ members, answer m = .ok .lt ∨ answer m = .ok .eq ∧ blocks m = .ok false := by
  fun_induction survivors answer blocks members generalizing left with
  | case1 => simp_all
  | case2 | case4 | case5 | case6 | case7 => simp at h
  | case3 m rest hm ih =>
    obtain ⟨hleft, hrest⟩ := ih h
    rw [List.forall_mem_cons, List.filter_cons_of_neg (by simp [hm, beaten])]
    exact ⟨hleft, Or.inl hm, hrest⟩
  | case8 m rest hm hb stay hs ih =>
    cases stay with
    | none => simp at h
    | some stay =>
      obtain ⟨hstay, hrest⟩ := ih hs
      rw [List.forall_mem_cons, List.filter_cons_of_pos (by simp [hm, beaten]), ← hstay]
      exact ⟨by simpa using h.symm, Or.inr ⟨hm, hb⟩, hrest⟩

/-- A candidate is kept out by a member that beats it or blocks it. -/
theorem survivors_none {members : List ι}
    (h : survivors answer blocks members = .ok none) :
    ∃ m ∈ members, answer m = .ok .gt ∨ answer m = .ok .eq ∧ blocks m = .ok true := by
  fun_induction survivors answer blocks members with
  | case1 | case2 | case5 | case7 => simp at h
  | case3 m rest hm ih => exact List.exists_mem_cons_of_exists (ih h)
  | case4 m rest hm => exact ⟨m, List.mem_cons_self, Or.inl hm⟩
  | case6 m rest hm hb => exact ⟨m, List.mem_cons_self, Or.inr ⟨hm, hb⟩⟩
  | case8 m rest hm hb stay hs ih =>
    cases stay with
    | none => exact List.exists_mem_cons_of_exists (ih hs)
    | some stay => simp at h

/-- A fault comes from a question put to a member. -/
theorem survivors_error {members : List ι} {e : ε}
    (h : survivors answer blocks members = .error e) :
    ∃ m ∈ members, answer m = .error e ∨ answer m = .ok .eq ∧ blocks m = .error e := by
  fun_induction survivors answer blocks members with
  | case1 | case4 | case6 | case8 => simp at h
  | case2 m rest e' he => exact ⟨m, List.mem_cons_self, Or.inl (Except.error.inj h ▸ he)⟩
  | case3 m rest hm ih => exact List.exists_mem_cons_of_exists (ih h)
  | case5 m rest hm e' he => exact ⟨m, List.mem_cons_self, Or.inr ⟨hm, Except.error.inj h ▸ he⟩⟩
  | case7 m rest hm hb e' he ih => exact List.exists_mem_cons_of_exists (ih (he.trans h))

end

/-! ## One insertion -/

namespace Container

variable {ι X α : Type} [Scalar α] {look : ι → Solution X α}

theorem add_admits_eq {c next : Container ι α} {s : ι} (h : c.add look s = .ok (next, true)) :
    next = { c with
      members := c.members.filter (fun m => !beaten (c.policy.compare (look s) (look m))) ++ [s] } ∧
      ∀ m ∈ c.members, c.policy.compare (look s) (look m) = .ok .lt ∨
        c.policy.compare (look s) (look m) = .ok .eq ∧
          c.policy.blocks (look s) (look m) = .ok false := by
  unfold add at h
  split at h
  · simp at h
  · simp at h
  case h_3 left hleft =>
    obtain ⟨rfl, hanswers⟩ := survivors_some hleft
    simp only [Except.ok.injEq, Prod.mk.injEq, and_true] at h
    exact ⟨h.symm, hanswers⟩

theorem add_admits {c next : Container ι α} {s : ι} (h : c.add look s = .ok (next, true)) :
    ∃ left, next = { c with members := left ++ [s] } ∧ left.Sublist c.members ∧
      (∀ m ∈ left, c.policy.compare (look s) (look m) = .ok .eq ∧
        c.policy.blocks (look s) (look m) = .ok false) ∧
      ∀ m ∈ c.members, m ∈ left ∨ c.policy.compare (look s) (look m) = .ok .lt := by
  obtain ⟨hnext, hanswers⟩ := add_admits_eq h
  refine ⟨_, hnext, List.filter_sublist, ?_, ?_⟩
  · intro m hm
    rw [List.mem_filter, Bool.not_eq_true', ← Bool.not_eq_true, beaten_iff] at hm
    exact (hanswers m hm.1).resolve_left hm.2
  · intro m hm
    rw [List.mem_filter, Bool.not_eq_true', ← Bool.not_eq_true, beaten_iff]
    rcases hanswers m hm with hlt | htie
    · exact Or.inr hlt
    · exact Or.inl ⟨hm, by simp [htie.1]⟩

theorem add_refuses {c next : Container ι α} {s : ι} (h : c.add look s = .ok (next, false)) :
    next = c ∧ ∃ m ∈ c.members, c.policy.compare (look s) (look m) = .ok .gt ∨
      c.policy.compare (look s) (look m) = .ok .eq ∧
        c.policy.blocks (look s) (look m) = .ok true := by
  unfold add at h
  split at h
  · simp at h
  case h_2 hout =>
    simp only [Except.ok.injEq, Prod.mk.injEq, and_true] at h
    exact ⟨h.symm, survivors_none hout⟩
  · simp at h

theorem add_faults {c : Container ι α} {s : ι} {e : Fault α} (h : c.add look s = .error e) :
    ∃ m ∈ c.members, c.policy.compare (look s) (look m) = .error e ∨
      c.policy.compare (look s) (look m) = .ok .eq ∧
        c.policy.blocks (look s) (look m) = .error e := by
  unfold add at h
  split at h
  case h_1 e' he =>
    rw [Except.error.injEq] at h
    exact survivors_error (h ▸ he)
  · simp at h
  · simp at h

/-- Where every question to a member has an answer, insertion has one. -/
theorem add_ok {c : Container ι α} {s : ι}
    (hcompare : ∀ m ∈ c.members, ∃ o, c.policy.compare (look s) (look m) = .ok o)
    (hblocks : ∀ m ∈ c.members, ∃ d, c.policy.blocks (look s) (look m) = .ok d) :
    ∃ next added, c.add look s = .ok (next, added) := by
  cases hadd : c.add look s with
  | ok r => exact ⟨r.1, r.2, rfl⟩
  | error e =>
    obtain ⟨m, hm, hfault⟩ := add_faults hadd
    obtain ⟨o, ho⟩ := hcompare m hm
    obtain ⟨d, hd⟩ := hblocks m hm
    rcases hfault with hfault | ⟨-, hfault⟩
    · simp [ho] at hfault
    · simp [hd] at hfault

/-- Members that stand for all that was offered do so after an insertion, if a
candidate that is kept out is stood for, and one that is let in stands for whatever
the members that go stood for. -/
theorem add_covers {stands : ι → ι → Prop} {c next : Container ι α} {offered : List ι} {s : ι}
    {added : Bool} (hadd : c.add look s = .ok (next, added))
    (hc : ∀ t ∈ offered, ∃ m ∈ c.members, stands m t) (hself : stands s s)
    (hbeaten : ∀ m ∈ c.members, c.policy.compare (look s) (look m) = .ok .gt → stands m s)
    (hblocked : ∀ m ∈ c.members, c.policy.compare (look s) (look m) = .ok .eq →
      c.policy.blocks (look s) (look m) = .ok true → stands m s)
    (hheir : ∀ m ∈ c.members, ∀ t, c.policy.compare (look s) (look m) = .ok .lt →
      stands m t → stands s t) :
    ∀ t ∈ offered ++ [s], ∃ m ∈ next.members, stands m t := by
  intro t ht
  rw [List.mem_append, List.mem_singleton] at ht
  cases added with
  | false =>
    obtain ⟨rfl, m, hm, hout⟩ := add_refuses hadd
    rcases ht with ht | rfl
    · exact hc t ht
    · rcases hout with hgt | ⟨htie, hblock⟩
      · exact ⟨m, hm, hbeaten m hm hgt⟩
      · exact ⟨m, hm, hblocked m hm htie hblock⟩
  | true =>
    obtain ⟨left, rfl, -, -, hgone⟩ := add_admits hadd
    have hnew : s ∈ left ++ [s] := List.mem_append_right _ (List.mem_singleton_self s)
    rcases ht with ht | rfl
    · obtain ⟨m, hm, hstand⟩ := hc t ht
      rcases hgone m hm with hstay | hlt
      · exact ⟨m, List.mem_append_left _ hstay, hstand⟩
      · exact ⟨s, hnew, hheir m hm t hlt hstand⟩
    · exact ⟨t, hnew, hself⟩

/-- The new members are old ones or the candidate. -/
theorem mem_of_add {c next : Container ι α} {s m : ι} {added : Bool}
    (hadd : c.add look s = .ok (next, added)) (hm : m ∈ next.members) :
    m ∈ c.members ∨ m = s := by
  cases added with
  | false =>
    obtain ⟨rfl, -⟩ := add_refuses hadd
    exact Or.inl hm
  | true =>
    obtain ⟨left, rfl, hleft, -, -⟩ := add_admits hadd
    rw [List.mem_append, List.mem_singleton] at hm
    exact hm.imp_left fun hm => hleft.subset hm

theorem policy_of_add {c next : Container ι α} {s : ι} {added : Bool}
    (hadd : c.add look s = .ok (next, added)) : next.policy = c.policy := by
  cases added with
  | false => rw [(add_refuses hadd).1]
  | true =>
    obtain ⟨left, rfl, -⟩ := add_admits hadd
    rfl

theorem mem_of_addAll {c : Container ι α} {ss : List ι} {m : ι}
    (hm : m ∈ (c.addAll look ss).1.members) : m ∈ c.members ∨ m ∈ ss := by
  induction ss generalizing c with
  | nil => exact Or.inl hm
  | cons s rest ih =>
    rw [addAll] at hm
    cases hadd : c.add look s with
    | error e =>
      rw [hadd] at hm
      exact Or.inl hm
    | ok p =>
      rw [hadd] at hm
      rcases ih hm with hnext | hrest
      · rcases mem_of_add hadd hnext with hold | rfl
        · exact Or.inl hold
        · exact Or.inr List.mem_cons_self
      · exact Or.inr (List.mem_cons_of_mem _ hrest)

theorem policy_of_addAll (look : ι → Solution X α) (c : Container ι α) (ss : List ι) :
    (c.addAll look ss).1.policy = c.policy := by
  induction ss generalizing c with
  | nil => rfl
  | cons s rest ih =>
    rw [addAll]
    cases hadd : c.add look s with
    | error e => rfl
    | ok p => exact (ih p.1).trans (policy_of_add hadd)

end Container

/-! ## Calls -/

/-- The solution an offer consists of, if it is one. -/
def Offered.solution? {ι : Type} : Offered ι → Option ι
  | .solution s => some s
  | .other _ => none

/-- What can be asked of an archive. -/
inductive Call (ι : Type) where
  | add (x : Offered ι)
  | addAll (xs : List (Offered ι))
  | remove (s : ι)
  | removeAt (index : Int)
  | clear

/-- The solutions that a call offers. -/
def Call.offered {ι : Type} : Call ι → List ι
  | .add x => [x].filterMap Offered.solution?
  | .addAll xs => xs.filterMap Offered.solution?
  | .remove _ | .removeAt _ | .clear => []

namespace Container

variable {ι X α : Type} [Scalar α]

/-- One offer after another, values of other types among them; a fault stops, and
keeps what was let in before. -/
def offerAll (look : ι → Solution X α) (c : Container ι α) :
    List (Offered ι) → Container ι α × Except (Fault α) Bool
  | [] => (c, .ok false)
  | x :: rest =>
    match c.offer look x with
    | .error e => (c, .error e)
    | .ok (next, added) =>
      let (final, answer) := next.offerAll look rest
      (final, answer.map (added || ·))

theorem offerAll_map_solution (look : ι → Solution X α) (c : Container ι α) (ss : List ι) :
    c.offerAll look (ss.map .solution) = c.addAll look ss := by
  induction ss generalizing c with
  | nil => rfl
  | cons s rest ih =>
    rw [List.map_cons, offerAll, addAll, offer]
    cases c.add look s with
    | error e => rfl
    | ok r => simp only [ih]

theorem removeAt_ok {c next : Container ι α} {index : Int} {m : ι}
    (h : c.removeAt index = .ok (next, m)) :
    ∃ i, c.members[i]? = some m ∧ next = { c with members := c.members.eraseIdx i } := by
  unfold removeAt at h
  split at h
  · simp at h
  · split at h
    · simp at h
    case h_2 i hi =>
      split at h
      · simp at h
      case h_2 k hk =>
        simp only [Except.ok.injEq, Prod.mk.injEq] at h
        obtain ⟨rfl, rfl⟩ := h
        exact ⟨i, hk, rfl⟩

variable [DecidableEq ι]

/-- The container after a call, whether the call answers or fails. -/
def after (look : ι → Solution X α) (c : Container ι α) : Call ι → Container ι α
  | .add x =>
    match c.offer look x with
    | .ok (next, _) => next
    | .error _ => c
  | .addAll xs => (c.offerAll look xs).1
  | .remove s => (c.remove s).1
  | .removeAt index =>
    match c.removeAt index with
    | .ok (next, _) => next
    | .error _ => c
  | .clear => c.clear

def run (look : ι → Solution X α) (c : Container ι α) (calls : List (Call ι)) :
    Container ι α :=
  calls.foldl (after look) c

end Container

/-! ## Sessions -/

/-- An archive with every solution offered to it, or to the archive it was copied
from before the copy was made. -/
structure Recorded (ι α : Type) [Scalar α] where
  archive : Container ι α
  offered : List ι

/-- What happens in a session.  An archive is named by the place at which it came
up. -/
inductive Event (ι α : Type) [Scalar α] where
  | construct (policy : Policy α) (initial : List (Offered ι))
  | call (place : Nat) (call : Call ι)
  | copy (place : Nat)

namespace Session

variable {ι X α : Type} [Scalar α]

/-- What a property of archives has to survive to hold of every archive of every
session. -/
structure Invariant (look : ι → Solution X α) (P : Container ι α → List ι → Prop) :
    Prop where
  start : ∀ policy, P (.empty policy) []
  /-- A solution is let in. -/
  enter : ∀ {c next offered s}, P c offered → c.add look s = .ok (next, true) →
    P next (offered ++ [s])
  /-- Members leave. -/
  fewer : ∀ {c offered left}, P c offered → left.Sublist c.members →
    P { c with members := left } offered
  /-- Solutions are offered in vain. -/
  more : ∀ {c offered}, P c offered → ∀ extra, P c (offered ++ extra)

theorem Invariant.offerAll {look : ι → Solution X α} {P : Container ι α → List ι → Prop}
    (h : Invariant look P) (xs : List (Offered ι)) {c : Container ι α} {offered : List ι}
    (hc : P c offered) :
    P (c.offerAll look xs).1 (offered ++ xs.filterMap Offered.solution?) := by
  induction xs generalizing c offered with
  | nil => exact h.more hc []
  | cons x rest ih =>
    rw [Container.offerAll]
    cases x with
    | other typeName => exact h.more hc _
    | solution s =>
      rw [Container.offer]
      cases hadd : c.add look s with
      | error e => exact h.more hc _
      | ok r =>
        have hnext : P r.1 (offered ++ [s]) := by
          obtain ⟨next, added⟩ := r
          cases added with
          | true => exact h.enter hc hadd
          | false =>
            obtain ⟨rfl, -⟩ := Container.add_refuses hadd
            exact h.more hc [s]
        have hrest := ih hnext
        rw [List.append_assoc] at hrest
        exact hrest

variable [DecidableEq ι]

/-- The archives after an event.  A construction that fails leaves no archive, and
nothing happens to an archive that there is not. -/
def after (look : ι → Solution X α) (archives : List (Recorded ι α)) :
    Event ι α → List (Recorded ι α)
  | .construct policy initial =>
    match (Container.empty policy).offerAll look initial with
    | (c, .ok _) => archives ++ [⟨c, initial.filterMap Offered.solution?⟩]
    | (_, .error _) => archives
  | .call place call =>
    archives.modify place fun r => ⟨r.archive.after look call, r.offered ++ call.offered⟩
  | .copy place => archives ++ (archives[place]?).toList

def run (look : ι → Solution X α) (events : List (Event ι α)) : List (Recorded ι α) :=
  events.foldl (after look) []

namespace Invariant

variable {look : ι → Solution X α} {P : Container ι α → List ι → Prop}

theorem after (h : Invariant look P) (call : Call ι) {c : Container ι α} {offered : List ι}
    (hc : P c offered) : P (c.after look call) (offered ++ call.offered) := by
  cases call with
  | add x =>
    have hone := h.offerAll [x] hc
    simp only [Container.offerAll] at hone
    simp only [Container.after, Call.offered]
    cases hadd : c.offer look x with
    | error e => rw [hadd] at hone; exact hone
    | ok r => rw [hadd] at hone; exact hone
  | addAll xs => exact h.offerAll xs hc
  | remove s =>
    simp only [Container.after, Container.remove, Call.offered, List.append_nil]
    split
    · exact h.fewer hc List.erase_sublist
    · exact hc
  | removeAt index =>
    simp only [Container.after, Call.offered, List.append_nil]
    cases hremove : c.removeAt index with
    | error e => exact hc
    | ok r =>
      obtain ⟨next, m⟩ := r
      obtain ⟨i, -, rfl⟩ := Container.removeAt_ok hremove
      exact h.fewer hc (List.eraseIdx_sublist c.members i)
  | clear =>
    rw [Call.offered, List.append_nil]
    exact h.fewer hc (List.nil_sublist _)

theorem event (h : Invariant look P) (e : Event ι α) {archives : List (Recorded ι α)}
    (hall : ∀ r ∈ archives, P r.archive r.offered) :
    ∀ r ∈ Session.after look archives e, P r.archive r.offered := by
  intro r hr
  cases e with
  | construct policy initial =>
    have hnew := h.offerAll initial (h.start policy)
    rw [Session.after] at hr
    split at hr
    case h_1 c added hmade =>
      rw [List.mem_append, List.mem_singleton] at hr
      rcases hr with hr | rfl
      · exact hall r hr
      · rw [hmade] at hnew
        exact hnew
    case h_2 => exact hall r hr
  | call place call =>
    rw [Session.after, List.mem_iff_getElem?] at hr
    obtain ⟨k, hk⟩ := hr
    rw [List.getElem?_modify, Option.map_eq_map, Option.map_eq_some_iff] at hk
    obtain ⟨old, hold, rfl⟩ := hk
    have hP := hall old (List.mem_of_getElem? hold)
    split
    · exact h.after call hP
    · exact hP
  | copy place =>
    rw [Session.after, List.mem_append, Option.mem_toList] at hr
    rcases hr with hr | hr
    · exact hall r hr
    · exact hall r (List.mem_of_getElem? hr)

theorem session (h : Invariant look P) (events : List (Event ι α)) :
    ∀ r ∈ run look events, P r.archive r.offered := by
  unfold run
  induction events using List.reverseRecOn with
  | nil => simp
  | append_singleton earlier e ih =>
    rw [List.foldl_append]
    exact h.event e ih

end Invariant
end Session

/-- Solutions of which only the objectives are told. -/
def Solution.ofRows {α : Type} (rows : List (List α)) (i : Nat) : Solution Unit α :=
  ⟨(), rows.getD i [], [], []⟩

/-! ## Archives that are only offered solutions -/

/-- Solutions put to an archive: one, or several in turn. -/
inductive Offer (ι : Type) where
  | one (s : ι)
  | all (ss : List ι)

namespace Offer

def call {ι : Type} : Offer ι → Call ι
  | .one s => .add (.solution s)
  | .all ss => .addAll (ss.map .solution)

def solutions {ι : Type} : Offer ι → List ι
  | .one s => [s]
  | .all ss => ss

end Offer

namespace Container

variable {ι X α : Type} [Scalar α] {look : ι → Solution X α}
  {P : Container ι α → List ι → Prop} {admissible : ι → Prop}

/-- Where no insertion of an admissible solution fails, several offers are one
insertion after another, and do not fail. -/
theorem addAll_ok
    (step : ∀ {c offered s}, P c offered → admissible s →
      ∃ next added, c.add look s = .ok (next, added) ∧ P next (offered ++ [s]))
    (ss : List ι) {c : Container ι α} {offered : List ι} (hss : ∀ s ∈ ss, admissible s)
    (hc : P c offered) :
    ∃ next added, c.addAll look ss = (next, .ok added) ∧ P next (offered ++ ss) := by
  induction ss generalizing c offered with
  | nil => exact ⟨c, false, rfl, by simpa using hc⟩
  | cons s rest ih =>
    rw [List.forall_mem_cons] at hss
    obtain ⟨next, added, hadd, hnext⟩ := step hc hss.1
    obtain ⟨last, more, hall, hlast⟩ := ih hss.2 hnext
    refine ⟨last, added || more, ?_, by simpa using hlast⟩
    rw [addAll, hadd]
    simp only [hall, Except.map]

theorem addAll_steps
    (step : ∀ {c offered s}, P c offered → admissible s →
      ∃ next added, c.add look s = .ok (next, added) ∧ P next (offered ++ [s]))
    (ss : List ι) {c : Container ι α} {offered : List ι} (hss : ∀ s ∈ ss, admissible s)
    (hc : P c offered) : P (c.addAll look ss).1 (offered ++ ss) := by
  obtain ⟨next, added, hall, hnext⟩ := addAll_ok step ss hss hc
  rw [hall]
  exact hnext

theorem run_offers [DecidableEq ι]
    (step : ∀ {c offered s}, P c offered → admissible s →
      ∃ next added, c.add look s = .ok (next, added) ∧ P next (offered ++ [s]))
    (offers : List (Offer ι)) {c : Container ι α} {offered : List ι}
    (hoffers : ∀ s ∈ offers.flatMap Offer.solutions, admissible s) (hc : P c offered) :
    P (c.run look (offers.map Offer.call)) (offered ++ offers.flatMap Offer.solutions) := by
  induction offers generalizing c offered with
  | nil => simpa [run] using hc
  | cons o rest ih =>
    rw [List.flatMap_cons, List.forall_mem_append] at hoffers
    have hone : P (c.after look o.call) (offered ++ o.solutions) := by
      cases o with
      | one s =>
        obtain ⟨next, added, hadd, hnext⟩ := step hc (hoffers.1 s (by simp [Offer.solutions]))
        simp only [Offer.call, after, offer, hadd]
        exact hnext
      | all ss =>
        simp only [Offer.call, after, offerAll_map_solution]
        exact addAll_steps step ss hoffers.1 hc
    have hrest := ih hoffers.2 hone
    rw [List.append_assoc, ← List.flatMap_cons] at hrest
    exact hrest

end Container
end ParetoSearch
