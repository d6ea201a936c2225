import Mathlib.Data.List.Basic
import ParetoSearch.Proofs.Archive.Session
import ParetoSearch.Proofs.Arithmetic.Exact
import ParetoSearch.Proofs.Work

/-!
# Insertion in place

An archive may keep its members in one list that insertion changes in place: a first
pass notes the places of the members that the candidate beats, a second one erases
them, each erasure moving what is behind it, and the candidate is appended.  A question
that fails ends the first pass, possibly after places have been noted.

Nothing is erased before the last question is answered, and erasing from the back moves
no place that is still to be erased.  So the list ends as `Container.add` says, and it
is left alone where the insertion fails or refuses.
-/

namespace ParetoSearch

namespace Insertion

variable {ι ε α : Type}

/-- The places of the members that a candidate beats, the first member being at the
given one, or nothing when a member blocks it. -/
def beatenPlaces (answer : ι → Except ε Ordering) (blocks : ι → Except ε Bool) :
    Nat → List ι → Except ε (Option (List Nat))
  | _, [] => .ok (some [])
  | i, m :: rest =>
    match answer m with
    | .error e => .error e
    | .ok .lt => (beatenPlaces answer blocks (i + 1) rest).map (Option.map (i :: ·))
    | .ok .gt => .ok none
    | .ok .eq =>
      match blocks m with
      | .error e => .error e
      | .ok true => .ok none
      | .ok false => beatenPlaces answer blocks (i + 1) rest

/-- Put a candidate to the members, and say whether it was let in. -/
def inPlace (compare : ι → ι → Except (Fault α) Ordering) (blocks : ι → ι → Except (Fault α) Bool) :
    Offered ι → Work (List ι) α Bool
  | .other typeName => Work.fail (.notASolution typeName)
  | .solution s => do
    match ← Work.lift (beatenPlaces (compare s) (blocks s) 0 (← get)) with
    | none => return false
    | some places =>
      places.reverse.forM fun i => modify (·.eraseIdx i)
      modify (· ++ [s])
      return true

/-! ## The first pass -/

/-- The places of the members with a mark. -/
def markedPlaces (mark : ι → Bool) (first : Nat) (members : List ι) : List Nat :=
  ((members.zipIdx first).filter (mark ·.1)).map Prod.snd

/-- Where the candidate is let in, what was noted are the places of those it beats. -/
theorem beatenPlaces_eq (answer : ι → Except ε Ordering) (blocks : ι → Except ε Bool)
    (first : Nat) (members : List ι) :
    beatenPlaces answer blocks first members = (survivors answer blocks members).map
      (Option.map fun _ => markedPlaces (fun m => beaten (answer m)) first members) := by
  fun_induction survivors answer blocks members generalizing first with
  | case1 => rfl
  | case2 m rest e he => simp [beatenPlaces, he, Except.map]
  | case3 m rest hm ih =>
    rw [beatenPlaces, hm, ih]
    cases survivors answer blocks rest with
    | error e => rfl
    | ok left => cases left <;> simp [Except.map, markedPlaces, List.zipIdx_cons, hm, beaten]
  | case4 m rest hm => simp [beatenPlaces, hm, Except.map]
  | case5 m rest hm e he => simp [beatenPlaces, hm, he, Except.map]
  | case6 m rest hm hb => simp [beatenPlaces, hm, hb, Except.map]
  | case7 m rest hm hb e he ih => simp [beatenPlaces, hm, hb, ih, he, Except.map]
  | case8 m rest hm hb left hleft ih =>
    rw [beatenPlaces, hm, hb, ih, hleft]
    cases left <;> simp [Except.map, markedPlaces, List.zipIdx_cons, hm, beaten]

/-! ## The second pass -/

theorem eraseIdx_length_append (before : List ι) (m : ι) (behind : List ι) :
    (before ++ m :: behind).eraseIdx before.length = before ++ behind := by
  rw [List.eraseIdx_append_of_length_le (Nat.le_refl _), Nat.sub_self]
  rfl

/-- Erasing the marked places from the back leaves the members without a mark. -/
theorem foldr_eraseIdx_markedPlaces (mark : ι → Bool) (before members : List ι) :
    (markedPlaces mark before.length members).foldr (fun i left => left.eraseIdx i)
      (before ++ members) = before ++ members.filter (!mark ·) := by
  induction members generalizing before with
  | nil => rfl
  | cons m rest ih =>
    -- For those behind it, the member is one of those before.
    have hrest := ih (before ++ [m])
    rw [List.length_append, List.length_singleton, List.append_assoc, List.singleton_append,
      List.append_assoc, List.singleton_append] at hrest
    by_cases hm : mark m = true
    · have hplaces : markedPlaces mark before.length (m :: rest) =
          before.length :: markedPlaces mark (before.length + 1) rest := by
        simp [markedPlaces, List.zipIdx_cons, hm]
      rw [hplaces, List.foldr_cons, hrest, eraseIdx_length_append,
        List.filter_cons_of_neg (by simp [hm])]
    · have hplaces : markedPlaces mark before.length (m :: rest) =
          markedPlaces mark (before.length + 1) rest := by
        simp [markedPlaces, List.zipIdx_cons, hm]
      rw [hplaces, hrest, List.filter_cons_of_pos (by simp [hm])]

theorem forM_eraseIdx_run (places : List Nat) (members : List ι) :
    (places.reverse.forM fun i => modify (List.eraseIdx · i) :
      Work (List ι) α PUnit).run.run members =
        (.ok ⟨⟩, places.foldr (fun i left => left.eraseIdx i) members) := by
  rw [← List.foldl_reverse]
  induction places.reverse generalizing members with
  | nil => rfl
  | cons i rest ih => exact ih (members.eraseIdx i)

/-! ## Both passes -/

/-- Who is let in beats each member, or ties with it and is not blocked by it. -/
theorem survivors_some_iff {answer : ι → Except ε Ordering} {blocks : ι → Except ε Bool}
    {members : List ι} :
    (∃ left, survivors answer blocks members = .ok (some left)) ↔
      ∀ m ∈ members, answer m = .ok .lt ∨ answer m = .ok .eq ∧ blocks m = .ok false := by
  refine ⟨fun ⟨left, hleft⟩ => (survivors_some hleft).2, fun hall => ?_⟩
  cases hleft : survivors answer blocks members with
  | error e =>
    obtain ⟨m, hm, hfault⟩ := survivors_error hleft
    rcases hall m hm with hlt | ⟨htie, hfree⟩ <;> simp_all
  | ok stay =>
    cases stay with
    | some left => exact ⟨left, rfl⟩
    | none =>
      obtain ⟨m, hm, hout⟩ := survivors_none hleft
      rcases hall m hm with hlt | ⟨htie, hfree⟩ <;> simp_all

/-- The list as an insertion leaves it, with the answer. -/
theorem inPlace_run (compare : ι → ι → Except (Fault α) Ordering)
    (blocks : ι → ι → Except (Fault α) Bool) (members : List ι) (s : ι) :
    (inPlace compare blocks (.solution s)).run.run members =
      match survivors (compare s) (blocks s) members with
      | .error e => (.error e, members)
      | .ok none => (.ok false, members)
      | .ok (some left) => (.ok true, left ++ [s]) := by
  have hplaces := beatenPlaces_eq (compare s) (blocks s) 0 members
  rw [inPlace, Work.run_bind (Work.run_get members)]
  cases hleft : survivors (compare s) (blocks s) members with
  | error e =>
    rw [hleft] at hplaces
    rw [hplaces]
    rfl
  | ok stay =>
    rw [hleft] at hplaces
    rw [Work.run_bind (Work.run_lift hplaces members)]
    cases stay with
    | none => rfl
    | some left =>
      have herase := foldr_eraseIdx_markedPlaces (fun m => beaten (compare s m)) [] members
      rw [List.length_nil, List.nil_append, List.nil_append, ← (survivors_some hleft).1] at herase
      simp only [Option.map_some]
      rw [Work.run_bind (forM_eraseIdx_run _ members), herase]
      rfl

end Insertion

variable {ι X α : Type}

/-- A container that is offered something changes as its list of members does. -/
theorem Container.offer_eq_inPlace [Scalar α] (look : ι → Solution X α) (c : Container ι α)
    (x : Offered ι) :
    c.offer look x =
      let (answer, members) := (Insertion.inPlace
        (fun s m => c.policy.compare (look s) (look m))
        (fun s m => c.policy.blocks (look s) (look m)) x).run.run c.members
      answer.map fun added => ({ c with members }, added) := by
  cases x with
  | other typeName => rfl
  | solution s =>
    rw [offer, add, Insertion.inPlace_run]
    cases survivors (fun m => c.policy.compare (look s) (look m))
        (fun m => c.policy.blocks (look s) (look m)) c.members with
    | error e => rfl
    | ok stay => cases stay <;> rfl

namespace Insertion

/-- Insertion leaves the members alone unless it lets the candidate in, and then those
who are not beaten keep their order in front of it.  Where all comparisons have an
answer, it lets in whom no member beats or, at a tie, blocks.  Archives insert in this
way under their own comparisons and tests. -/
theorem inPlace_atomic [Scalar α] (compare : ι → ι → Except (Fault α) Ordering)
    (blocks : ι → ι → Except (Fault α) Bool) (members : List ι) (x : Offered ι) :
    (inPlace compare blocks x).Ends members
        (fun added after =>
          if added then
            ∃ s, x = .solution s ∧ after = members.filter (fun m => !beaten (compare s m)) ++ [s]
          else after = members)
        (fun _ after => after = members) ∧
      (∀ s, x = .solution s → (∀ m ∈ members, ∃ o, compare s m = .ok o) →
        (((inPlace compare blocks x).run.run members).1 = .ok true ↔
          (∀ m ∈ members, compare s m ≠ .ok .gt) ∧
          ∀ m ∈ members, compare s m = .ok .eq → blocks s m = .ok false)) ∧
      ∀ (X : Type) (look : ι → Solution X α) (c : Container ι α),
        c.offer look x =
          let (answer, left) := (inPlace (fun s m => c.policy.compare (look s) (look m))
            (fun s m => c.policy.blocks (look s) (look m)) x).run.run c.members
          answer.map fun added => ({ c with members := left }, added) := by
  refine ⟨?_, ?_, fun X look c => c.offer_eq_inPlace look x⟩
  · cases x with
    | other typeName => rfl
    | solution s =>
      rw [Work.Ends, inPlace_run]
      cases hleft : survivors (compare s) (blocks s) members with
      | error e => rfl
      | ok stay =>
        cases stay with
        | none => rfl
        | some left => exact ⟨s, rfl, congrArg (· ++ [s]) (survivors_some hleft).1⟩
  · rintro s rfl hanswers
    have hadded : ((inPlace compare blocks (.solution s)).run.run members).1 = .ok true ↔
        ∃ left, survivors (compare s) (blocks s) members = .ok (some left) := by
      rw [inPlace_run]
      cases survivors (compare s) (blocks s) members with
      | error e => simp
      | ok stay => cases stay <;> simp
    rw [hadded, survivors_some_iff, ← forall₂_and]
    refine forall₂_congr fun m hm => ?_
    obtain ⟨o, ho⟩ := hanswers m hm
    rw [ho]
    cases o <;> simp

/-- A divisor beats what it divides, and zero cannot be compared. -/
def divisors (a b : Nat) : Except (Fault ℝ) Ordering :=
  if a = 0 ∨ b = 0 then .error .divisionByZero
  else if a ∣ b then .ok .lt
  else if b ∣ a then .ok .gt
  else .ok .eq

/-- The members on both sides of the one that stays are erased. -/
theorem inPlace_atomic_divisor :
    (inPlace divisors (fun a b => .ok (a == b)) (.solution 2)).run.run [4, 9, 6] =
      (.ok true, [9, 2]) := by
  obtain ⟨hends, hlet, -⟩ :=
    inPlace_atomic divisors (fun a b => .ok (a == b)) [4, 9, 6] (.solution 2)
  have hadded := (hlet 2 rfl (by simp [divisors])).mpr (by simp [divisors])
  obtain ⟨s, hs, hleft⟩ := hends.of_ok (Prod.ext hadded rfl)
  obtain rfl := Offered.solution.inj hs
  exact Prod.ext hadded (hleft.trans (by simp [divisors, beaten]))

end Insertion
end ParetoSearch
