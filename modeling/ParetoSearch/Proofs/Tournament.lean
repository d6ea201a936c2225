import ParetoSearch.Proofs.Draws
import ParetoSearch.Proofs.Transitivity
import ParetoSearch.Proofs.Work
import ParetoSearch.Tournament

/-!
# Who wins a tournament

A tournament keeps one winner at a time and passes over every challenger that is not
strictly preferred to it, those included that are not comparable with it.  That loses no
better member as long as preference chains (`Judge.Coherent`): each winner is preferred to
the ones before it, so whoever is preferred to the last is preferred to the winner it lost
to.  The winner is then best among those drawn.

It is the first of the best to be drawn only where ties chain as well (`Judge.TiesChain`).
A member drawn before the winner may tie with a member that the winner has beaten, and
nothing else relates the two.  Fitnesses that are numbers have both laws in either
direction.
-/

namespace ParetoSearch

variable {ι σ X α : Type}

/-! ## Judges -/

namespace Judge

/-- The answer turns round with the members, and preference chains.  No member is then
preferred to itself. -/
structure Coherent (judge : Judge ι α) (members : List ι) : Prop where
  swap : ∀ p ∈ members, ∀ q ∈ members, ∃ o, judge p q = .ok o ∧ judge q p = .ok o.swap
  trans : ∀ p ∈ members, ∀ q ∈ members, ∀ r ∈ members,
    judge p q = .ok .lt → judge q r = .ok .lt → judge p r = .ok .lt

def TiesChain (judge : Judge ι α) (members : List ι) : Prop :=
  ∀ p ∈ members, ∀ q ∈ members, ∀ r ∈ members,
    judge p q = .ok .eq → judge q r = .ok .eq → judge p r = .ok .eq

/-- One of those drawn, to whom none of them is preferred. -/
def Best (judge : Judge ι α) (field : List ι) (w : ι) : Prop :=
  w ∈ field ∧ ∀ m ∈ field, judge m w ≠ .ok .lt

/-- The earliest of the best. -/
def FirstBest (judge : Judge ι α) (field : List ι) (w : ι) : Prop :=
  ∃ before after, field = before ++ w :: after ∧ judge.Best field w ∧
    ∀ m ∈ before, ¬ judge.Best field m

/-- The winner so far, after a challenge. -/
def better (judge : Judge ι α) (best m : ι) : Except (Fault α) ι :=
  match judge m best with
  | .error e => .error e
  | .ok .lt => .ok m
  | .ok _ => .ok best

variable {judge : Judge ι α} {members : List ι} {p q r : ι}

theorem better_of_lt (h : judge q p = .ok .lt) : judge.better p q = .ok q := by
  rw [better, h]

theorem better_of_ne_lt {o : Ordering} (h : judge q p = .ok o) (ho : o ≠ .lt) :
    judge.better p q = .ok p := by
  rw [better, h]
  cases o with
  | lt => exact absurd rfl ho
  | eq | gt => rfl

namespace Coherent

variable (h : judge.Coherent members) (hp : p ∈ members) (hq : q ∈ members) (hr : r ∈ members)

include h hp

theorem not_self : judge p p ≠ .ok .lt := by
  obtain ⟨o, ho, hswap⟩ := h.swap p hp p hp
  have hfixed : o = o.swap := Except.ok.inj (ho.symm.trans hswap)
  intro hlt
  obtain rfl := Except.ok.inj (hlt.symm.trans ho)
  cases hfixed

include hq

theorem asymm (hpq : judge p q = .ok .lt) : judge q p ≠ .ok .lt := by
  obtain ⟨o, ho, hswap⟩ := h.swap p hp q hq
  obtain rfl := Except.ok.inj (hpq.symm.trans ho)
  rw [hswap]
  nofun

include hr

/-- Where ties chain, a member that is not preferred to another falls behind with it. -/
theorem lt_of_lt_of_not_lt (hties : judge.TiesChain members) (hpq : judge p q = .ok .lt)
    (hrq : judge r q ≠ .ok .lt) : judge p r = .ok .lt := by
  obtain ⟨o, hpr, hrp⟩ := h.swap p hp r hr
  cases o with
  | lt => exact hpr
  | gt => exact absurd (h.trans r hr p hp q hq hrp hpq) hrq
  | eq =>
    obtain ⟨o', hrq', hqr⟩ := h.swap r hr q hq
    cases o' with
    | lt => exact absurd hrq' hrq
    | eq =>
      rw [hties p hp r hr q hq hpr hrq'] at hpq
      cases hpq
    | gt =>
      rw [h.trans p hp q hq r hr hpq hqr] at hpr
      cases hpr

end Coherent

/-! ## A scan over those drawn -/

/-- How a winner `w` stands to the first of those drawn and to the rest of them.  That it is
or beats the first carries the other two through a challenge. -/
structure Settled (judge : Judge ι α) (members : List ι) (first : ι) (rest : List ι) (w : ι) :
    Prop where
  chain : w = first ∨ judge w first = .ok .lt
  unbeaten : ∀ m ∈ first :: rest, judge m w ≠ .ok .lt
  split : ∃ before after, first :: rest = before ++ w :: after ∧
    (judge.TiesChain members → ∀ m ∈ before, judge w m = .ok .lt)

namespace Settled

variable {leader m w : ι} {rest : List ι} (h : judge.Coherent members)

include h

theorem alone (hleader : leader ∈ members) : judge.Settled members leader [] leader where
  chain := Or.inl rfl
  unbeaten m hm := by
    rw [List.mem_singleton.mp hm]
    exact h.not_self hleader
  split := ⟨[], [], rfl, fun _ => nofun⟩

variable (hleader : leader ∈ members) (hm : m ∈ members) (hw : w ∈ members)

include hleader hm hw

theorem replaced (hlt : judge m leader = .ok .lt) (hs : judge.Settled members m rest w) :
    judge.Settled members leader (m :: rest) w := by
  have hbeaten : judge w leader = .ok .lt := by
    rcases hs.chain with rfl | hwm
    · exact hlt
    · exact h.trans w hw m hm leader hleader hwm hlt
  obtain ⟨before, after, hfield, hbefore⟩ := hs.split
  refine ⟨Or.inr hbeaten, List.forall_mem_cons.mpr ⟨h.asymm hw hleader hbeaten, hs.unbeaten⟩,
    leader :: before, after, congrArg (leader :: ·) hfield, fun hties => ?_⟩
  exact List.forall_mem_cons.mpr ⟨hbeaten, hbefore hties⟩

theorem held (hnot : judge m leader ≠ .ok .lt) (hs : judge.Settled members leader rest w) :
    judge.Settled members leader (m :: rest) w := by
  have hloses : judge m w ≠ .ok .lt := by
    rcases hs.chain with rfl | hwbest
    · exact hnot
    · exact fun hmw => hnot (h.trans m hm w hw leader hleader hmw hwbest)
  have hunbeaten := hs.unbeaten
  rw [List.forall_mem_cons] at hunbeaten
  refine ⟨hs.chain, ?_, ?_⟩
  · exact List.forall_mem_cons.mpr ⟨hunbeaten.1, List.forall_mem_cons.mpr ⟨hloses, hunbeaten.2⟩⟩
  · obtain ⟨before, after, hfield, hbefore⟩ := hs.split
    cases before with
    | nil =>
      obtain ⟨rfl, rfl⟩ := List.cons.inj hfield
      exact ⟨[], m :: rest, rfl, fun _ => nofun⟩
    | cons first before =>
      obtain ⟨rfl, rfl⟩ := List.cons.inj hfield
      refine ⟨leader :: m :: before, after, rfl, fun hties => ?_⟩
      obtain ⟨hfirst, hbefore⟩ := List.forall_mem_cons.mp (hbefore hties)
      simp only [List.forall_mem_cons]
      exact ⟨hfirst, h.lt_of_lt_of_not_lt hw hleader hm hties hfirst hnot, hbefore⟩

omit hleader hm hw

theorem scan (hleader : leader ∈ members) (hrest : ∀ m ∈ rest, m ∈ members) :
    ∃ w ∈ members, rest.foldlM judge.better leader = .ok w ∧
      judge.Settled members leader rest w := by
  induction rest generalizing leader with
  | nil => exact ⟨leader, hleader, rfl, alone h hleader⟩
  | cons m rest ih =>
    rw [List.forall_mem_cons] at hrest
    obtain ⟨hm, hrest⟩ := hrest
    obtain ⟨o, ho, -⟩ := h.swap m hm leader hleader
    by_cases hlt : o = .lt
    · obtain ⟨w, hw, hrun, hs⟩ := ih hm hrest
      refine ⟨w, hw, ?_, hs.replaced h hleader hm hw (hlt ▸ ho)⟩
      rw [List.foldlM_cons, better_of_lt (hlt ▸ ho), ok_bind, hrun]
    · obtain ⟨w, hw, hrun, hs⟩ := ih hleader hrest
      refine ⟨w, hw, ?_, hs.held h hleader hm hw fun hlt' => hlt ?_⟩
      · rw [List.foldlM_cons, better_of_ne_lt ho hlt, ok_bind, hrun]
      · exact Except.ok.inj (ho.symm.trans hlt')

omit h

theorem best (hs : judge.Settled members leader rest w) : judge.Best (leader :: rest) w := by
  obtain ⟨before, after, hfield, -⟩ := hs.split
  refine ⟨?_, hs.unbeaten⟩
  rw [hfield]
  exact List.mem_append_right _ List.mem_cons_self

theorem firstBest (hs : judge.Settled members leader rest w) (hties : judge.TiesChain members) :
    judge.FirstBest (leader :: rest) w := by
  obtain ⟨before, after, hfield, hbefore⟩ := hs.split
  exact ⟨before, after, hfield, hs.best, fun m hm hbest => hbest.2 w hs.best.1 (hbefore hties m hm)⟩

end Settled
end Judge

/-! ## Draws -/

namespace Dice

variable [Scalar α] (dice : Dice σ α)

variable (members : List ι) (rounds : Nat)

/-- The members that one tournament draws. -/
def field (s : σ) : List ι := (dice.places members.length rounds s).filterMap (members[·.toNat]?)

/-- What several tournaments draw, each from where the one before left the dice. -/
def fields : Nat → σ → List (List ι)
  | 0, _ => []
  | n + 1, s => dice.field members rounds s :: fields n (dice.roll rounds s).2

theorem length_fields (n : Nat) (s : σ) : (dice.fields members rounds n s).length = n := by
  induction n generalizing s with
  | zero => rfl
  | succ n ih => exact congrArg (· + 1) (ih _)

end Dice

namespace Judge

theorem memberAt_eq {members : List ι} {place : Int}
    (hplace : 0 ≤ place ∧ place < members.length) :
    ∃ m ∈ members, members[place.toNat]? = some m ∧
      (Container.memberAt members place : Except (Fault α) ι) = .ok m := by
  have hlt : place.toNat < members.length := by omega
  have hposition : Vector.position? place members.length = some place.toNat := by
    have hsign : ¬ place < 0 := by omega
    simp only [Vector.position?, if_neg hsign, if_pos hplace]
  refine ⟨members[place.toNat], List.getElem_mem hlt, List.getElem?_eq_getElem hlt, ?_⟩
  rw [Container.memberAt, hposition, Option.bind_some, List.getElem?_eq_getElem hlt]

/-- Members are looked up as they are drawn. -/
theorem winner_eq (judge : Judge ι α) {members : List ι} {places : List Int}
    (hplaces : ∀ i ∈ places, 0 ≤ i ∧ i < members.length) (best : ι) :
    judge.winner members best places =
      (places.filterMap (members[·.toNat]?)).foldlM judge.better best := by
  induction places generalizing best with
  | nil => rfl
  | cons place rest ih =>
    rw [List.forall_mem_cons] at hplaces
    obtain ⟨m, -, hget, hat⟩ := memberAt_eq (α := α) hplaces.1
    have hfield : (place :: rest).filterMap (members[·.toNat]?) =
        m :: rest.filterMap (members[·.toNat]?) := List.filterMap_cons_some hget
    rw [hfield, List.foldlM_cons, winner, hat]
    cases hjudge : judge m best with
    | error e => simp only [better, hjudge]; rfl
    | ok o => cases o <;> simp only [better, hjudge, ok_bind, ih hplaces.2]

variable [Scalar α] {dice : Dice σ α} {members : List ι} {rounds : Nat}

theorem length_field (hdice : dice.LandsIn members.length) (s : σ) :
    (dice.field members rounds s).length = rounds := by
  obtain ⟨hlength, hrange⟩ := hdice rounds s
  rw [Dice.field, List.filterMap_length_eq_length.mpr fun i hi => ?_, hlength]
  obtain ⟨m, -, hget, -⟩ := memberAt_eq (α := α) (hrange i hi)
  rw [hget, Option.isSome_some]

theorem length_of_mem_fields (hdice : dice.LandsIn members.length) {n : Nat} {s : σ}
    {field : List ι} (h : field ∈ dice.fields members rounds n s) : field.length = rounds := by
  induction n generalizing s with
  | zero => cases h
  | succ n ih =>
    rcases List.mem_cons.mp h with rfl | h
    · exact length_field hdice s
    · exact ih h

/-- A tournament scans what it draws. -/
theorem play_run (judge : Judge ι α) (hdice : dice.LandsIn members.length) (hrounds : 0 < rounds)
    (s : σ) :
    ∃ first rest, dice.field members rounds s = first :: rest ∧ first ∈ members ∧
      (∀ m ∈ rest, m ∈ members) ∧
      (judge.play rounds dice members).run.run s =
        (rest.foldlM judge.better first, (dice.roll rounds s).2) := by
  obtain ⟨hlength, hrange⟩ := hdice rounds s
  have hplay : (judge.play rounds dice members).run.run s =
    (judge.contest members (dice.places members.length rounds s), (dice.roll rounds s).2) := rfl
  obtain ⟨place, rest, hplaces⟩ := List.exists_cons_of_length_pos (hlength.symm ▸ hrounds)
  rw [hplaces, List.forall_mem_cons] at hrange
  obtain ⟨first, hfirst, hget, hat⟩ := memberAt_eq (α := α) hrange.1
  refine ⟨first, rest.filterMap (members[·.toNat]?), ?_, hfirst, fun m hm => ?_, ?_⟩
  · rw [Dice.field, hplaces]
    exact List.filterMap_cons_some hget
  · obtain ⟨i, -, hi⟩ := List.mem_filterMap.mp hm
    exact List.mem_of_getElem? hi
  · rw [hplay, hplaces, contest, hat]
    exact congrArg (·, _) (judge.winner_eq hrange.2 first)

/-- What holds of each tournament by itself holds of as many as are wanted. -/
theorem select_run {P : List ι → ι → Prop} {judge : Judge ι α} (hmembers : members ≠ [])
    (hplay : ∀ s, ∃ w, (judge.play rounds dice members).run.run s =
      (.ok w, (dice.roll rounds s).2) ∧ P (dice.field members rounds s) w) (arity : Int) (s : σ) :
    ∃ parents s', (judge.select rounds dice arity members).run.run s = (.ok parents, s') ∧
      List.Forall₂ P (dice.fields members rounds arity.toNat s) parents := by
  have hplays : ∀ (turns : List Nat) (s : σ), ∃ parents s',
      (turns.mapM fun _ => judge.play rounds dice members).run.run s = (.ok parents, s') ∧
        List.Forall₂ P (dice.fields members rounds turns.length s) parents := by
    intro turns
    induction turns with
    | nil => exact fun s => ⟨[], s, rfl, .nil⟩
    | cons turn turns ih =>
      intro s
      obtain ⟨w, hrun, hw⟩ := hplay s
      obtain ⟨parents, s', hruns, hparents⟩ := ih (dice.roll rounds s).2
      refine ⟨w :: parents, s', ?_, .cons hw hparents⟩
      rw [List.mapM_cons, Work.run_bind hrun, Work.run_bind hruns]
      rfl
  have hempty : ¬ members.isEmpty = true := by simpa using hmembers
  rw [select, if_neg hempty]
  obtain ⟨parents, s', hrun, hparents⟩ := hplays (List.range arity.toNat) s
  rw [List.length_range] at hparents
  exact ⟨parents, s', hrun, hparents⟩

/-! ## Fitness -/

section

variable [ChainedScalar α] {x y z : α} (hx : Scalar.isNumber x = true)
  (hy : Scalar.isNumber y = true) (hz : Scalar.isNumber z = true)

include hx hy hz

theorem smallerFirst_trans (hxy : smallerFirst x y = .lt) (hyz : smallerFirst y z = .lt) :
    smallerFirst x z = .lt := by
  have hlevels : Levelled (id : α → α) (Scalar.isNumber · = true) :=
    levelled_of_isNumber fun _ h => h
  rw [smallerFirst_lt_iff] at hxy hyz ⊢
  exact hlevels.lt_trans hx hy hz hxy hyz

theorem smallerFirst_ties_trans (hxy : smallerFirst x y = .eq) (hyz : smallerFirst y z = .eq) :
    smallerFirst x z = .eq := by
  have hlevels : Levelled (id : α → α) (Scalar.isNumber · = true) :=
    levelled_of_isNumber fun _ h => h
  rw [smallerFirst_eq_iff hx hy] at hxy
  rw [smallerFirst_eq_iff hy hz] at hyz
  rw [smallerFirst_eq_iff hx hz]
  exact ⟨hlevels.not_lt_trans hx hy hz hxy.1 hyz.1, hlevels.not_lt_trans hz hy hx hyz.2 hxy.2⟩

end

/-- Fitnesses that are numbers lie in a line, and a comparator runs along it one way or the
other. -/
theorem fitness_laws [ChainedScalar α] (larger : Bool) (rounds : Nat) {look : ι → Solution X α}
    (hfitness : ∀ m ∈ members, ∃ x, (look m).fitness? = some x ∧ Scalar.isNumber x = true) :
    (Tournament.judge ⟨.fitness larger, rounds⟩ look).Coherent members ∧
      (Tournament.judge ⟨.fitness larger, rounds⟩ look).TiesChain members := by
  have hjudge : ∀ p q x y, (look p).fitness? = some x → (look q).fitness? = some y →
      Tournament.judge ⟨.fitness larger, rounds⟩ look p q =
        .ok (if larger then smallerFirst y x else smallerFirst x y) :=
    fun p q x y hp hq => compareFitness_eq larger hp hq
  refine ⟨⟨fun p hp q hq => compareFitness_swap larger (hfitness p hp) (hfitness q hq), ?_⟩, ?_⟩
  all_goals
    intro p hp q hq r hr
    obtain ⟨x, hpx, hx⟩ := hfitness p hp
    obtain ⟨y, hqy, hy⟩ := hfitness q hq
    obtain ⟨z, hrz, hz⟩ := hfitness r hr
    simp only [hjudge _ _ _ _ hpx hqy, hjudge _ _ _ _ hqy hrz, hjudge _ _ _ _ hpx hrz,
      Except.ok.injEq]
    intro hpq hqr
    cases larger
  · exact smallerFirst_trans hx hy hz hpq hqr
  · exact smallerFirst_trans hz hy hx hqr hpq
  · exact smallerFirst_ties_trans hx hy hz hpq hqr
  · exact smallerFirst_ties_trans hz hy hx hqr hpq

/-- Each parent is the best of those its tournament drew, and where ties chain the first of
the best.  Both laws hold of fitnesses that are numbers. -/
theorem select_best [ChainedScalar α] (hmembers : members ≠ []) (hrounds : 0 < rounds)
    (hdice : dice.LandsIn members.length) (arity : Int) (s : σ) :
    (∀ field ∈ dice.fields members rounds arity.toNat s, field.length = rounds) ∧
    (∀ judge : Judge ι α, judge.Coherent members →
      ∃ parents s', (judge.select rounds dice arity members).run.run s = (.ok parents, s') ∧
        List.Forall₂ (fun field w => judge.Best field w ∧
          (judge.TiesChain members → judge.FirstBest field w))
          (dice.fields members rounds arity.toNat s) parents) ∧
    ∀ (larger : Bool) (look : ι → Solution X α),
      (∀ m ∈ members, ∃ x, (look m).fitness? = some x ∧ Scalar.isNumber x = true) →
      let t : Tournament α := ⟨.fitness larger, rounds⟩
      ∃ parents s', (t.select look dice arity members).run.run s = (.ok parents, s') ∧
        List.Forall₂ (t.judge look).FirstBest (dice.fields members rounds arity.toNat s)
          parents := by
  have hselect : ∀ judge : Judge ι α, judge.Coherent members →
      ∃ parents s', (judge.select rounds dice arity members).run.run s = (.ok parents, s') ∧
        List.Forall₂ (fun field w => judge.Best field w ∧
          (judge.TiesChain members → judge.FirstBest field w))
          (dice.fields members rounds arity.toNat s) parents := by
    intro judge hjudge
    refine select_run hmembers (fun s => ?_) arity s
    obtain ⟨first, rest, hfield, hfirst, hrest, hplay⟩ := judge.play_run hdice hrounds s
    obtain ⟨w, -, hscan, hsettled⟩ := Settled.scan hjudge hfirst hrest
    rw [hfield, hplay, hscan]
    exact ⟨w, rfl, hsettled.best, hsettled.firstBest⟩
  refine ⟨fun field => length_of_mem_fields hdice, hselect, fun larger look hfitness => ?_⟩
  obtain ⟨hjudge, hties⟩ := fitness_laws larger rounds hfitness
  obtain ⟨parents, s', hrun, hparents⟩ := hselect _ hjudge
  exact ⟨parents, s', hrun, hparents.imp fun field w h => h.2 hties⟩

/-- Two vectors on the front besides one that is between them, and one that is behind it. -/
def crowd : List (List Float) := [[0, 3], [1, 1], [3, 0], [2, 2]]

/-- A member rated by its first objective. -/
def rated (f : List Float) : Solution Unit Float := ⟨(), f, [], [(fitnessName, f.headD 0)]⟩

def dominance : Judge (List Float) Float := comparePareto

def urn : Dice Nat Float := .quarters

theorem select_best_crowd :
    crowd ≠ [] ∧ 0 < 3 ∧ urn.LandsIn crowd.length ∧
      dominance.Coherent crowd ∧
      (∃ parents s', (dominance.select 3 urn 2 crowd).run.run 1 =
        (.ok parents, s') ∧
          List.Forall₂ dominance.Best (urn.fields crowd 3 2 1) parents) ∧
      (∀ m ∈ crowd, ∃ x, (rated m).fitness? = some x ∧ Scalar.isNumber x = true) ∧
      ∃ parents s', (Tournament.select ⟨.fitness false, 3⟩ rated urn 2 crowd).run.run 1 =
        (.ok parents, s') ∧
          List.Forall₂ (Tournament.judge ⟨.fitness false, 3⟩ rated).FirstBest
            (urn.fields crowd 3 2 1) parents := by
  have hdice : urn.LandsIn crowd.length := by
    refine Dice.landsIn_quarters ?_
    with_unfolding_all decide
  have hlength : ∀ f ∈ crowd, f.length = 2 := by decide
  have hpareto : dominance.Coherent crowd := by
    refine ⟨fun f hf g hg => comparePareto_swap ((hlength f hf).trans (hlength g hg).symm), ?_⟩
    intro f hf g hg k hk hfg hgk
    have hfg' : f.length = g.length := (hlength f hf).trans (hlength g hg).symm
    have hgk' : g.length = k.length := (hlength g hg).trans (hlength k hk).symm
    rw [dominance, comparePareto_eq, dominanceOrder_lt_iff hfg'] at hfg
    rw [dominance, comparePareto_eq, dominanceOrder_lt_iff hgk'] at hgk
    rw [dominance, comparePareto_eq, dominanceOrder_lt_iff (hfg'.trans hgk')]
    exact dominates_trans hfg' hgk' hfg hgk
  have hrated : ∀ m ∈ crowd, ∃ x, (rated m).fitness? = some x ∧ Scalar.isNumber x = true := by
    simp only [crowd, List.forall_mem_cons]
    exact ⟨⟨0, rfl, by with_unfolding_all rfl⟩, ⟨1, rfl, by with_unfolding_all rfl⟩,
      ⟨3, rfl, by with_unfolding_all rfl⟩, ⟨2, rfl, by with_unfolding_all rfl⟩, nofun⟩
  obtain ⟨-, hselect, hfitness⟩ :=
    select_best (X := Unit) (by decide : crowd ≠ []) (by decide : 0 < 3) hdice 2 1
  obtain ⟨parents, s', hrun, hparents⟩ := hselect dominance hpareto
  exact ⟨by decide, by decide, hdice, hpareto, ⟨parents, s', hrun, hparents.imp fun _ _ h => h.1⟩,
    hrated, hfitness false rated hrated⟩

end Judge
end ParetoSearch
