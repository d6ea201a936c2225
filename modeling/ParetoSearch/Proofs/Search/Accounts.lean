import ParetoSearch.Proofs.Search.Assembled
import ParetoSearch.Proofs.Search.Handout
import ParetoSearch.Proofs.Search.Sound

/-!
# The books of a run

A machine keeps several books: the population, the tracked fitness, the two counters and
the archive.  Whatever calls it gets, in whatever order, they agree with what the run has
produced (`Machine.conduct_accounts`), if the collaborators never fail.  A call that
comes out of order changes nothing, and no call fails for another reason.

What a run has produced is told by `Machine.Past`, the ways in which a machine comes
about: founders first, and then one batch of offspring for each generation that was
completed.
-/

namespace ParetoSearch

variable {σ α : Type} [Scalar α]

namespace Machine

/-! ## What a run has produced -/

/-- Solutions that joined together, and the world in which they did. -/
structure Batch (σ α : Type) where
  world : World σ α
  solutions : List Ref

/-- How a machine came about from another one.  An observer may change the world between
two generations, but no solution. -/
inductive Past (s : Search σ α) (sane : World σ α → Prop) (origin : Machine σ α) :
    List (Batch σ α) → Machine σ α → Prop where
  | nothing : Past s sane origin [] origin
  | founded {founders : List Ref} {joined next : Machine σ α}
    (hfound : (found s).run.run origin = (.ok founders, joined))
    (hlaunch : (launch s).run.run joined = (.ok (), next)) :
    Past s sane origin [⟨joined.world, founders⟩] next
  | generation {batches : List (Batch σ α)} {m merged next : Machine σ α} {offspring : List Ref}
    (h : Past s sane origin batches m)
    (hmerge : (merge s).run.run m = (.ok offspring, merged))
    (hsettle : (settle s m.population.length).run.run merged = (.ok (), next)) :
    Past s sane origin (batches ++ [⟨merged.world, offspring⟩]) next
  | aside {batches : List (Batch σ α)} {m : Machine σ α} {world : World σ α}
    (h : Past s sane origin batches m) (hready : m.ready = true)
    (hext : m.world.Extends world) (hworld : sane world) :
    Past s sane origin batches { m with world := world }

/-- The archive after batches were offered to it one after another, each in its world. -/
def archiveOf (archive : Option (Container Ref α)) (batches : List (Batch σ α)) :
    Option (Container Ref α) :=
  batches.foldl (fun kept b => enrolled kept b.world b.solutions) archive

/-- The books of a machine agree with the founders and the batches of offspring. -/
structure Account (s : Search σ α) (archive : Option (Container Ref α)) (size : Nat)
    (first : Batch σ α) (rest : List (Batch σ α)) (m : Machine σ α) : Prop where
  founders_eq : first.solutions.length = size
  generations_eq : m.generations = rest.length
  evaluations_eq : m.evaluations = size + (rest.map fun b => b.solutions.length).sum
  archive_eq : m.archive = archiveOf archive (first :: rest)
  kept : ∀ b ∈ first :: rest,
    (∀ r ∈ b.solutions, r.index < b.world.store.size) ∧ b.world.Keeps m.world
  counted : ∀ k, 0 < k → s.Brings k → ∀ b ∈ rest, b.solutions.length = k * ((size + k - 1) / k)

section

variable {s : Search σ α} {sane : World σ α → Prop} {size width : Nat} {kind : SchemeKind}
  {arguments : SchemeArguments α} {world : World σ α} {archive : Option (Container Ref α)}
  {batches : List (Batch σ α)} {m : Machine σ α}

theorem Steady.aside (h : m.Steady sane size width) {w : World σ α}
    (hext : m.world.Extends w) (hw : sane w) :
    ({ m with world := w } : Machine σ α).Steady sane size width := by
  refine ⟨h.ready, hw, h.length_eq, fun r hr => ?_, h.tracked,
    h.archived.of_holds fun r hr => hext.keeps.holds hr⟩
  obtain ⟨hholds, hrated⟩ := h.members r hr
  refine ⟨hext.keeps.holds hholds, ?_⟩
  change ((w.look r).fitness?).isSome
  rw [hext.look_eq hholds.stored]
  exact hrated

theorem Steady.outcome_run (h : m.Steady sane size width) :
    ∃ o, outcome.run.run m = (.ok o, m) := by
  obtain ⟨fitness, hfitness, hlength⟩ := h.tracked
  have hcount : ¬ fitness.length ≠ m.population.length := by
    rw [hlength, h.length_eq]
    exact fun hne => hne rfl
  refine ⟨⟨m.population, fitness, m.archive, m.generations, m.evaluations⟩, ?_⟩
  rw [outcome, Work.run_bind (Work.run_get m), h.ready]
  simp only [Bool.not_true, Bool.false_eq_true, if_false]
  rw [Work.run_bind (Work.run_lift hfitness m)]
  refine Work.run_lift ?_ m
  rw [Outcome.ofFitness?, if_neg hcount]

section

variable {first : Batch σ α} {rest : List (Batch σ α)}

/-- A further batch is one more line in the books. -/
theorem Account.snoc (h : Account s archive size first rest m)
    (hlength : m.population.length = size) {merged next : Machine σ α} {offspring : List Ref}
    (hmerge : (merge s).run.run m = (.ok offspring, merged))
    (hstored : ∀ r ∈ offspring, r.index < merged.world.store.size)
    (hext : m.world.Extends merged.world) (hkeeps : merged.world.Keeps next.world)
    (hgenerations : next.generations = m.generations + 1)
    (hevaluations : next.evaluations = m.evaluations + offspring.length)
    (harchived : next.archive = enrolled m.archive merged.world offspring) :
    Account s archive size first (rest ++ [⟨merged.world, offspring⟩]) next where
  founders_eq := h.founders_eq
  generations_eq := by
    rw [hgenerations, h.generations_eq, List.length_append]
    rfl
  evaluations_eq := by
    rw [hevaluations, h.evaluations_eq, List.map_append, List.sum_append, Nat.add_assoc]
    rfl
  archive_eq := by
    rw [harchived, h.archive_eq, archiveOf, archiveOf, ← List.cons_append, List.foldl_append]
    rfl
  kept := by
    intro b hb
    rw [← List.cons_append] at hb
    rcases List.mem_append.mp hb with hold | hnew
    · obtain ⟨hbefore, hsince⟩ := h.kept b hold
      exact ⟨hbefore, hsince.trans (hext.keeps.trans hkeeps)⟩
    · obtain rfl := List.mem_singleton.mp hnew
      exact ⟨hstored, hkeeps⟩
  counted := by
    intro k hk hbrings b hb
    rcases List.mem_append.mp hb with hold | hnew
    · exact h.counted k hk hbrings b hold
    · obtain rfl := List.mem_singleton.mp hnew
      rw [← hlength]
      exact merge_length hk hbrings hmerge

theorem Account.aside (h : Account s archive size first rest m) {w : World σ α}
    (hext : m.world.Extends w) :
    Account s archive size first rest { m with world := w } where
  founders_eq := h.founders_eq
  generations_eq := h.generations_eq
  evaluations_eq := h.evaluations_eq
  archive_eq := h.archive_eq
  kept := fun b hb => ⟨(h.kept b hb).1, (h.kept b hb).2.trans hext.keeps⟩
  counted := h.counted

end

/-- A machine with a past is as new, or steady with its books in order. -/
theorem Past.account (hs : s.Reliable sane size width)
    (hbuild : kind.build arguments = .ok s.scheme) (hfits : kind.Fits arguments width)
    (hsane : sane world) (harchive : Admitting sane width world archive)
    (h : Past s sane (start world archive) batches m) :
    (batches = [] ∧ m = start world archive) ∨
      ∃ first rest, batches = first :: rest ∧ m.Steady sane size width ∧
        Account s archive size first rest m := by
  induction h with
  | nothing => exact Or.inl ⟨rfl, rfl⟩
  | founded hfound hlaunch =>
    obtain ⟨founders, w, next, hfound', hlaunch', hsteady, hlength, hfounders, hkeeps,
      hgenerations, hevaluations, harchived⟩ :=
      setUp_reliable (m := start world archive) hs hbuild hfits rfl rfl hsane harchive
    cases hfound.symm.trans hfound'
    cases hlaunch.symm.trans hlaunch'
    refine Or.inr ⟨_, [], rfl, hsteady, hlength, hgenerations, ?_, harchived, ?_, ?_⟩
    · rw [hevaluations, hlength]
      exact Nat.zero_add size
    · intro b hb
      obtain rfl := List.mem_singleton.mp hb
      exact ⟨fun r hr => (hfounders r hr).stored, hkeeps⟩
    · intro k _ _ b hb
      cases hb
  | generation hpast hmerge hsettle ih =>
    rcases ih with ⟨rfl, rfl⟩ | ⟨first, rest, rfl, hsteady, haccount⟩
    · rw [merge_not_ready rfl] at hmerge
      cases hmerge
    · obtain ⟨offspring, w, next, hmerge', hsettle', hnext, hext, hoffspring, hkeeps,
        hgenerations, hevaluations, harchived⟩ := generation_run hs hbuild hfits hsteady
      have hjoined := hmerge
      cases hmerge.symm.trans hmerge'
      cases hsettle.symm.trans hsettle'
      exact Or.inr ⟨first, rest ++ [_], rfl, hnext, haccount.snoc hsteady.length_eq hjoined
        (fun r hr => (hoffspring r hr).stored) hext hkeeps hgenerations hevaluations harchived⟩
  | aside hpast hready hext hworld ih =>
    rcases ih with ⟨rfl, rfl⟩ | ⟨first, rest, rfl, hsteady, haccount⟩
    · cases hready
    · exact Or.inr ⟨first, rest, rfl, hsteady.aside hext hworld, haccount.aside hext⟩

end

/-! ## Calls -/

/-- What a machine may be told to do. -/
inductive Act (σ α : Type) [Scalar α] where
  | setUp
  | iterate
  | step
  | run (generations : Int) (observer : Option (Observer σ α))

namespace Act

def perform (s : Search σ α) : Act σ α → Work (Machine σ α) α Unit
  | .setUp => Machine.setUp s
  | .iterate => Machine.iterate s
  | .step => Machine.step s
  | .run generations observer => do
    let _ ← Machine.run s generations observer

/-- An observer, if there is one, leaves solutions alone.  It may fail. -/
def Harmless (sane : World σ α → Prop) : Act σ α → Prop
  | .run _ (some f) => ∀ o i w, sane w →
    (f o i).Ends w (fun _ w' => sane w' ∧ w.Extends w') fun _ w' => sane w' ∧ w.Extends w'
  | _ => True

/-- The fault of an observer that is told of generations. -/
def Raised (observer : Option (Observer σ α)) (e : Fault α) : Prop :=
  ∃ f, observer = some f ∧ ∃ o i w w', (f o i).run.run w = (.error e, w')

/-- What a call that succeeds adds to the count of generations. -/
def Done (m t : Machine σ α) : Act σ α → Prop
  | .setUp => m.ready = false ∧ t.generations = m.generations
  | .iterate => m.ready = true ∧ t.generations = m.generations + 1
  | .step => t.generations = if m.ready then m.generations + 1 else m.generations
  | .run generations observer =>
    0 ≤ generations ∧ t.generations ≤ m.generations + generations.toNat ∧
      (observer = none → t.generations = m.generations + generations.toNat)

/-- How a call may fail: out of order, with a negative number, or by its observer.  Only
an observer can leave anything done. -/
def Failed (m : Machine σ α) (e : Fault α) (t : Machine σ α) : Act σ α → Prop
  | .setUp => m.ready = true ∧ e = .alreadyStarted ∧ t = m
  | .iterate => m.ready = false ∧ e = .iterateBeforeStart ∧ t = m
  | .step => False
  | .run generations observer =>
    (generations < 0 ∧ e = .generationsNegative generations ∧ t = m) ∨
      (Raised observer e ∧ t.generations ≤ m.generations + generations.toNat)

end Act

/-- One call after another, whether they fail or not. -/
def conduct (s : Search σ α) (acts : List (Act σ α)) (m : Machine σ α) : Machine σ α :=
  acts.foldl (fun m act => ((act.perform s).run.run m).2) m

section

variable {s : Search σ α} {sane : World σ α → Prop} {size width : Nat} {kind : SchemeKind}
  {arguments : SchemeArguments α} {world : World σ α} {archive : Option (Container Ref α)}
  (hs : s.Reliable sane size width) (hbuild : kind.build arguments = .ok s.scheme)
  (hfits : kind.Fits arguments width) (hsane : sane world)
  (harchive : Admitting sane width world archive) {m : Machine σ α}

/-- Some batches are the past of a machine. -/
def HasPast (s : Search σ α) (sane : World σ α → Prop) (origin m : Machine σ α) : Prop :=
  ∃ batches, Past s sane origin batches m

include hs hbuild hfits hsane harchive

theorem HasPast.eq_start (h : HasPast s sane (start world archive) m) (hready : m.ready = false) :
    m = start world archive := by
  obtain ⟨batches, hpast⟩ := h
  rcases hpast.account hs hbuild hfits hsane harchive with ⟨-, heq⟩ | ⟨_, _, -, hsteady, -⟩
  · exact heq
  · rw [hsteady.ready] at hready
    cases hready

theorem HasPast.steady (h : HasPast s sane (start world archive) m) (hready : m.ready = true) :
    m.Steady sane size width := by
  obtain ⟨batches, hpast⟩ := h
  rcases hpast.account hs hbuild hfits hsane harchive with ⟨-, rfl⟩ | ⟨_, _, -, hsteady, -⟩
  · cases hready
  · exact hsteady

/-- Setting up succeeds once. -/
theorem setUp_ends (h : HasPast s sane (start world archive) m) :
    (setUp s).Ends m
      (fun _ t => HasPast s sane (start world archive) t ∧ t.ready = true ∧
        m.ready = false ∧ t.generations = m.generations)
      fun e t => m.ready = true ∧ e = .alreadyStarted ∧ t = m := by
  rw [Work.ends_congr (setUp_run s m)]
  cases hready : m.ready with
  | true =>
    refine Work.Ends.bind (P := fun _ _ => False) ?_ fun _ _ hfalse => hfalse.elim
    exact Work.ends_of_fault (found_ready hready) ⟨rfl, rfl, rfl⟩
  | false =>
    obtain rfl := h.eq_start hs hbuild hfits hsane harchive hready
    obtain ⟨founders, w, next, hfound, hlaunch, hsteady, -, -, -, hgenerations, -⟩ :=
      setUp_reliable (m := start world archive) hs hbuild hfits rfl rfl hsane harchive
    refine Work.ends_of_run (x := ()) (t := next) ?_
      ⟨⟨_, .founded hfound hlaunch⟩, hsteady.ready, rfl, hgenerations⟩
    rw [Work.run_bind hfound]
    exact hlaunch

/-- A generation succeeds on every machine that is set up. -/
theorem generation_ends (h : HasPast s sane (start world archive) m) :
    (iterate s).Ends m
      (fun _ t => HasPast s sane (start world archive) t ∧ t.ready = true ∧
        m.ready = true ∧ t.generations = m.generations + 1)
      fun e t => m.ready = false ∧ e = .iterateBeforeStart ∧ t = m := by
  rw [Work.ends_congr (iterate_run s m)]
  cases hready : m.ready with
  | false =>
    refine Work.Ends.bind (P := fun _ _ => False) ?_ fun _ _ hfalse => hfalse.elim
    exact Work.ends_of_fault (merge_not_ready hready) ⟨rfl, rfl, rfl⟩
  | true =>
    have hsteady := h.steady hs hbuild hfits hsane harchive hready
    obtain ⟨batches, hpast⟩ := h
    obtain ⟨offspring, w, next, hmerge, hsettle, hnext, -, -, -, hgenerations, -⟩ :=
      generation_run hs hbuild hfits hsteady
    refine Work.ends_of_run (x := ()) (t := next) ?_
      ⟨⟨_, hpast.generation hmerge hsettle⟩, hnext.ready, rfl, hgenerations⟩
    rw [Work.run_bind hmerge]
    exact hsettle

/-- Telling an observer changes the world at most. -/
theorem stops_ends {observer : Option (Observer σ α)} {generations : Int}
    (hobserver : (Act.run generations observer).Harmless sane) (i : Nat)
    (h : HasPast s sane (start world archive) m) (hready : m.ready = true) :
    (stops observer i).Ends m
      (fun stop t => HasPast s sane (start world archive) t ∧ t.ready = true ∧
        t.generations = m.generations ∧ (observer = none → stop = false))
      fun e t => HasPast s sane (start world archive) t ∧ Act.Raised observer e ∧
        t.generations = m.generations := by
  cases observer with
  | none => exact ⟨h, hready, rfl, fun _ => rfl⟩
  | some f =>
    have hsteady := h.steady hs hbuild hfits hsane harchive hready
    obtain ⟨batches, hpast⟩ := h
    obtain ⟨o, houtcome⟩ := hsteady.outcome_run
    have hasides : ∀ w, sane w ∧ m.world.Extends w →
        HasPast s sane (start world archive) { m with world := w } :=
      fun w hw => ⟨batches, hpast.aside hready hw.2 hw.1⟩
    have htold := (hobserver o i m.world hsteady.sane_world).and (Work.ends_self (f o i) m.world)
    have hstops : (stops (some f) i).run.run m = (outside (f o i)).run.run m :=
      Work.run_bind houtcome _
    rw [Work.ends_congr hstops]
    refine (outside_ends htold).mono ?_ ?_
    · rintro stop _ ⟨w, rfl, hw, -⟩
      exact ⟨hasides w hw, hready, rfl, fun hnone => by cases hnone⟩
    · rintro e _ ⟨w, rfl, hw, hrun⟩
      exact ⟨hasides w hw, ⟨f, rfl, o, i, m.world, w, hrun⟩, rfl⟩

theorem proceed_ends {observer : Option (Observer σ α)} {generations : Int}
    (hobserver : (Act.run generations observer).Harmless sane) (n i : Nat)
    (h : HasPast s sane (start world archive) m) (hready : m.ready = true) :
    (proceed s observer n i).Ends m
      (fun _ t => HasPast s sane (start world archive) t ∧ t.ready = true ∧
        t.generations ≤ m.generations + n ∧ (observer = none → t.generations = m.generations + n))
      fun e t => HasPast s sane (start world archive) t ∧ Act.Raised observer e ∧
        t.generations ≤ m.generations + n := by
  induction n generalizing i m with
  | zero => exact ⟨h, hready, Nat.le_refl _, fun _ => rfl⟩
  | succ n ih =>
    rw [proceed]
    refine ((stops_ends hs hbuild hfits hsane harchive hobserver i h hready).mono
      (fun _ _ h => h) ?_).bind ?_
    · intro e t hraised
      obtain ⟨ht, he, hcount⟩ := hraised
      exact ⟨ht, he, hcount ▸ Nat.le_add_right _ _⟩
    intro stop t hstops
    obtain ⟨ht, hgo, hcount, hnever⟩ := hstops
    cases stop with
    | true =>
      refine ⟨ht, hgo, hcount ▸ Nat.le_add_right _ _, fun hnone => ?_⟩
      cases hnever hnone
    | false =>
      refine ((generation_ends hs hbuild hfits hsane harchive ht).mono (fun _ _ h => h) ?_).bind ?_
      · intro e u hfailed
        exact absurd (hgo.symm.trans hfailed.1) Bool.false_ne_true.symm
      intro _ u hiterate
      obtain ⟨hu, hon, -, hnext⟩ := hiterate
      refine (ih (i + 1) hu hon).mono ?_ ?_
      · intro _ v hv
        obtain ⟨hv, hlast, hle, hall⟩ := hv
        refine ⟨hv, hlast, by omega, fun hnone => ?_⟩
        rw [hall hnone]
        omega
      · intro e v hv
        exact ⟨hv.1, hv.2.1, by omega⟩

theorem run_ends {observer : Option (Observer σ α)} {generations : Int}
    (hobserver : (Act.run generations observer).Harmless sane)
    (h : HasPast s sane (start world archive) m) :
    (run s generations observer).Ends m
      (fun _ t => HasPast s sane (start world archive) t ∧ (Act.run generations observer).Done m t)
      fun e t => HasPast s sane (start world archive) t ∧
        (Act.run generations observer).Failed m e t := by
  rw [run]
  by_cases hnegative : generations < 0
  · rw [if_pos hnegative]
    exact ⟨h, Or.inl ⟨hnegative, rfl, rfl⟩⟩
  rw [if_neg hnegative]
  beta_reduce
  rw [Work.ends_get_bind]
  have hrest : ∀ t, HasPast s sane (start world archive) t → t.ready = true →
      t.generations = m.generations →
      (proceed s observer generations.toNat 0 >>= fun _ => outcome).Ends t
        (fun _ u => HasPast s sane (start world archive) u ∧
          (Act.run generations observer).Done m u)
        fun e u => HasPast s sane (start world archive) u ∧
          (Act.run generations observer).Failed m e u := by
    intro t ht hready hcount
    have hproceed :=
      proceed_ends hs hbuild hfits hsane harchive hobserver generations.toNat 0 ht hready
    rw [hcount] at hproceed
    refine (hproceed.mono (fun _ _ hu => hu) fun e u hu => ⟨hu.1, Or.inr hu.2⟩).bind ?_
    intro _ u hu
    obtain ⟨hu, hon, hle, hall⟩ := hu
    obtain ⟨o, houtcome⟩ := (hu.steady hs hbuild hfits hsane harchive hon).outcome_run
    exact Work.ends_of_run houtcome ⟨hu, not_lt.mp hnegative, hle, hall⟩
  split
  case isTrue hready =>
    refine ((setUp_ends hs hbuild hfits hsane harchive h).mono (fun _ _ ht => ht) ?_).bind
      fun _ t ht => hrest t ht.1 ht.2.1 ht.2.2.2
    intro e t hfailed
    rw [hfailed.1] at hready
    cases hready
  case isFalse hready => exact hrest m h (by simpa using hready) rfl

/-- A call keeps the books, and fails as expected or not at all. -/
theorem perform_ends (act : Act σ α) (hact : act.Harmless sane)
    (h : HasPast s sane (start world archive) m) :
    (act.perform s).Ends m (fun _ t => HasPast s sane (start world archive) t ∧ act.Done m t)
      fun e t => HasPast s sane (start world archive) t ∧ act.Failed m e t := by
  have hsetUp := setUp_ends hs hbuild hfits hsane harchive h
  have hgeneration := generation_ends hs hbuild hfits hsane harchive h
  cases act with
  | setUp =>
    refine hsetUp.mono (fun _ _ ht => ⟨ht.1, ht.2.2⟩) ?_
    rintro e t ⟨hready, rfl, rfl⟩
    exact ⟨h, hready, rfl, rfl⟩
  | iterate =>
    refine hgeneration.mono (fun _ _ ht => ⟨ht.1, ht.2.2⟩) ?_
    rintro e t ⟨hready, rfl, rfl⟩
    exact ⟨h, hready, rfl, rfl⟩
  | step =>
    show (step s).Ends m _ _
    rw [step, Work.ends_get_bind]
    split
    case isTrue hready =>
      refine hgeneration.mono (fun _ t ht => ⟨ht.1, ?_⟩) ?_
      · exact ht.2.2.2.trans (if_pos hready).symm
      · exact fun e t hfailed => absurd (hready.symm.trans hfailed.1) Bool.false_ne_true.symm
    case isFalse hready =>
      refine hsetUp.mono (fun _ t ht => ⟨ht.1, ?_⟩) ?_
      · exact ht.2.2.2.trans (if_neg hready).symm
      · exact fun e t hfailed => absurd hfailed.1 hready
  | run generations observer =>
    exact (run_ends hs hbuild hfits hsane harchive hact h).bind fun _ _ ht => ht

theorem conduct_hasPast (acts : List (Act σ α)) (hacts : ∀ act ∈ acts, act.Harmless sane) :
    HasPast s sane (start world archive) (conduct s acts (start world archive)) := by
  induction acts using List.reverseRecOn with
  | nil => exact ⟨[], .nothing⟩
  | append_singleton earlier act ih =>
    rw [conduct, List.foldl_append]
    have hearlier := ih fun a ha => hacts a (List.mem_append_left _ ha)
    have hact := hacts act (List.mem_append_right _ (List.mem_singleton_self act))
    exact ((perform_ends hs hbuild hfits hsane harchive act hact hearlier).mono
      (fun _ _ h => h.1) fun _ _ h => h.1).state

/-- After any calls a machine is as new, if it was never set up, and otherwise its books
agree: as many members and fitness values as founders, a generation for each batch of
offspring, an evaluation for each founder and each offspring, and the archive that they
give when they are offered one after another as they came.  Offspring that come in
families of `k` are the least multiple of `k` that is enough.  A further call counts the
generations it completes, and fails only out of order, for a negative number, or because
of its observer. -/
theorem conduct_accounts (acts : List (Act σ α)) (hacts : ∀ act ∈ acts, act.Harmless sane) :
    (let m := conduct s acts (start world archive)
    (m.ready = false → m = start world archive) ∧
    (m.ready = true → ∃ founders generations,
      Past s sane (start world archive) (founders :: generations) m ∧
      founders.solutions.length = size ∧
      m.population.length = size ∧
      (∃ fitness, m.tracker.fitness? = .ok fitness ∧ fitness.length = size) ∧
      m.generations = generations.length ∧
      m.evaluations = size + (generations.map fun b => b.solutions.length).sum ∧
      m.archive = archiveOf archive (founders :: generations) ∧
      (∀ b ∈ founders :: generations,
        (∀ r ∈ b.solutions, r.index < b.world.store.size) ∧ b.world.Keeps m.world) ∧
      ∀ (a : Assembly σ α) (k : Nat), a.search = s → 0 < k → a.variation.Brings k →
        ∀ b ∈ generations, b.solutions.length = k * ((size + k - 1) / k)) ∧
    ∀ act : Act σ α, act.Harmless sane →
      (act.perform s).Ends m (fun _ t => act.Done m t) fun e t => act.Failed m e t) := by
  have hconduct := conduct_hasPast hs hbuild hfits hsane harchive acts hacts
  refine ⟨hconduct.eq_start hs hbuild hfits hsane harchive, fun hready => ?_, fun act hact => ?_⟩
  · obtain ⟨batches, hpast⟩ := hconduct
    rcases hpast.account hs hbuild hfits hsane harchive with
      ⟨-, hnew⟩ | ⟨founders, generations, rfl, hsteady, haccount⟩
    · rw [hnew] at hready
      cases hready
    · refine ⟨founders, generations, hpast, haccount.founders_eq, hsteady.length_eq,
        hsteady.tracked, haccount.generations_eq, haccount.evaluations_eq, haccount.archive_eq,
        haccount.kept, ?_⟩
      rintro a k rfl hk hbrings
      exact haccount.counted k hk (Assembly.search_brings hbrings)
  · exact (perform_ends hs hbuild hfits hsane harchive act hact hconduct).mono
      (fun _ _ h => h.2) fun _ _ h => h.2

end

/-! ## Three children to a pair -/

/-- Both founders are at zero, and the one variable there is counts as the objective. -/
noncomputable def triplets : Assembly Unit ℝ :=
  let problem : FunctionProblem ℝ :=
    ⟨fun x => .ok (.scalar (x.entries.headD 0)), none, 1, 1, 0, "identity"⟩
  { problem := ⟨problem, false⟩
    initialization := ⟨problem, 2, Work.lift (.ok (.vector [0])), []⟩
    variation := ⟨some fun x y => return [x, y, x], fun x => return x⟩
    scheme := ⟨Scheme.epsilonMatrix, 1, false⟩
    selection := none
    dice := ⟨fun n _ => (List.replicate n 0, ())⟩ }

theorem triplets_sound : triplets.Sound ⟨1, 1, 0⟩ where
  problem_sound :=
    ⟨fun x _ => ⟨.scalar (x.entries.headD 0), rfl, rfl, rfl⟩, fun rule h => by cases h⟩
  initialization_sound :=
    { newSolution_ok := ⟨_, rfl, ⟨rfl, rfl⟩, rfl, rfl⟩
      variableCount_eq := rfl
      sampler_ends := fun _ => show (Tensor.vector [(0 : ℝ)]).IsVector 1 from ⟨rfl, rfl⟩
      injected_le := Nat.zero_le 2 }
  variation_sound := by
    constructor
    · intro cross h x y s hx hy
      cases h
      refine Work.ends_pure.mpr ⟨List.cons_ne_nil _ _, ?_⟩
      simp [hx, hy]
    · exact fun x s hx => hx
  dice_lands := by
    intro bound n s hbound
    refine ⟨List.length_replicate, fun u hu => ?_⟩
    rw [List.eq_of_mem_replicate hu, zero_mul]
    simpa [Scalar.floor] using hbound
  rounds_pos := Nat.two_pos
  compare_ok := fun x y _ _ hx hy => compareFitness_ok hx hy true

theorem triplets_brings : triplets.variation.Brings 3 := fun _ _ _ => rfl

theorem triplets_build : SchemeKind.epsilon.build (⟨.given 1, .given false, .leftOut, .leftOut⟩ :
    SchemeArguments ℝ) = .ok triplets.search.scheme := SchemeKind.epsilon_build (by norm_num) false

theorem triplets_fits : SchemeKind.epsilon.Fits
    (⟨.given 1, .given false, .leftOut, .leftOut⟩ : SchemeArguments ℝ) 1 := by
  simp [SchemeKind.Fits]

theorem triplets_sane : triplets.Sane ⟨1, 1, 0⟩ (.start ()) :=
  ⟨⟨rfl, fun _ hr => absurd hr (Nat.not_lt_zero _)⟩, fun _ hr => absurd hr List.not_mem_nil⟩

/-- A call out of order, the founders and one generation. -/
noncomputable def trial : Machine Unit ℝ :=
  conduct triplets.search [.iterate, .setUp, .iterate] (start (.start ()) (some (.empty .standard)))

theorem conduct_accounts_triplets : trial.ready = true ∧ trial.population.length = 2 ∧
    trial.generations = 1 ∧ trial.evaluations = 5 := by
  have hreliable := Assembly.search_reliable triplets_sound
  have hbuild := triplets_build
  have hfits := triplets_fits
  have hsane := triplets_sane
  have harchive := admitting_empty (triplets.Sane ⟨1, 1, 0⟩) 1 (.start ())
  have hacts : ∀ act ∈ ([.iterate, .setUp, .iterate] : List (Act Unit ℝ)),
      act.Harmless (triplets.Sane ⟨1, 1, 0⟩) := by
    simp [Act.Harmless]
  obtain ⟨hpast, hgo, -, hnone⟩ := Work.Ends.state <|
    (setUp_ends hreliable hbuild hfits hsane harchive ⟨[], .nothing⟩).mono (fun _ _ h => h)
      fun e t h => absurd h.1 Bool.false_ne_true
  obtain ⟨-, hready, -, hnext⟩ := Work.Ends.state <|
    (generation_ends hreliable hbuild hfits hsane harchive hpast).mono (fun _ _ h => h)
      fun e t h => absurd (hgo.symm.trans h.1) Bool.false_ne_true.symm
  have hone : trial.generations = 1 := hnext.trans (congrArg (· + 1) hnone)
  obtain ⟨-, haccounts, -⟩ := conduct_accounts hreliable hbuild hfits hsane harchive
    [.iterate, .setUp, .iterate] hacts
  obtain ⟨founders, generations, -, -, hlength, -, hgenerations, hevaluations, -, -, hfamilies⟩ :=
    haccounts hready
  refine ⟨hready, hlength, hone, ?_⟩
  have hthree : ∀ b ∈ generations, b.solutions.length = 3 :=
    hfamilies triplets 3 rfl (Nat.succ_pos 2) triplets_brings
  calc trial.evaluations = 2 + (generations.map fun b => b.solutions.length).sum := hevaluations
    _ = 2 + (generations.map fun _ => 3).sum := by rw [List.map_congr_left hthree]
    _ = 2 + 3 * generations.length := by rw [List.map_const', List.sum_replicate_nat, mul_comm]
    _ = 2 + 3 * trial.generations := congrArg (2 + 3 * ·) hgenerations.symm
    _ = 5 := by rw [hone]

end Machine
end ParetoSearch
