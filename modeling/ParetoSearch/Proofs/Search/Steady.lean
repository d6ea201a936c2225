import ParetoSearch.Proofs.Archive.Feasible
import ParetoSearch.Proofs.Search.Frame

/-!
# Searches that cannot fail

If the collaborators of a search never fail, bring what they promise and keep to one
number of objectives, then nothing else of a generation fails either: as many families
as members are enough to breed, what is measured fits the scheme, and every removal
finds the tracker in step with the population (`Machine.generation_run`).  One
generation leaves the machine as it found it in all that the next one needs
(`Machine.Steady`).
-/

namespace ParetoSearch

variable {σ α : Type}

namespace World

/-- A solution of the store with so many objectives. -/
structure Holds (w : World σ α) (width : Nat) (r : Ref) : Prop where
  stored : r.index < w.store.size
  length_eq : (w.look r).objectives.length = width

variable {w w' : World σ α} {width : Nat} {r : Ref}

theorem Keeps.holds (h : w.Keeps w') (hr : w.Holds width r) : w'.Holds width r := by
  refine ⟨Nat.lt_of_lt_of_le hr.stored h.size_le, ?_⟩
  rw [(h.same r hr.stored).objectives_eq]
  exact hr.length_eq

theorem ExtendsBut.holds {changed : List Ref} (h : w.ExtendsBut changed w')
    (hchanged : ∀ q ∈ changed, w'.Holds width q) (hr : w.Holds width r) : w'.Holds width r := by
  by_cases hmem : r ∈ changed
  · exact hchanged r hmem
  · refine ⟨Nat.lt_of_lt_of_le hr.stored h.size_le, ?_⟩
    rw [h.look_eq r hr.stored hmem]
    exact hr.length_eq

end World

variable [Scalar α]

/-- A search whose parts never fail in worlds of some kind, and never leave them.  It
starts from `size` solutions, each family brings one new solution at least, and all that
it measures ends up with so many objectives. -/
structure Search.Reliable (s : Search σ α) (sane : World σ α → Prop) (size width : Nat) :
    Prop where
  sane_annotated : ∀ {w w'}, sane w → w.Annotated w' → sane w'
  founders_ends : ∀ w, sane w → s.founders.Ends w
    (fun founders w' => sane w' ∧ w.Extends w' ∧ founders.length = size ∧
      ∀ r ∈ founders, r.index < w'.store.size ∧
        ((w'.look r).evaluated = true → w'.Holds width r))
    fun _ _ => False
  family_ends : ∀ population w, sane w → population.length = size → population ≠ [] →
    (∀ r ∈ population, w.Holds width r ∧ ((w.look r).fitness?).isSome) →
    (Machine.family s population).Ends w
      (fun children w' => sane w' ∧ w.Extends w' ∧ children ≠ [] ∧ w.New w' children)
      fun _ _ => False
  measure_ends : ∀ solutions w, sane w → (∀ r ∈ solutions, r.index < w.store.size) →
    (s.measure solutions).Ends w
      (fun _ w' => sane w' ∧ w.ExtendsBut solutions w' ∧ ∀ r ∈ solutions, w'.Holds width r)
      fun _ _ => False

/-- Among solutions with so many objectives no offer fails. -/
def Policy.Admits (p : Policy α) (sane : World σ α → Prop) (width : Nat) : Prop :=
  ∀ (w : World σ α) (members solutions : List Ref), sane w →
    (∀ r ∈ members, w.Holds width r) → (∀ r ∈ solutions, w.Holds width r) →
      ∃ added, ((⟨p, members⟩ : Container Ref α).addAll w.look solutions).2 = .ok added

/-- The policies on offer ask for no more. -/
theorem Policy.ViolationFirst.admits {p : Policy α} (hp : p.ViolationFirst (Tensor α))
    (sane : World σ α → Prop) (width : Nat) : p.Admits sane width := by
  intro w members solutions hw hmembers hsolutions
  induction solutions generalizing members with
  | nil => exact ⟨false, rfl⟩
  | cons r rest ih =>
    rw [List.forall_mem_cons] at hsolutions
    obtain ⟨⟨policy, left⟩, added, hadd⟩ := hp.add_ok (c := ⟨p, members⟩) rfl
      (fun q hq => (hmembers q hq).length_eq) hsolutions.1.length_eq
    obtain rfl : policy = p := Container.policy_of_add hadd
    have hleft : ∀ q ∈ left, w.Holds width q := by
      intro q hq
      rcases Container.mem_of_add hadd hq with hold | rfl
      · exact hmembers q hold
      · exact hsolutions.1
    obtain ⟨more, hmore⟩ := ih left hleft hsolutions.2
    refine ⟨added || more, ?_⟩
    rw [Container.addAll, hadd]
    change ((⟨policy, left⟩ : Container Ref α).addAll w.look rest).2.map (added || ·) = _
    rw [hmore]
    rfl

namespace Machine

/-- An archive, if one is kept, that takes solutions with so many objectives and has no
other. -/
def Admitting (sane : World σ α → Prop) (width : Nat) (w : World σ α)
    (archive : Option (Container Ref α)) : Prop :=
  ∀ a, archive = some a → a.policy.Admits sane width ∧ ∀ r ∈ a.members, w.Holds width r

section

variable {sane : World σ α → Prop} {width : Nat} {w w' : World σ α}
  {archive : Option (Container Ref α)}

theorem Admitting.of_holds (h : Admitting sane width w archive)
    (hholds : ∀ r, w.Holds width r → w'.Holds width r) : Admitting sane width w' archive :=
  fun a ha => ⟨(h a ha).1, fun r hr => hholds r ((h a ha).2 r hr)⟩

theorem Admitting.enrolled (h : Admitting sane width w archive) {solutions : List Ref}
    (hsolutions : ∀ r ∈ solutions, w.Holds width r) :
    Admitting sane width w (enrolled archive w solutions) := by
  intro a ha
  obtain ⟨kept, hkept, rfl⟩ := Option.map_eq_some_iff.mp ha
  obtain ⟨hadmits, hmembers⟩ := h kept hkept
  refine ⟨?_, fun r hr => ?_⟩
  · rw [Container.policy_of_addAll]
    exact hadmits
  · rcases Container.mem_of_addAll hr with hold | hnew
    · exact hmembers r hold
    · exact hsolutions r hnew

theorem admitting_empty (sane : World σ α → Prop) (width : Nat) (w : World σ α) :
    Admitting sane width w (some (.empty .standard)) := by
  intro a ha
  cases ha
  exact ⟨Policy.ViolationFirst.standard.admits _ _, fun r hr => absurd hr List.not_mem_nil⟩

theorem Admitting.not_refused (sane : World σ α → Prop) (width : Nat) {m t : Machine σ α}
    {e : Fault α} {G : List Ref → World σ α → Prop} (hrefused : m.Refused G (fun _ _ => False) e t)
    (h : ∀ solutions, G solutions t.world → sane t.world ∧
      Admitting sane width t.world m.archive ∧ ∀ r ∈ solutions, t.world.Holds width r) : False := by
  rcases hrefused with ⟨hfalse, -⟩ | ⟨solutions, a, hG, ha, hadd, -⟩
  · exact hfalse
  · obtain ⟨hsane, harchive, hsolutions⟩ := h solutions hG
    obtain ⟨hadmits, hmembers⟩ := harchive a ha
    obtain ⟨added, hadded⟩ := hadmits t.world a.members solutions hsane hmembers hsolutions
    rw [hadd] at hadded
    cases hadded

end

/-- A machine that can go on for ever. -/
structure Steady (sane : World σ α → Prop) (size width : Nat) (m : Machine σ α) : Prop where
  ready : m.ready = true
  sane_world : sane m.world
  length_eq : m.population.length = size
  members : ∀ r ∈ m.population, m.world.Holds width r ∧ ((m.world.look r).fitness?).isSome
  tracked : ∃ fitness, m.tracker.fitness? = .ok fitness ∧ fitness.length = size
  archived : Admitting sane width m.world m.archive

variable {s : Search σ α} {sane : World σ α → Prop} {size width : Nat} {m : Machine σ α}

/-- Setting up brings measured founders. -/
theorem found_reliable (hs : s.Reliable sane size width) (hready : m.ready = false)
    (hsane : sane m.world) (harchive : Admitting sane width m.world m.archive) :
    (found s).Ends m
      (fun founders t => ∃ world, (sane world ∧ m.world.ExtendsBut founders world ∧
        founders.length = size ∧ ∀ r ∈ founders, world.Holds width r) ∧
        t = m.joined world founders)
      fun _ _ => False := by
  refine (found_ends hready (hs.founders_ends m.world hsane) ?_).mono (fun _ _ h => h) ?_
  · rintro founders w ⟨hw, hext, hlength, hfounders⟩
    have hstored : ∀ r ∈ founders.filter fun r => !(w.look r).evaluated,
        r.index < w.store.size := fun r hr => (hfounders r (List.mem_filter.mp hr).1).1
    refine (hs.measure_ends _ w hw hstored).mono ?_ fun _ _ h => h
    rintro ⟨⟩ w' ⟨hw', hmeasured, hpending⟩
    refine ⟨hw', ?_, hlength, fun r hr => ?_⟩
    · exact (hext.mono fun r hr => absurd hr List.not_mem_nil).trans
        (hmeasured.mono fun r hr => (List.mem_filter.mp hr).1)
    · by_cases hevaluated : (w.look r).evaluated = true
      · exact hmeasured.holds hpending ((hfounders r hr).2 hevaluated)
      · exact hpending r (List.mem_filter.mpr ⟨hr, by simpa using hevaluated⟩)
  · rintro e t ⟨-, hrefused⟩
    refine Admitting.not_refused sane width hrefused ?_
    rintro founders ⟨hw, hext, -, hfounders⟩
    exact ⟨hw, harchive.of_holds fun r hr => hext.holds hfounders hr, hfounders⟩

/-- Every family brings a child, so breeding comes to an end. -/
theorem merge_reliable (hs : s.Reliable sane size width) (h : m.Steady sane size width) :
    (merge s).Ends m
      (fun offspring t => ∃ world, (sane world ∧ m.world.Extends world ∧
        ∀ r ∈ offspring, world.Holds width r) ∧ t = m.joined world offspring)
      fun _ _ => False := by
  let P : List Ref → World σ α → Prop := fun offspring w =>
    sane w ∧ m.world.Extends w ∧ m.world.New w offspring
  have hstart : P [] m.world := ⟨h.sane_world, .refl _, .nil _ _⟩
  have hfamily : ∀ offspring w, P offspring w → offspring.length < m.population.length →
      (family s m.population).Ends w
        (fun children w' => children ≠ [] ∧ P (offspring ++ children) w') fun _ _ => False := by
    rintro offspring w ⟨hw, hext, hnew⟩ hshort
    have hne : m.population ≠ [] := List.ne_nil_of_length_pos (Nat.zero_lt_of_lt hshort)
    have hmembers : ∀ r ∈ m.population, w.Holds width r ∧ ((w.look r).fitness?).isSome := by
      intro r hr
      obtain ⟨hholds, hrated⟩ := h.members r hr
      refine ⟨hext.keeps.holds hholds, ?_⟩
      rw [hext.look_eq hholds.stored]
      exact hrated
    refine (hs.family_ends m.population w hw h.length_eq hne hmembers).mono ?_ fun _ _ h => h
    rintro children w' ⟨hw', hgrows, hsome, hchildren⟩
    exact ⟨hsome, hw', hext.trans hgrows, hnew.append hext.size_le hgrows.size_le hchildren⟩
  have hmerge := merge_ends (F := fun _ _ => False) (s := s) (P := P)
    (G := fun offspring w => sane w ∧ m.world.Extends w ∧ ∀ r ∈ offspring, w.Holds width r)
    h.ready hstart
    (fun offspring w hP hshort => (hfamily offspring w hP hshort).mono (fun _ _ h => h.2)
      fun _ _ h => h)
    (fun hendless => families_ne_none hfamily rfl hstart hendless) ?_
  · refine hmerge.mono (fun _ _ h => h) ?_
    rintro e t ⟨-, hrefused⟩
    refine Admitting.not_refused sane width hrefused ?_
    rintro offspring ⟨hw, hext, hoffspring⟩
    exact ⟨hw, h.archived.of_holds fun r hr => hext.keeps.holds hr, hoffspring⟩
  · rintro offspring w ⟨hw, hext, hnew⟩ -
    refine (hs.measure_ends offspring w hw hnew.stored).mono ?_ fun _ _ h => h
    rintro ⟨⟩ w' ⟨hw', hmeasured, hoffspring⟩
    exact ⟨hw', hext.trans_but hmeasured hnew.new, hoffspring⟩

/-! ## Runs that succeed -/

section

variable {kind : SchemeKind} {arguments : SchemeArguments α}

theorem Steady.of_refits (hs : s.Reliable sane size width) {t : Machine σ α}
    (hready : t.ready = true) (hworld : sane m.world)
    (hmembers : ∀ r ∈ m.population, m.world.Holds width r)
    (harchive : Admitting sane width m.world m.archive) (hrefits : m.Refits t)
    (hwritten : t.Written) (hlength : t.population.length = size) :
    t.Steady sane size width := by
  have hstored : t.Stored := hrefits.stored fun r hr => (hmembers r hr).stored
  have hkeeps : ∀ r, m.world.Holds width r → t.world.Holds width r :=
    fun r hr => hrefits.annotated.keeps.holds hr
  refine ⟨hready, hs.sane_annotated hworld hrefits.annotated, hlength, fun r hr => ?_, ?_, ?_⟩
  · exact ⟨hkeeps r (hmembers r (hrefits.sublist.subset hr)), hwritten.rated hstored r hr⟩
  · obtain ⟨a, -, ha, hsquare, -⟩ := hwritten
    exact ⟨a.fitness, by rw [Tracker.fitness?, ha], hsquare.length_fitness.trans hlength⟩
  · rw [hrefits.archive_eq]
    exact harchive.of_holds hkeeps

/-- Setting up from scratch. -/
theorem setUp_reliable (hs : s.Reliable sane size width)
    (hbuild : kind.build arguments = .ok s.scheme) (hfits : kind.Fits arguments width)
    (hready : m.ready = false) (hempty : m.population = []) (hsane : sane m.world)
    (harchive : Admitting sane width m.world m.archive) :
    ∃ founders world next,
      (found s).run.run m = (.ok founders, m.joined world founders) ∧
      (launch s).run.run (m.joined world founders) = (.ok (), next) ∧
      next.Steady sane size width ∧ founders.length = size ∧
      (∀ r ∈ founders, world.Holds width r) ∧ world.Keeps next.world ∧
      next.generations = m.generations ∧ next.evaluations = m.evaluations + founders.length ∧
      next.archive = enrolled m.archive world founders := by
  obtain ⟨founders, _, hfound, world, ⟨hworld, hext, hlength, hfounders⟩, rfl⟩ :=
    (found_reliable hs hready hsane harchive).run fun _ _ h => h
  have hpopulation : (m.joined world founders).population = founders := by
    change m.population ++ founders = founders
    rw [hempty, List.nil_append]
  have hwidth : ∀ r ∈ (m.joined world founders).population, world.Holds width r := by
    rw [hpopulation]
    exact hfounders
  obtain ⟨p, hevaluate⟩ := m.tracker.evaluate_total hbuild hfits
    fun r hr => (hwidth r hr).length_eq
  have hlaunch := launch_ends (m := m.joined world founders) (SchemeKind.square hbuild)
  obtain ⟨⟨⟩, _, hrun, u, rfl, hrefits, hsame, hwritten⟩ := hlaunch.run fun e t hfault => by
    cases hfault.2.symm.trans hevaluate
  have hadmits : Admitting sane width world (enrolled m.archive world founders) :=
    (harchive.of_holds fun r hr => hext.holds hfounders hr).enrolled hfounders
  have hsteady : ({ u with ready := true } : Machine σ α).Steady sane size width := by
    refine Steady.of_refits hs (m := { m.joined world founders with ready := true }) rfl hworld
      hwidth hadmits ⟨hrefits.annotated, hrefits.sublist, hrefits.archive_eq,
        hrefits.evaluations_eq, hrefits.generations_eq, rfl⟩ hwritten ?_
    rw [← hlength, ← hpopulation]
    exact congrArg List.length hsame
  exact ⟨founders, world, _, hfound, hrun, hsteady, hlength, hfounders, hrefits.annotated.keeps,
    hrefits.generations_eq, hrefits.evaluations_eq, hrefits.archive_eq⟩

/-- One generation. -/
theorem generation_run (hs : s.Reliable sane size width)
    (hbuild : kind.build arguments = .ok s.scheme) (hfits : kind.Fits arguments width)
    (h : m.Steady sane size width) :
    ∃ offspring world next,
      (merge s).run.run m = (.ok offspring, m.joined world offspring) ∧
      (settle s m.population.length).run.run (m.joined world offspring) = (.ok (), next) ∧
      next.Steady sane size width ∧ m.world.Extends world ∧
      (∀ r ∈ offspring, world.Holds width r) ∧ world.Keeps next.world ∧
      next.generations = m.generations + 1 ∧
      next.evaluations = m.evaluations + offspring.length ∧
      next.archive = enrolled m.archive world offspring := by
  obtain ⟨offspring, _, hmerge, world, ⟨hworld, hext, hoffspring⟩, rfl⟩ :=
    (merge_reliable hs h).run fun _ _ h => h
  have hmembers : ∀ r ∈ (m.joined world offspring).population, world.Holds width r := by
    intro r hr
    rcases List.mem_append.mp hr with hold | hnew
    · exact hext.keeps.holds (h.members r hold).1
    · exact hoffspring r hnew
  obtain ⟨p, hevaluate⟩ := m.tracker.evaluate_total hbuild hfits
    fun r hr => (hmembers r hr).length_eq
  have hsize : m.population.length ≤ (m.joined world offspring).population.length := by
    change m.population.length ≤ (m.population ++ offspring).length
    rw [List.length_append]
    exact Nat.le_add_right _ _
  have hsettle := settle_ends (m := m.joined world offspring) (SchemeKind.square hbuild)
    (fun r hr => (hmembers r hr).stored) hsize
  obtain ⟨⟨⟩, _, hrun, u, rfl, hrefits, hwritten, hlength⟩ := hsettle.run fun e t hfault => by
    cases hfault.2.symm.trans hevaluate
  have hadmits : Admitting sane width world (enrolled m.archive world offspring) :=
    (h.archived.of_holds fun r hr => hext.keeps.holds hr).enrolled hoffspring
  have hsteady : u.Steady sane size width :=
    .of_refits hs (hrefits.ready_eq.trans h.ready) hworld hmembers hadmits hrefits hwritten
      (hlength.trans h.length_eq)
  obtain ⟨hready, hsane, hcount, hrated, htracked, harchived⟩ := hsteady
  exact ⟨offspring, world, _, hmerge, hrun, ⟨hready, hsane, hcount, hrated, htracked, harchived⟩,
    hext, hoffspring, hrefits.annotated.keeps, congrArg (· + 1) hrefits.generations_eq,
    hrefits.evaluations_eq, hrefits.archive_eq⟩

end

end Machine
end ParetoSearch
