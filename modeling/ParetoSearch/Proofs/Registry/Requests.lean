import ParetoSearch.Proofs.Arithmetic.Exact
import ParetoSearch.Proofs.Registry.Completion
import ParetoSearch.Proofs.Work
import ParetoSearch.Registry.Indicators

/-!
# Requests for several indicators

A request is checked as a whole: every name must stand for an indicator, and where one of
these needs a reference set there must be one.  A request that fails this calls no factory,
and every other one does before it can fail (`IndicatorRegistry.compute_checked`).  What it
answers is put together from answers to single names, which are those to full names.
-/

namespace ParetoSearch
namespace IndicatorRegistry

open Registry

variable {X α ι : Type} {measure : ι → PointSet X α → Except (Fault α) (Quality α)}
  {r : Table X α ι} {calls : List (String × IndicatorEntry X α ι)} {name : String}
  {names : List String} {set : PointSet X α} {reference : Option (PointSet X α)}
  {q q' : Request X α ι} {qs : List (Request X α ι)}

theorem exists_of_forall₂ {β γ : Type} {R : β → γ → Prop} {xs : List β} {ys : List γ}
    (h : List.Forall₂ R xs ys) {y : γ} (hy : y ∈ ys) : ∃ x ∈ xs, R x y := by
  induction h with
  | nil => cases hy
  | cons hfirst _ ih =>
    rcases List.mem_cons.mp hy with rfl | hy
    · exact ⟨_, List.mem_cons_self, hfirst⟩
    · obtain ⟨x, hx, hxy⟩ := ih hy
      exact ⟨x, List.mem_cons_of_mem _ hx, hxy⟩

theorem map_eq_of_forall₂ {β γ δ : Type} {R : β → γ → Prop} {xs : List β} {ys : List γ}
    {f : β → δ} {g : γ → δ} (h : List.Forall₂ R xs ys) (hR : ∀ x y, R x y → g y = f x) :
    ys.map g = xs.map f := by
  induction h with
  | nil => rfl
  | cons hfirst _ ih => rw [List.map_cons, List.map_cons, hR _ _ hfirst, ih]

/-! ## The check -/

def request (r : Table X α ι) (name : String) : Except (Fault α) (Request X α ι) := do
  let (full, entry) ← r.complete .indicator name
  return ⟨name, full, entry⟩

/-- What a name asks for: what was last registered under the name it stands for. -/
structure Resolves (calls : List (String × IndicatorEntry X α ι)) (name : String)
    (q : Request X α ι) : Prop where
  given_eq : q.given = name
  stands : Stands (calls.map Prod.fst) name q.full
  last_eq : last? calls q.full = some q.entry

theorem request_ok_iff : request (ofCalls calls) name = .ok q ↔ Resolves calls name q := by
  constructor
  · intro h
    obtain ⟨⟨full, entry⟩, hcomplete, h⟩ := of_bind_ok h
    cases h
    obtain ⟨hstands, hlast⟩ := (complete_ofCalls calls).mp hcomplete
    exact ⟨rfl, hstands, hlast⟩
  · rintro ⟨rfl, hstands, hlast⟩
    rw [request, (complete_ofCalls calls).mpr ⟨hstands, hlast⟩]
    rfl

theorem request_error {e : Fault α} (h : request r name = .error e) :
    e.category = .configuration := by
  rw [request] at h
  cases hcomplete : (r.complete .indicator name : Except (Fault α) _) with
  | error e' =>
    rw [hcomplete] at h
    cases h
    exact complete_error hcomplete
  | ok p =>
    rw [hcomplete] at h
    cases h

theorem Resolves.unique (h : Resolves calls name q) (h' : Resolves calls name q') : q' = q := by
  have heq := (request_ok_iff.mpr h).symm.trans (request_ok_iff.mpr h')
  cases heq
  rfl

/-- The requests, if there is a reference set for all that need one. -/
def check (r : Table X α ι) (names : List String) (reference : Option (PointSet X α)) :
    Except (Fault α) (List (Request X α ι)) := do
  let qs ← requests r names
  let missing := (qs.filter fun q => q.entry.needsReference).map Request.full
  if !missing.isEmpty && reference.isNone then
    .error (.referencesMissing (sortNames missing.eraseDups))
  else return qs

theorem missing_iff (qs : List (Request X α ι)) (reference : Option (PointSet X α)) :
    (!((qs.filter fun q => q.entry.needsReference).map Request.full).isEmpty &&
      reference.isNone) = true ↔
      reference = none ∧ ∃ q ∈ qs, q.entry.needsReference = true := by
  rw [Bool.and_eq_true, Option.isNone_iff_eq_none, and_comm, Bool.not_eq_true',
    List.isEmpty_eq_false_iff_exists_mem]
  refine and_congr_right' ⟨?_, ?_⟩
  · rintro ⟨full, hfull⟩
    obtain ⟨q, hq, -⟩ := List.mem_map.mp hfull
    exact ⟨q, List.mem_filter.mp hq⟩
  · rintro ⟨q, hq⟩
    exact ⟨q.full, List.mem_map_of_mem (List.mem_filter.mpr hq)⟩

theorem requests_ok_iff : requests (ofCalls calls) names = .ok qs ↔
    List.Forall₂ (Resolves calls) names.eraseDups qs := by
  refine (mapM_ok_iff (f := request (ofCalls calls))).trans ?_
  simp only [request_ok_iff]

theorem check_ok_iff : check (ofCalls calls) names reference = .ok qs ↔
    List.Forall₂ (Resolves calls) names.eraseDups qs ∧
      (reference = none → ∀ q ∈ qs, q.entry.needsReference = false) := by
  rw [← requests_ok_iff, check]
  constructor
  · intro h
    obtain ⟨qs', hqs, h⟩ := of_bind_ok h
    dsimp only at h
    split at h
    case isTrue => cases h
    case isFalse hmissing =>
      cases h
      refine ⟨hqs, fun hnone q hq => Bool.eq_false_iff.mpr fun hneeds => hmissing ?_⟩
      exact (missing_iff _ _).mpr ⟨hnone, q, hq, hneeds⟩
  · rintro ⟨hqs, hneeds⟩
    rw [hqs, ok_bind]
    refine if_neg fun hmissing => ?_
    obtain ⟨hnone, q, hq, hneed⟩ := (missing_iff _ _).mp hmissing
    rw [hneeds hnone q hq] at hneed
    cases hneed

theorem check_error {e : Fault α} (h : check r names reference = .error e) :
    e.category = .configuration := by
  rw [check] at h
  cases hrequests : requests r names with
  | error e' =>
    rw [hrequests] at h
    cases h
    obtain ⟨name, -, hname⟩ := of_mapM_error hrequests
    exact request_error hname
  | ok qs =>
    rw [hrequests, ok_bind] at h
    dsimp only at h
    split at h
    case isTrue => cases h; rfl
    case isFalse => cases h

/-- What a request is turned down for: a name that stands for nothing, or no reference set
where one is needed. -/
def Rejected (calls : List (String × IndicatorEntry X α ι)) (names : List String)
    (reference : Option (PointSet X α)) : Prop :=
  (∃ name ∈ names, ∀ full, ¬ Stands (calls.map Prod.fst) name full) ∨
    (reference = none ∧ ∃ name ∈ names, ∃ full entry, Stands (calls.map Prod.fst) name full ∧
      last? calls full = some entry ∧ entry.needsReference = true)

theorem not_rejected_iff :
    ¬ Rejected calls names reference ↔ ∃ qs, check (ofCalls calls) names reference = .ok qs := by
  constructor
  · intro hfit
    cases hrequests : requests (ofCalls calls) names with
    | error e =>
      obtain ⟨name, hname, herror⟩ := of_mapM_error (f := request (ofCalls calls)) hrequests
      refine absurd (Or.inl ⟨name, List.mem_eraseDups.mp hname, fun full hstands => ?_⟩) hfit
      obtain ⟨entry, hlast⟩ := hstands.last
      have hresolves : Resolves calls name ⟨name, full, entry⟩ := ⟨rfl, hstands, hlast⟩
      rw [request_ok_iff.mpr hresolves] at herror
      cases herror
    | ok qs =>
      have hall := requests_ok_iff.mp hrequests
      refine ⟨qs, check_ok_iff.mpr ⟨hall, fun hnone q hq => ?_⟩⟩
      obtain ⟨name, hname, hresolves⟩ := exists_of_forall₂ hall hq
      refine Bool.eq_false_iff.mpr fun hneeds => hfit (Or.inr ⟨hnone, name, ?_, ?_⟩)
      · exact List.mem_eraseDups.mp hname
      · exact ⟨q.full, q.entry, hresolves.stands, hresolves.last_eq, hneeds⟩
  · rintro ⟨qs, hcheck⟩
    obtain ⟨hall, hneeds⟩ := check_ok_iff.mp hcheck
    have hresolved : ∀ name ∈ names, ∃ q ∈ qs, Resolves calls name q := fun name hname =>
      exists_of_forall₂ hall.flip (List.mem_eraseDups.mpr hname)
    rintro (⟨name, hname, hnothing⟩ | ⟨hnone, name, hname, full, entry, hstands, hlast, hneed⟩)
    · obtain ⟨q, -, hresolves⟩ := hresolved name hname
      exact hnothing q.full hresolves.stands
    · obtain ⟨q, hq, hresolves⟩ := hresolved name hname
      have hq' : (⟨name, full, entry⟩ : Request X α ι) = q := hresolves.unique ⟨rfl, hstands, hlast⟩
      have hentry := hneeds hnone q hq
      rw [← hq'] at hentry
      rw [hneed] at hentry
      cases hentry

/-! ## Runs that note which factories they call -/

/-- The answer to one request. -/
def Request.answer (measure : ι → PointSet X α → Except (Fault α) (Quality α))
    (set : PointSet X α) (reference : Option (PointSet X α)) (q : Request X α ι) :
    Except (Fault α) (String × Quality α) := do
  return (q.given, ← measure (← q.build reference) set)

/-- The same, with a note of the name under which the factory stands that is called. -/
def Request.answerNoted (measure : ι → PointSet X α → Except (Fault α) (Quality α))
    (set : PointSet X α) (reference : Option (PointSet X α)) (q : Request X α ι) :
    Work (List String) α (String × Quality α) := do
  modify fun called => called ++ [q.full]
  let i ← Work.lift (q.build reference)
  return (q.given, ← Work.lift (measure i set))

def computeNoted (measure : ι → PointSet X α → Except (Fault α) (Quality α)) (r : Table X α ι)
    (set : PointSet X α) (names : List String) (reference : Option (PointSet X α)) :
    Work (List String) α (List (String × Quality α)) := do
  let qs ← Work.lift (check r names reference)
  qs.mapM (Request.answerNoted measure set reference)

theorem compute_eq_check (r : Table X α ι) (names : List String) :
    compute measure r set names reference =
      check r names reference >>= fun qs => qs.mapM (Request.answer measure set reference) := by
  rw [compute, check]
  cases requests r names with
  | error e => rfl
  | ok qs =>
    rw [ok_bind, ok_bind]
    dsimp only
    split <;> rfl

section

variable (measure) (set) (reference)

theorem answerNoted_run (q : Request X α ι) (called : List String) :
    (q.answerNoted measure set reference).run.run called =
      (q.answer measure set reference, called ++ [q.full]) := by
  have hcalled : (modify fun called => called ++ [q.full] : Work (List String) α PUnit).run.run
      called = (.ok ⟨⟩, called ++ [q.full]) := rfl
  rw [Request.answerNoted, Request.answer, Work.run_bind hcalled]
  cases q.build reference with
  | error e => rfl
  | ok i =>
    rw [Work.run_bind (Work.run_lift rfl _), ok_bind]
    cases measure i set with
    | error e => rfl
    | ok value => rfl

/-- Unless there is nothing to answer, a factory is called. -/
theorem mapM_answerNoted (qs : List (Request X α ι)) (called : List String) :
    ∃ more, (qs.mapM (Request.answerNoted measure set reference)).run.run called =
      (qs.mapM (Request.answer measure set reference), called ++ more) ∧
        (more = [] → qs = []) := by
  induction qs generalizing called with
  | nil => exact ⟨[], by rw [List.append_nil]; rfl, fun _ => rfl⟩
  | cons q rest ih =>
    rw [List.mapM_cons, List.mapM_cons]
    have hfirst := answerNoted_run measure set reference q called
    cases hanswer : q.answer measure set reference with
    | error e =>
      rw [hanswer] at hfirst
      exact ⟨[q.full], Work.run_bind_fault hfirst _, nofun⟩
    | ok p =>
      rw [hanswer] at hfirst
      obtain ⟨more, hmore, -⟩ := ih (called ++ [q.full])
      refine ⟨q.full :: more, ?_, nofun⟩
      rw [Work.run_bind hfirst, ok_bind]
      cases hrest : rest.mapM (Request.answer measure set reference) with
      | error e =>
        rw [hrest, List.append_assoc] at hmore
        exact Work.run_bind_fault hmore _
      | ok ps =>
        rw [hrest, List.append_assoc] at hmore
        exact Work.run_bind hmore _

end

theorem computeNoted_answer (r : Table X α ι) (names : List String) (called : List String) :
    ((computeNoted measure r set names reference).run.run called).1 =
      compute measure r set names reference := by
  rw [compute_eq_check, computeNoted]
  cases check r names reference with
  | error e => rfl
  | ok qs =>
    obtain ⟨more, hmore, -⟩ := mapM_answerNoted measure set reference qs called
    rw [Work.run_bind (Work.run_lift rfl _), hmore, ok_bind]

/-- A request that is turned down calls no factory, and every other one calls one before
it fails. -/
theorem computeNoted_rejects (calls : List (String × IndicatorEntry X α ι))
    (names : List String) :
    (∃ e, (computeNoted measure (ofCalls calls) set names reference).run.run [] =
      (.error e, []) ∧ e.category = .configuration) ↔ Rejected calls names reference := by
  rw [computeNoted]
  cases hcheck : check (ofCalls calls) names reference with
  | error e =>
    refine iff_of_true ⟨e, rfl, check_error hcheck⟩ ?_
    by_contra hfit
    obtain ⟨qs, hqs⟩ := not_rejected_iff.mp hfit
    rw [hcheck] at hqs
    cases hqs
  | ok qs =>
    refine iff_of_false ?_ (not_rejected_iff.mpr ⟨qs, hcheck⟩)
    rintro ⟨e, hrun, -⟩
    obtain ⟨more, hmore, hempty⟩ := mapM_answerNoted measure set reference qs []
    rw [Work.run_bind (Work.run_lift rfl _), hmore, Prod.mk.injEq] at hrun
    rw [hempty hrun.2] at hrun
    cases hrun.1

/-! ## Answers to several names -/

theorem answer_given {p : String × Quality α} (h : q.answer measure set reference = .ok p) :
    p.1 = q.given := by
  obtain ⟨i, -, h⟩ := of_bind_ok h
  obtain ⟨value, -, h⟩ := of_bind_ok h
  cases h
  rfl

/-- What is built and measured does not depend on how it is asked for. -/
theorem answer_renamed {p : String × Quality α} (h : q.answer measure set reference = .ok p)
    (given full : String) :
    (⟨given, full, q.entry⟩ : Request X α ι).answer measure set reference = .ok (given, p.2) := by
  obtain ⟨i, hi, h⟩ := of_bind_ok h
  obtain ⟨value, hvalue, h⟩ := of_bind_ok h
  cases h
  change (⟨given, full, q.entry⟩ : Request X α ι).build reference = .ok i at hi
  rw [Request.answer, hi, ok_bind, hvalue]
  rfl

/-- A single name that is resolved, with a reference set if it needs one. -/
theorem compute_singleton (hresolves : Resolves calls name q)
    (hneeds : reference = none → q.entry.needsReference = false) {p : String × Quality α}
    (hanswer : q.answer measure set reference = .ok p) :
    compute measure (ofCalls calls) set [name] reference = .ok [p] := by
  have hcheck : check (ofCalls calls) [name] reference = .ok [q] := by
    refine check_ok_iff.mpr ⟨.cons hresolves .nil, fun hnone q' hq' => ?_⟩
    rw [List.mem_singleton.mp hq']
    exact hneeds hnone
  rw [compute_eq_check, hcheck, ok_bind]
  exact mapM_ok_iff.mpr (.cons hanswer .nil)

/-- A request is turned down, before any factory is called, for a name that stands for
nothing or for a reference set that is missing, and for nothing else.  Otherwise, if no
factory and no measuring fails, there is one answer to each name, in the order of first
mention, and it is the answer to that name alone and to the full name. -/
theorem compute_checked (measure : ι → PointSet X α → Except (Fault α) (Quality α))
    (calls : List (String × IndicatorEntry X α ι)) (set : PointSet X α) (names : List String)
    (reference : Option (PointSet X α)) :
    ((computeNoted measure (ofCalls calls) set names reference).run.run []).1 =
        compute measure (ofCalls calls) set names reference ∧
    ((∃ e, (computeNoted measure (ofCalls calls) set names reference).run.run [] =
        (.error e, []) ∧ e.category = .configuration) ↔ Rejected calls names reference) ∧
    (¬ Rejected calls names reference →
      (∀ name ∈ names, ∀ q, Resolves calls name q →
        ∃ i value, q.build reference = .ok i ∧ measure i set = .ok value) →
      ∃ values, compute measure (ofCalls calls) set names reference = .ok values ∧
        values.map Prod.fst = names.eraseDups ∧
        ∀ p ∈ values, compute measure (ofCalls calls) set [p.1] reference = .ok [p] ∧
          ∀ full, Stands (calls.map Prod.fst) p.1 full →
            compute measure (ofCalls calls) set [full] reference = .ok [(full, p.2)]) := by
  refine ⟨computeNoted_answer _ _ _, computeNoted_rejects calls names, fun hfit hworks => ?_⟩
  obtain ⟨qs, hcheck⟩ := not_rejected_iff.mp hfit
  obtain ⟨hall, hneeds⟩ := check_ok_iff.mp hcheck
  have hanswers : ∀ q ∈ qs, ∃ p, q.answer measure set reference = .ok p := by
    intro q hq
    obtain ⟨name, hname, hresolves⟩ := exists_of_forall₂ hall hq
    obtain ⟨i, value, hi, hvalue⟩ := hworks name (List.mem_eraseDups.mp hname) q hresolves
    exact ⟨(q.given, value), by rw [Request.answer, hi, ok_bind, hvalue]; rfl⟩
  cases hvalues : qs.mapM (Request.answer measure set reference) with
  | error e =>
    obtain ⟨q, hq, herror⟩ := of_mapM_error hvalues
    obtain ⟨p, hp⟩ := hanswers q hq
    rw [hp] at herror
    cases herror
  | ok values =>
    have hgiven := map_eq_of_forall₂ (mapM_ok_iff.mp hvalues) fun q p hp => answer_given hp
    have hnames := map_eq_of_forall₂ (f := id) hall fun name q hq => hq.given_eq
    refine ⟨values, ?_, ?_, fun p hp => ?_⟩
    · rw [compute_eq_check, hcheck, ok_bind, hvalues]
    · rw [hgiven, hnames, List.map_id]
    obtain ⟨q, hq, hanswer⟩ := exists_of_forall₂ (mapM_ok_iff.mp hvalues) hp
    obtain ⟨name, -, hresolves⟩ := exists_of_forall₂ hall hq
    have hname : p.1 = name := (answer_given hanswer).trans hresolves.given_eq
    have hneed : reference = none → q.entry.needsReference = false := fun hnone =>
      hneeds hnone q hq
    rw [hname]
    refine ⟨compute_singleton hresolves hneed hanswer, fun full hstands => ?_⟩
    -- A name stands for one registered name only, so this is the one that was resolved.
    obtain ⟨entry, hlast⟩ := hstands.last
    have heq : (⟨name, full, entry⟩ : Request X α ι) = q := hresolves.unique ⟨rfl, hstands, hlast⟩
    have hfull : Resolves calls full ⟨full, full, entry⟩ := ⟨rfl, .self hstands.1, hlast⟩
    subst heq
    exact compute_singleton hfull hneed (answer_renamed hanswer full full)

/-! ## The registry a program starts with -/

section

variable [Scalar α]

def standardCalls : List (String × IndicatorEntry X α (Labelled α)) :=
  [("hypervolume", standardEntry .hypervolume), ("generational", standardEntry .generational),
    ("inverted", standardEntry .inverted), ("epsilon", standardEntry .epsilon),
    ("error", standardEntry .worstGap), ("spacing", spacingEntry)]

theorem standard_eq_ofCalls : (standard : Table X α (Labelled α)) = ofCalls standardCalls := rfl

end

/-- The indicators on offer, and spacing once more under the beginning of another name. -/
noncomputable def shadowed : List (String × IndicatorEntry Unit ℝ (Labelled ℝ)) :=
  standardCalls ++ [("eps", spacingEntry)]

theorem shadowed_names : shadowed.map Prod.fst =
    ["hypervolume", "generational", "inverted", "epsilon", "error", "spacing", "eps"] := rfl

theorem shadowed_spacing : Resolves shadowed "spac" ⟨"spac", "spacing", spacingEntry⟩ := by
  refine ⟨rfl, ?_, rfl⟩
  rw [shadowed_names]
  decide

theorem shadowed_eps : Resolves shadowed "eps" ⟨"eps", "eps", spacingEntry⟩ := by
  refine ⟨rfl, .self ?_, rfl⟩
  rw [shadowed_names]
  decide

/-- An abbreviation and a name that begins another are answered without a reference set, the
first of them once.  The beginning of several names, and an indicator that needs a reference
set, are turned down. -/
theorem compute_checked_shadowed :
    (∃ values, compute Labelled.measure (ofCalls shadowed) (.points ⟨[2], [0, 1]⟩)
        ["spac", "eps", "spac"] none = .ok values ∧ values.map Prod.fst = ["spac", "eps"]) ∧
    (∃ e, (computeNoted Labelled.measure (ofCalls shadowed) (.points ⟨[2], [0, 1]⟩)
      ["spac", "e"] none).run.run [] = (.error e, []) ∧ e.category = .configuration) ∧
    ∃ e, (computeNoted Labelled.measure (ofCalls shadowed) (.points ⟨[2], [0, 1]⟩)
      ["spac", "inv"] none).run.run [] = (.error e, []) ∧ e.category = .configuration := by
  refine ⟨?_, ?_, ?_⟩
  · have hfit : ¬ Rejected shadowed ["spac", "eps", "spac"] none := by
      refine not_rejected_iff.mpr ⟨_, check_ok_iff.mpr
        ⟨.cons shadowed_spacing (.cons shadowed_eps .nil), fun _ q hq => ?_⟩⟩
      simp only [List.mem_cons, List.not_mem_nil, or_false] at hq
      rcases hq with rfl | rfl <;> rfl
    have hworks : ∀ name ∈ ["spac", "eps", "spac"], ∀ q, Resolves shadowed name q →
        ∃ i value, q.build none = .ok i ∧
          i.measure (.points ⟨[2], [0, 1]⟩ : PointSet Unit ℝ) = .ok value := by
      intro name hname q hq
      have hentry : q.entry = spacingEntry := by
        simp only [List.mem_cons, List.not_mem_nil, or_false] at hname
        rcases hname with rfl | rfl | rfl
        · rw [shadowed_spacing.unique hq]
        · rw [shadowed_eps.unique hq]
        · rw [shadowed_spacing.unique hq]
      rw [Request.build, hentry]
      exact ⟨_, _, rfl, rfl⟩
    obtain ⟨values, hvalues, hnames, -⟩ := (compute_checked Labelled.measure shadowed
      (.points ⟨[2], [0, 1]⟩) ["spac", "eps", "spac"] none).2.2 hfit hworks
    exact ⟨values, hvalues, hnames⟩
  · refine (compute_checked Labelled.measure shadowed (.points ⟨[2], [0, 1]⟩) ["spac", "e"]
      none).2.1.mpr (Or.inl ⟨"e", by decide, fun full => ?_⟩)
    rw [shadowed_names]
    rintro ⟨hfull, rfl | ⟨-, honly⟩⟩
    · exact absurd hfull (by decide)
    · have hepsilon := (honly "epsilon" (by decide)).mp (by decide)
      have herror := (honly "error" (by decide)).mp (by decide)
      exact absurd (hepsilon.trans herror.symm) (by decide)
  · refine (compute_checked Labelled.measure shadowed (.points ⟨[2], [0, 1]⟩) ["spac", "inv"]
      none).2.1.mpr (Or.inr ⟨rfl, "inv", by decide, "inverted", _, ?_, rfl, rfl⟩)
    rw [shadowed_names]
    decide

end IndicatorRegistry
end ParetoSearch
