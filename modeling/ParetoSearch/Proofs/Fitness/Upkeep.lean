import ParetoSearch.Proofs.Fitness.Measure

/-!
# Keeping the tracker in step

A removal asks that the tracker was made for as many members as there are, that the
index is one of them, and that every member has a fitness to be compared by.  All of
this holds after an evaluation and stays true under removals, in any arithmetic: an
assessment has a row, a column and a fitness for each member (`Assessment.Square`), and
annotating leaves no member without a fitness (`Tracker.isSome_annotate`).
-/

namespace ParetoSearch

variable {X α : Type}

/-! ## Square assessments -/

namespace Assessment

/-- A row, a column and a fitness for each of `n` members. -/
structure Square (n : Nat) (a : Assessment α) : Prop where
  length_contributions : a.contributions.length = n
  length_row : ∀ row ∈ a.contributions, row.length = n
  length_fitness : a.fitness.length = n

variable [Scalar α]

theorem ofContributions_square {rows : List (List α)} {n : Nat} (hlength : rows.length = n)
    (hrows : ∀ row ∈ rows, row.length = n) : (ofContributions rows).Square n := by
  refine ⟨hlength, hrows, ?_⟩
  rw [ofContributions, List.length_map]
  by_cases hempty : rows = []
  · subst hempty
    exact hlength
  · exact Vector.length_columnFold hempty hrows

theorem Square.erase {a : Assessment α} {n i : Nat} (h : a.Square n) (hi : i < n) :
    (a.erase i).Square (n - 1) := by
  obtain ⟨hlength, hrows, hfitness⟩ := h
  have hrow : (a.contributions.getD i []).length = n := by
    rw [← hlength] at hi
    rw [List.getD_eq_getElem?_getD, List.getElem?_eq_getElem hi]
    exact hrows _ (List.getElem_mem hi)
  refine ⟨?_, ?_, ?_⟩
  · rw [Assessment.erase, List.length_map, List.length_eraseIdx_of_lt (hlength ▸ hi), hlength]
  · intro row hmem
    obtain ⟨before, hbefore, rfl⟩ := List.mem_map.mp hmem
    have hbeforeLength := hrows before (List.mem_of_mem_eraseIdx hbefore)
    rw [List.length_eraseIdx_of_lt (hbeforeLength ▸ hi), hbeforeLength]
  · have hsum : (a.fitness.zipWith (· + ·) (a.contributions.getD i [])).length = n := by
      rw [List.length_zipWith, hfitness, hrow, Nat.min_self]
    rw [Assessment.erase, List.length_eraseIdx_of_lt (hsum ▸ hi), hsum]

end Assessment

theorem Vector.of_stack_ok {β : Type} {rows stacked : List (List β)}
    (h : (stack rows : Except (Fault α) (List (List β))) = .ok stacked) : stacked = rows := by
  unfold stack at h
  split at h
  case h_1 =>
    cases h
    rfl
  case h_2 =>
    split at h
    case isTrue =>
      cases h
      rfl
    case isFalse => cases h

/-! ## Square schemes -/

section

variable [Scalar α]

/-- A matrix with a row and a column for each member. -/
def Scheme.Square (s : Scheme α) : Prop :=
  ∀ rows matrix, s.matrix rows = .ok matrix →
    matrix.length = rows.length ∧ ∀ row ∈ matrix, row.length = rows.length

namespace Scheme

omit [Scalar α] in
theorem table_square {β γ : Type} {f : β → β → Except (Fault α) γ} {xs : List β}
    {table : List (List γ)} (h : (xs.mapM fun x => xs.mapM (f x)) = .ok table) :
    table.length = xs.length ∧ ∀ row ∈ table, row.length = xs.length := by
  obtain ⟨hlength, hmem⟩ := of_mapM_ok h
  refine ⟨hlength, fun row hrow => ?_⟩
  obtain ⟨x, -, hx⟩ := hmem row hrow
  exact (of_mapM_ok hx).1

theorem length_prepare {s : Scheme α} {rows prepared : List (List α)}
    (h : s.prepare rows = .ok prepared) : prepared.length = rows.length := by
  unfold prepare at h
  split at h
  case isTrue =>
    split at h
    case isTrue => cases h
    case isFalse =>
      cases h
      exact List.length_map _
  case isFalse =>
    cases h
    rfl

theorem assess_square {s : Scheme α} (hs : s.Square) {rows : List (List α)} {a : Assessment α}
    {scale : α} (h : s.assess rows = .ok (a, scale)) : a.Square rows.length := by
  rw [assess_eq_measure?, measure?] at h
  obtain ⟨matrix, hmatrix, h⟩ := of_bind_ok h
  obtain ⟨prepared, hprepare, hmatrix⟩ := of_bind_ok hmatrix
  cases h
  obtain ⟨hlength, hcolumns⟩ := hs prepared matrix hmatrix
  rw [length_prepare hprepare] at hlength hcolumns
  refine Assessment.ofContributions_square ?_ ?_
  · rw [contributions, List.length_map, List.length_zipIdx, hlength]
  · intro row hrow
    obtain ⟨p, hp, rfl⟩ := List.mem_map.mp hrow
    rw [List.length_map, List.length_zipIdx]
    exact hcolumns p.1 (List.fst_mem_of_mem_zipIdx hp)

end Scheme

theorem SchemeKind.square {kind : SchemeKind} {arguments : SchemeArguments α} {s : Scheme α}
    (hbuild : kind.build arguments = .ok s) : s.Square := by
  intro rows table htable
  rw [(build_ok hbuild).1] at htable
  cases kind with
  | epsilon => exact Scheme.table_square htable
  | hypervolume =>
    rw [matrix, Scheme.volumeMatrix] at htable
    obtain ⟨point, -, htable⟩ := of_bind_ok htable
    obtain ⟨sized, hsized, htable⟩ := of_bind_ok htable
    rw [← (of_mapM_ok hsized).1]
    exact Scheme.table_square htable

end

/-! ## Members with a fitness -/

namespace Store

variable [Inhabited X]

theorem isSome_setFitness {store : Store X α} {r q : Ref} (value : α)
    (hq : q.index < store.size) (h : q = r ∨ ((store.look q).fitness?).isSome) :
    (((store.setFitness r value).look q).fitness?).isSome := by
  by_cases hqr : q = r
  · subst hqr
    rw [look_setFitness_self hq, Solution.fitness?_setFitness]
    rfl
  · rw [look_setFitness_of_ne hqr]
    exact h.resolve_left hqr

end Store

namespace Tracker

variable [Inhabited X]

/-- What writing one fitness keeps, writing all keeps. -/
theorem annotate_induction {P : Store X α → Prop} {store : Store X α}
    (members : List Ref) (fitness : List α) (hstore : P store)
    (hstep : ∀ s r x, P s → P (s.setFitness r x)) : P (annotate store members fitness) :=
  List.foldlRecOn _ _ hstore fun s hs p _ => hstep s p.1 p.2 hs

/-- Every member is annotated, and stays so. -/
theorem isSome_annotate {store : Store X α} {members : List Ref} {fitness : List α}
    (hstored : ∀ r ∈ members, r.index < store.size) (hlength : fitness.length = members.length) :
    ∀ r ∈ members, (((annotate store members fitness).look r).fitness?).isSome := by
  induction members generalizing store fitness with
  | nil => simp
  | cons first rest ih =>
    obtain ⟨x, values, rfl⟩ := List.exists_cons_of_length_eq_add_one hlength
    have hsize := store.size_setFitness first x
    have hrest : ∀ r ∈ rest, r.index < (store.setFitness first x).size := by
      intro r hr
      rw [hsize]
      exact hstored r (List.mem_cons_of_mem _ hr)
    intro r hr
    change (((annotate (store.setFitness first x) rest values).look r).fitness?).isSome
    rcases List.mem_cons.mp hr with rfl | hr
    · have hr : r.index < store.size := hstored r List.mem_cons_self
      have hfirst := Store.isSome_setFitness x hr (Or.inl rfl)
      have hkeep : ∀ s : Store X α, s.size = store.size ∧ ((s.look r).fitness?).isSome →
          ∀ q y, (s.setFitness q y).size = store.size ∧
            (((s.setFitness q y).look r).fitness?).isSome := by
        rintro s ⟨hs, hsome⟩ q y
        exact ⟨(s.size_setFitness q y).trans hs,
          Store.isSome_setFitness y (hs ▸ hr) (Or.inr hsome)⟩
      have hlast := annotate_induction rest values (And.intro hsize hfirst)
        fun s q y hs => hkeep s hs q y
      exact hlast.2
    · exact ih hrest (Nat.succ.inj hlength) r hr

end Tracker

variable [Scalar α]

theorem compareFitness_ok {a b : Solution X α} (ha : a.fitness?.isSome) (hb : b.fitness?.isSome)
    (larger : Bool) : ∃ answer, compareFitness larger a b = .ok answer := by
  obtain ⟨x, hx⟩ := Option.isSome_iff_exists.mp ha
  obtain ⟨y, hy⟩ := Option.isSome_iff_exists.mp hb
  rw [compareFitness, hx, hy]
  by_cases heq : (x == y) = true
  · exact ⟨.eq, if_pos heq⟩
  · by_cases hworse : (if larger then decide (y < x) else decide (x < y)) = true
    · exact ⟨.lt, (if_neg heq).trans (if_pos hworse)⟩
    · exact ⟨.gt, (if_neg heq).trans (if_neg hworse)⟩

namespace Tracker

variable [Inhabited X] {store : Store X α}

/-- One step of the scan: the later member only where it is worse. -/
def keepWorse (store : Store X α) (worst p : Ref × Nat) : Except (Fault α) (Ref × Nat) := do
  match ← compareFitness true (store.look worst.1) (store.look p.1) with
  | .lt => return (p.1, p.2 + 1)
  | _ => return worst

theorem worstPlace_cons (store : Store X α) (m : Ref) (rest : List Ref) :
    worstPlace store (m :: rest) =
      rest.zipIdx.foldlM (keepWorse store) (m, 0) >>= fun worst => pure worst.2 := rfl

/-- The scan finds one of the members. -/
theorem worstPlace_ok {members : List Ref} (hne : members ≠ [])
    (hrated : ∀ r ∈ members, ((store.look r).fitness?).isSome) :
    ∃ i < members.length, worstPlace store members = .ok i := by
  obtain ⟨m, rest, rfl⟩ := List.exists_cons_of_ne_nil hne
  -- What the scan has kept so far is a member with a fitness.
  have hstep : ∀ p ∈ rest.zipIdx, ∀ worst : Ref × Nat,
      ((store.look worst.1).fitness?).isSome ∧ worst.2 < rest.length + 1 →
      ∃ next, keepWorse store worst p = .ok next ∧
        ((store.look next.1).fitness?).isSome ∧ next.2 < rest.length + 1 := by
    rintro p hp worst hworst
    have hlater : ((store.look p.1).fitness?).isSome :=
      hrated p.1 (List.mem_cons_of_mem _ (List.fst_mem_of_mem_zipIdx hp))
    obtain ⟨answer, hanswer⟩ := compareFitness_ok hworst.1 hlater true
    rw [keepWorse, hanswer, ok_bind]
    cases answer with
    | lt => exact ⟨_, rfl, hlater, Nat.succ_lt_succ (List.snd_lt_of_mem_zipIdx hp)⟩
    | eq | gt => exact ⟨_, rfl, hworst⟩
  obtain ⟨worst, hscan, -, hplace⟩ := foldlM_ok (b := (m, 0))
    ⟨hrated m List.mem_cons_self, Nat.zero_lt_succ _⟩ hstep
  exact ⟨worst.2, hplace, by rw [worstPlace_cons, hscan]; rfl⟩

theorem evaluate_ok {t t' : Tracker α} {scheme : Scheme α} {next : Store X α} {members : List Ref}
    (hs : scheme.Square) (h : t.evaluate scheme store members = .ok (t', next)) :
    ∃ a, t'.assessment = some a ∧ a.Square members.length ∧
      next = annotate store members a.fitness := by
  unfold evaluate at h
  split at h
  case isTrue hempty =>
    cases h
    rw [List.isEmpty_iff.mp hempty]
    exact ⟨_, rfl, ⟨rfl, fun _ hrow => absurd hrow List.not_mem_nil, rfl⟩, rfl⟩
  case isFalse =>
    obtain ⟨r, hrows, h⟩ := of_bind_ok h
    obtain ⟨p, hassess, h⟩ := of_bind_ok h
    cases h
    have hlength : r.length = members.length := by
      rw [Vector.of_stack_ok hrows, List.length_map]
    exact ⟨p.1, rfl, hlength ▸ Scheme.assess_square hs hassess, rfl⟩

/-- A population that fits a scheme on offer can be evaluated. -/
theorem evaluate_total (t : Tracker α) {kind : SchemeKind} {arguments : SchemeArguments α}
    {scheme : Scheme α} (hbuild : kind.build arguments = .ok scheme) {width : Nat}
    (hfits : kind.Fits arguments width) {members : List Ref}
    (hwidth : ∀ r ∈ members, (store.look r).objectives.length = width) :
    ∃ p, t.evaluate scheme store members = .ok p := by
  by_cases hne : members = []
  · subst hne
    exact ⟨_, rfl⟩
  · have hwidths : ∀ row ∈ members.map (fun r => (store.look r).objectives),
        row.length = width := by
      rw [List.forall_mem_map]
      exact hwidth
    have hempty : members.isEmpty = false := by simpa using hne
    have hmeasure := SchemeKind.measure?_eq hbuild hfits (by simpa using hne) hwidths
    rw [evaluate, hempty, rows, Vector.stack_ok hwidths, ok_bind, Scheme.assess_eq_measure?,
      hmeasure]
    exact ⟨_, rfl⟩

theorem remove_eq {t : Tracker α} {a : Assessment α} {members : List Ref} {i : Nat}
    (ha : t.assessment = some a) (hsize : a.Square members.length) (hi : i < members.length) :
    t.remove store members i = .ok (⟨some (a.erase i), t.scale⟩,
      annotate store (members.eraseIdx i) (a.erase i).fitness, members.eraseIdx i) := by
  have hlength : ¬ a.size ≠ members.length := by
    rw [Assessment.size, hsize.length_contributions]
    exact fun h => h rfl
  unfold remove
  simp only [ha, if_neg hlength, Vector.position?_natCast hi]

/-- Whatever the scheme, evaluation only annotates members. -/
theorem evaluate_annotates {t t' : Tracker α} {scheme : Scheme α} {next : Store X α}
    {members : List Ref} (h : t.evaluate scheme store members = .ok (t', next)) :
    ∃ fitness, next = annotate store members fitness := by
  unfold evaluate at h
  split at h
  case isTrue hempty =>
    cases h
    rw [List.isEmpty_iff.mp hempty]
    exact ⟨[], rfl⟩
  case isFalse =>
    obtain ⟨r, -, h⟩ := of_bind_ok h
    obtain ⟨p, -, h⟩ := of_bind_ok h
    cases h
    exact ⟨_, rfl⟩

/-- A removal takes one member out and annotates the others. -/
theorem remove_annotates {t t' : Tracker α} {next : Store X α} {members rest : List Ref}
    {index : Int} (h : t.remove store members index = .ok (t', next, rest)) :
    rest.Sublist members ∧ ∃ fitness, next = annotate store rest fitness := by
  unfold remove at h
  split at h
  · cases h
  · split at h
    · cases h
    · split at h
      · cases h
      · cases h
        exact ⟨List.eraseIdx_sublist _ _, _, rfl⟩

end Tracker

end ParetoSearch
