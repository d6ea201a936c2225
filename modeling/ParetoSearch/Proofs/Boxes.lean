import ParetoSearch.Proofs.Archive.Coverage

/-!
# Boxes agree with dominance

The comparators of boxes look at dominance last, and only to settle a tie of distances.  In
exact arithmetic they never need to: a vector that dominates another one is preferred before
that (`BoxSizes.compare_of_dominates`).  Either its box dominates the other box, or both lie
in one box, and then it is nearer to the corner.

The corner must be the lower one for this.  Seen from there no entry is negative
(`offset_nonneg`), for boxes on either side of zero alike, and of two such vectors the one
with smaller entries is shorter.
-/

namespace ParetoSearch

variable {ι X α : Type} [ExactScalar α]

/-! ## Lengths of vectors -/

theorem Vector.norm_lt_norm {u v : List α} (hlength : u.length = v.length)
    (hu : ∀ x ∈ u, 0 ≤ x) (hlt : entries u < entries v) : norm u < norm v := by
  have hle : List.Forall₂ (· ≤ ·) u v := (forall₂_le_iff_entries_le hlength).mpr hlt.le
  have hne : u ≠ v := (entries_inj hlength).not.mp hlt.ne
  rw [norm, norm, leftSum_eq_sum, leftSum_eq_sum]
  refine Scalar.sqrt_lt_sqrt (List.sum_nonneg ?_) ?_
  · simpa using fun x _ => mul_self_nonneg x
  -- No square is larger, and where the vectors differ one is smaller.
  have hsum : (u.map fun x => x * x).sum ≤ (v.map fun x => x * x).sum ∧
      (u ≠ v → (u.map fun x => x * x).sum < (v.map fun x => x * x).sum) := by
    clear hlength hlt hne
    induction hle with
    | nil => exact ⟨le_rfl, fun h => absurd rfl h⟩
    | @cons x y u v hxy _ ih =>
      rw [List.forall_mem_cons] at hu
      obtain ⟨hsum, hstrict⟩ := ih hu.2
      have hsquare : x * x ≤ y * y := mul_self_le_mul_self hu.1 hxy
      simp only [List.map_cons, List.sum_cons]
      refine ⟨add_le_add hsquare hsum, fun hne => ?_⟩
      rcases hxy.eq_or_lt with rfl | hlt
      · exact add_lt_add_of_le_of_lt hsquare (hstrict fun h => hne (h ▸ rfl))
      · exact add_lt_add_of_lt_of_le (mul_self_lt_mul_self hu.1 hlt) hsum
  exact hsum.2 hne

namespace BoxSizes

variable (b : BoxSizes α) {f g : List α}

/-! ## Seen from the corner -/

/-- A vector as seen from the lower corner of its box. -/
def offset (f : List α) : List α := f.zipWith (· - ·) (b.corner (b.index f))

theorem length_corner_index (f : List α) : (b.corner (b.index f)).length = f.length := by
  rw [corner, List.length_zipWith, length_expand, length_index, Nat.min_self]

theorem length_offset (f : List α) : (b.offset f).length = f.length := by
  rw [offset, List.length_zipWith, length_corner_index, Nat.min_self]

theorem offset_nonneg (f : List α) : ∀ x ∈ b.offset f, 0 ≤ x := by
  intro x hx
  obtain ⟨k, hk, rfl⟩ := List.mem_iff_getElem.mp hx
  have hexpand : k < (b.expand f.length).length := by
    rwa [length_expand, ← b.length_offset f]
  have hpos : 0 < (b.expand f.length)[k] := b.expand_pos f.length (List.getElem_mem hexpand)
  simp only [offset, corner, index, List.getElem_zipWith, List.length_zipWith, length_expand,
    Nat.min_self]
  exact Int.sub_floor_div_mul_nonneg _ hpos

theorem entries_offset_lt (hindex : b.index f = b.index g) (hlt : entries f < entries g) :
    entries (b.offset f) < entries (b.offset g) := by
  have hentries : ∀ h : List α, entries (b.offset h) =
      entries h - entries (b.corner (b.index h)) := fun h =>
    funext fun k => entries_zipWith (sub_zero 0) (b.length_corner_index h).symm k
  rw [hentries, hentries, hindex]
  exact sub_lt_sub_right hlt _

theorem cornerDistance_lt (hindex : b.index f = b.index g) (hlength : f.length = g.length)
    (hlt : entries f < entries g) : b.cornerDistance f < b.cornerDistance g :=
  Vector.norm_lt_norm ((b.length_offset f).trans (hlength.trans (b.length_offset g).symm))
    (b.offset_nonneg f) (b.entries_offset_lt hindex hlt)

/-! ## What dominates is preferred -/

theorem compare_of_dominates (hlength : f.length = g.length) (hfg : dominates f g = true) :
    b.compare f g = .ok .lt := by
  have hindexes : (b.index f).length = (b.index g).length := by
    rw [length_index, length_index, hlength]
  by_cases hindex : b.index f = b.index g
  · have hnear := b.cornerDistance_lt hindex hlength ((dominates_iff_entries_lt hlength).mp hfg)
    rw [compare_of_index_eq b hindex, compareInside, if_pos hnear]
  · have hle : entries (b.index f) ≤ entries (b.index g) :=
      (forall₂_le_iff_entries_le hindexes).mp (b.index_mono (forall₂_le_of_dominates hlength hfg))
    rw [compare_of_index_ne b hindex, dominanceOrder_lt_iff hindexes,
      dominates_iff_entries_lt hindexes]
    exact hle.lt_of_ne ((entries_inj hindexes).not.mpr hindex)

/-- In a box, vectors at one distance from the corner do not dominate each other. -/
theorem comparePareto_of_tie (hbox : b.sameBox f g = true)
    (htie : b.cornerDistance f = b.cornerDistance g) : comparePareto f g = .ok .eq := by
  rw [sameBox, beq_iff_eq] at hbox
  have hlength : f.length = g.length := by
    rw [← b.length_index f, hbox, length_index]
  have hfg : dominates f g = false := by
    rw [← Bool.not_eq_true, dominates_iff_entries_lt hlength]
    exact fun hlt => (b.cornerDistance_lt hbox hlength hlt).ne htie
  have hgf : dominates g f = false := by
    rw [← Bool.not_eq_true, dominates_iff_entries_lt hlength.symm]
    exact fun hlt => (b.cornerDistance_lt hbox.symm hlength.symm hlt).ne htie.symm
  rw [comparePareto_eq, dominanceOrder_of_length_eq hlength, hfg, hgf]
  rfl

end BoxSizes

theorem BoxComparator.compare_of_dominates (rule : BoxComparator α) {a b : Solution X α}
    (hlength : a.objectives.length = b.objectives.length)
    (hab : dominates a.objectives b.objectives = true)
    (hviolation : rule.violationFirst = true → a.violation = b.violation) :
    rule.compare a b = .ok .lt := by
  have hboxes := rule.boxes.compare_of_dominates hlength hab
  rw [compare_eq, hboxes]
  split
  case isTrue hfirst => exact (afterViolation_lt_iff a b _).mpr (Or.inr ⟨hviolation hfirst, rfl⟩)
  case isFalse => rfl

instance : SymmetricScalar α where
  beq_comm x y := by rw [Bool.eq_iff_iff, Scalar.beq_iff, Scalar.beq_iff, eq_comm]
  sub_mul_self_comm x y := by ring

/-- A comparator of boxes prefers what dominates, as long as violations do not come first and
differ, and the last look at dominance, where two vectors in one box are at one distance from
its corner, never finds any.  So no member of an archive of boxes dominates another one with
the same violation, whatever calls the archive has seen. -/
theorem boxes_prefer_dominating [DecidableEq ι] (rule : BoxComparator α)
    (look : ι → Solution X α) :
    (∀ a b : Solution X α, a.objectives.length = b.objectives.length →
      dominates a.objectives b.objectives = true →
        (rule.violationFirst = true → a.violation = b.violation) →
          (Comparator.boxes rule).compare a b = .ok .lt) ∧
    (∀ f g : List α, rule.boxes.sameBox f g = true →
      rule.boxes.cornerDistance f = rule.boxes.cornerDistance g →
        comparePareto f g = .ok .eq) ∧
    ∀ events, ∀ r ∈ Session.run look events, r.archive.policy = .boxed rule →
      ∀ n, (∀ s ∈ r.offered, (look s).objectives.length = n) →
        ∀ p ∈ r.archive.members, ∀ q ∈ r.archive.members,
          (look p).violation = (look q).violation →
            dominates (look p).objectives (look q).objectives = false := by
  refine ⟨fun a b hlength hab hviolation => ?_, fun f g => rule.boxes.comparePareto_of_tie, ?_⟩
  · rw [Comparator.compare]
    exact rule.compare_of_dominates hlength hab hviolation
  · intro events r hr hrule n hn p hp q hq hviolation
    have hsub := (members_offered_invariant look).session events r hr
    have hlength : (look p).objectives.length = (look q).objectives.length :=
      (hn p (hsub p hp)).trans (hn q (hsub q hq)).symm
    by_contra hdominates
    rw [Bool.not_eq_false] at hdominates
    have hlt := rule.compare_of_dominates hlength hdominates fun _ => hviolation
    have hapart := List.pairwise_iff_getElem.mp ((apart_invariant look).session events r hr)
    rw [hrule] at hapart
    -- Insertion has seen the later of the two tie with the earlier one.
    obtain ⟨i, hi, rfl⟩ := List.mem_iff_getElem.mp hp
    obtain ⟨j, hj, rfl⟩ := List.mem_iff_getElem.mp hq
    have htie : rule.compare (look r.archive.members[i]) (look r.archive.members[j]) = .ok .eq := by
      rcases lt_trichotomy i j with hij | rfl | hji
      · exact rule.tie_comm (hapart i j hi hj hij).1
      · rw [not_dominates_self] at hdominates
        cases hdominates
      · exact (hapart j i hj hi hji).1
    rw [hlt] at htie
    cases htie

/-- The second dominates the first in one box beyond zero, and the third lies in another box. -/
noncomputable def beyondZero (i : Nat) : Solution Unit ℝ :=
  { Solution.ofRows
      ([[-3 / 4, 3 / 2], [-3 / 4, 5 / 4], [3 / 4, -3 / 2]].map (List.map Rat.cast)) i with
    constraints := [if i = 0 then 1 else -1] }

noncomputable def oblongs : BoxComparator ℝ :=
  ⟨⟨[((1 / 2 : ℚ) : ℝ), 1], by simp, by simp⟩, true⟩

theorem beyondZero_index : oblongs.boxes.index (beyondZero 1).objectives = [-2, 1] ∧
    oblongs.boxes.index (beyondZero 2).objectives = [1, -2] := by
  norm_num [beyondZero, Solution.ofRows, BoxSizes.index, BoxSizes.expand, BoxSizes.last,
    oblongs, Scalar.floor, Int.floor_eq_iff]

theorem beyondZero_violation (i : Nat) : (beyondZero i).violation = 1 := by
  by_cases hi : i = 0 <;> simp [beyondZero, hi, Solution.violation, Vector.total,
    Vector.halvingSum, Vector.blockSum, Vector.leftSum, Scalar.abs]

theorem beyondZero_apart : oblongs.compare (beyondZero 2) (beyondZero 1) = .ok .eq ∧
    (Policy.boxed oblongs).blocks (beyondZero 2) (beyondZero 1) = .ok false := by
  obtain ⟨hone, htwo⟩ := beyondZero_index
  have hfirst : oblongs.violationFirst = true := rfl
  have hlength : (beyondZero 2).objectives.length = (beyondZero 1).objectives.length := rfl
  constructor
  · rw [BoxComparator.compare_eq, if_pos hfirst, afterViolation_eq_iff, compareViolation_eq_iff,
      beyondZero_violation, beyondZero_violation, Scalar.beq_iff, BoxSizes.compare_of_index_ne,
      hone, htwo]
    · exact ⟨rfl, rfl⟩
    · rw [hone, htwo]
      decide
  · rw [Policy.blocks, BoxSizes.sameBox, hone, htwo, if_neg (by decide),
      Policy.within_of_length_eq hlength, Except.ok.injEq, decide_eq_false_iff_not]
    intro hnear
    have hentry := Vector.abs_le_of_norm_le (x := (3 / 2 : ℝ)) hnear
      (by norm_num [beyondZero, Solution.ofRows])
    norm_num [Policy.standardTolerance, Scalar.ratio] at hentry

/-- The last two vectors lie in the box of the first two solutions, both at one distance from
its corner. -/
theorem boxes_prefer_dominating_beyondZero :
    (Comparator.boxes oblongs).compare (beyondZero 1) (beyondZero 0) = .ok .lt ∧
      Session.run beyondZero [.construct (.boxed oblongs) [.solution 0, .solution 1],
          .call 0 (.add (.solution 2))] = [⟨⟨.boxed oblongs, [1, 2]⟩, [0, 1, 2]⟩] ∧
      dominates (beyondZero 1).objectives (beyondZero 2).objectives = false ∧
      comparePareto [-3 / 4, 9 / 8] [-7 / 8, (5 / 4 : ℝ)] = .ok .eq := by
  obtain ⟨hprefer, hfallback, harchive⟩ := boxes_prefer_dominating oblongs beyondZero
  have hevict : (Comparator.boxes oblongs).compare (beyondZero 1) (beyondZero 0) = .ok .lt := by
    refine hprefer _ _ rfl ?_ fun _ => by rw [beyondZero_violation, beyondZero_violation]
    norm_num [beyondZero, Solution.ofRows, dominates, nowhereWorse, somewhereBetter]
  have hrun : Session.run beyondZero [.construct (.boxed oblongs) [.solution 0, .solution 1],
      .call 0 (.add (.solution 2))] = [⟨⟨.boxed oblongs, [1, 2]⟩, [0, 1, 2]⟩] := by
    rw [Comparator.compare] at hevict
    simp [Session.run, Session.after, Container.offerAll, Container.offer, Container.add,
      Container.after, Container.empty, survivors, Policy.compare, hevict, beyondZero_apart,
      Offered.solution?, Call.offered, Except.map]
  refine ⟨hevict, hrun, ?_, ?_⟩
  · exact harchive _ _ (hrun ▸ List.mem_singleton_self _) rfl 2
      (by simp [beyondZero, Solution.ofRows]) 1 (by decide) 2 (by decide)
      (by rw [beyondZero_violation, beyondZero_violation])
  · have hindex : oblongs.boxes.index [-3 / 4, 9 / 8] = [-2, 1] ∧
        oblongs.boxes.index [-7 / 8, 5 / 4] = [-2, 1] := by
      norm_num [BoxSizes.index, BoxSizes.expand, BoxSizes.last, oblongs, Scalar.floor,
        Int.floor_eq_iff]
    refine hfallback _ _ ?_ ?_
    · rw [BoxSizes.sameBox, hindex.1, hindex.2, beq_self_eq_true]
    · rw [BoxSizes.cornerDistance, BoxSizes.cornerDistance, hindex.1, hindex.2]
      norm_num [Vector.norm, Vector.leftSum, BoxSizes.corner, BoxSizes.expand, BoxSizes.last,
        oblongs]

end ParetoSearch
