import ParetoSearch.Proofs.Archive.Apart
import ParetoSearch.Proofs.Arithmetic.Exact

/-!
# An archive keeps what it was offered within reach

An archive forgets solutions: it refuses some, and members leave for newcomers
that beat them.  In exact arithmetic it does not drift away from them.  For every
solution it was ever offered it holds one with less violation, or with the same
violation and objectives that are hardly larger: by the tolerance at most in the
standard archive (`standard_within_tolerance`), by less than a box and the
tolerance in an archive of boxes (`boxed_within_box`).

Neither bound grows with the number of members that replaced each other, because
a replacement never loses what the replaced one stood for.  `StandsFor` is the
relation that survives: it moves the solution that was offered by the tolerance
once, and from then on compares without slack.  For boxes it compares indices
instead of objectives, and so pays for the box once, at the end.
-/

namespace ParetoSearch

/-! ## Vectors in the order of their entries -/

theorem forall₂_le_trans {β : Type} [Preorder β] {a b c : List β}
    (hab : List.Forall₂ (· ≤ ·) a b) (hbc : List.Forall₂ (· ≤ ·) b c) :
    List.Forall₂ (· ≤ ·) a c := by
  induction hab generalizing c with
  | nil => exact hbc
  | cons hxy _ ih =>
    cases hbc with
    | cons hyz htail => exact List.Forall₂.cons (hxy.trans hyz) (ih htail)

variable {ι X α : Type} [ExactScalar α]

theorem forall₂_le_map_add {t : α} (ht : 0 ≤ t) (f : List α) :
    List.Forall₂ (· ≤ ·) f (f.map (· + t)) := by
  rw [List.forall₂_map_right_iff]
  exact List.forall₂_same.mpr fun x _ => le_add_of_nonneg_right ht

/-! ## Boxes -/

namespace BoxSizes

theorem expand_pos (b : BoxSizes α) (n : Nat) {e : α} (he : e ∈ b.expand n) : 0 < e := by
  have hmem : e ∈ b.sizes := by
    rw [expand, List.mem_append] at he
    rcases he with he | he
    · exact List.mem_of_mem_take he
    · rw [(List.mem_replicate.mp he).2]
      exact List.getLast_mem b.nonempty
  have hpos := List.all_eq_true.mp b.positive e hmem
  simpa using hpos

theorem index_eq (b : BoxSizes α) {f : List α} {n : Nat} (h : f.length = n) :
    b.index f = f.zipWith (fun x e => ⌊x / e⌋) (b.expand n) := by
  rw [← h]
  rfl

/-- A vector that is nowhere larger lies in a box that is nowhere further on. -/
theorem index_mono (b : BoxSizes α) {f g : List α} (h : List.Forall₂ (· ≤ ·) f g) :
    List.Forall₂ (· ≤ ·) (b.index f) (b.index g) := by
  -- The sizes are the same for both vectors, and the induction runs through all three.
  rw [b.index_eq h.length_eq, b.index_eq rfl]
  have hpos : ∀ e ∈ b.expand g.length, 0 < e := fun e => b.expand_pos g.length
  generalize b.expand g.length = es at hpos
  induction h generalizing es with
  | nil => exact List.Forall₂.nil
  | cons hxy _ ih =>
    cases es with
    | nil => exact List.Forall₂.nil
    | cons e es =>
      rw [List.forall_mem_cons] at hpos
      exact List.Forall₂.cons
        (Int.floor_le_floor (div_le_div_of_nonneg_right hxy hpos.1.le)) (ih es hpos.2)

/-- A vector in a box that is nowhere further on exceeds another by less than the
sizes of a box. -/
theorem lt_add_of_index_le (b : BoxSizes α) {f g : List α} (h : f.length = g.length)
    (hle : List.Forall₂ (· ≤ ·) (b.index f) (b.index g)) :
    List.Forall₂ (fun x p => x < p.1 + p.2) f (g.zip (b.expand g.length)) := by
  rw [b.index_eq h, b.index_eq rfl] at hle
  have hlen := b.length_expand g.length
  have hpos : ∀ e ∈ b.expand g.length, 0 < e := fun e => b.expand_pos g.length
  generalize b.expand g.length = es at hle hlen hpos
  induction f generalizing g es with
  | nil =>
    rw [List.length_eq_zero_iff.mp h.symm]
    exact List.Forall₂.nil
  | cons x f ih =>
    cases g with
    | nil => simp at h
    | cons y g =>
      cases es with
      | nil => simp at hlen
      | cons e es =>
        rw [List.forall_mem_cons] at hpos
        rw [List.zipWith_cons_cons, List.zipWith_cons_cons, List.forall₂_cons] at hle
        refine List.Forall₂.cons ?_ (ih (Nat.succ.inj h) es hle.2 (Nat.succ.inj hlen) hpos.2)
        have hx : x / e < y / e + 1 := by
          have hxy : (⌊x / e⌋ : α) ≤ ⌊y / e⌋ := Int.cast_le.mpr hle.1
          linarith [Int.lt_floor_add_one (x / e), Int.floor_le (y / e)]
        rw [div_add_one hpos.1.ne', div_lt_div_iff_of_pos_right hpos.1] at hx
        exact hx

end BoxSizes

/-! ## Violations and the tolerance -/

theorem compareViolation_eq_cmp (a b : Solution X α) :
    compareViolation a b = cmp a.violation b.violation := by
  unfold compareViolation
  rcases lt_trichotomy a.violation b.violation with h | h | h
  · rw [if_neg (by simpa using h.ne), if_pos h]
    exact (cmp_eq_lt_iff _ _).mpr h |>.symm
  · rw [if_pos (by simpa using h)]
    exact (cmp_eq_eq_iff _ _).mpr h |>.symm
  · rw [if_neg (by simpa using h.ne'), if_neg h.not_gt]
    exact (cmp_eq_gt_iff _ _).mpr h |>.symm

theorem afterViolation_lt_iff (a b : Solution X α) (answer : Except (Fault α) Ordering) :
    afterViolation a b answer = .ok .lt ↔
      a.violation < b.violation ∨ a.violation = b.violation ∧ answer = .ok .lt := by
  rw [← cmp_eq_lt_iff, ← cmp_eq_eq_iff a.violation, ← compareViolation_eq_cmp, afterViolation]
  cases compareViolation a b <;> simp

theorem afterViolation_gt_iff (a b : Solution X α) (answer : Except (Fault α) Ordering) :
    afterViolation a b answer = .ok .gt ↔
      b.violation < a.violation ∨ a.violation = b.violation ∧ answer = .ok .gt := by
  rw [← cmp_eq_gt_iff, ← cmp_eq_eq_iff a.violation, ← compareViolation_eq_cmp, afterViolation]
  cases compareViolation a b <;> simp

namespace Policy

theorem within_of_length_eq {β : Type} [Scalar β] {f g : List β} (h : f.length = g.length)
    (t : β) : within (some t) f g =
      .ok (decide (Vector.norm ((f.zip g).map fun p => p.1 - p.2) ≤ t)) := by
  rw [within, Vector.pairUp_of_length_eq h]
  rfl

/-- Vectors within the tolerance exceed each other by the tolerance at most. -/
theorem le_add_of_within {f g : List α} (h : f.length = g.length) {t : α}
    (hw : within (some t) f g = .ok true) : List.Forall₂ (· ≤ ·) g (f.map (· + t)) := by
  rw [within_of_length_eq h, Except.ok.injEq, decide_eq_true_eq] at hw
  rw [List.forall₂_map_right_iff, List.forall₂_iff_zip]
  refine ⟨h.symm, fun {x y} hxy => ?_⟩
  have hdiff : y - x ∈ (f.zip g).map fun p => p.1 - p.2 := by
    rw [← List.zip_swap] at hxy
    obtain ⟨p, hp, hpair⟩ := List.mem_map.mp hxy
    refine List.mem_map.mpr ⟨p, hp, ?_⟩
    rw [← Prod.swap_swap p, hpair]
    rfl
  linarith [neg_le_of_abs_le (Vector.abs_le_of_norm_le hw hdiff)]

end Policy

/-! ## Standing in -/

/-- A solution stands for another when it is preferred for its violation, or is as
feasible and near enough. -/
def StandsFor (near : List α → List α → Prop) (a b : Solution X α) : Prop :=
  a.violation < b.violation ∨ a.violation = b.violation ∧ near a.objectives b.objectives

/-- A policy for vectors with `n` objectives that never loses what a member stood
for.  It compares by violation and then by `answer`; `near` says of two vectors
that the first makes up for the loss of the second. -/
structure Policy.Keeps (X : Type) (p : Policy α) (n : Nat)
    (answer : List α → List α → Except (Fault α) Ordering)
    (near : List α → List α → Prop) : Prop where
  compare_eq : ∀ a b : Solution X α,
    p.compare a b = afterViolation a b (answer a.objectives b.objectives)
  answers : ∀ {f g}, f.length = n → g.length = n → ∃ o, answer f g = .ok o
  decides : ∀ {a b : Solution X α}, a.objectives.length = n → b.objectives.length = n →
    ∃ d, p.blocks a b = .ok d
  near_self : ∀ f, near f f
  near_beating : ∀ {f g}, f.length = n → g.length = n → answer f g = .ok .gt → near g f
  near_blocking : ∀ {a b : Solution X α}, a.objectives.length = n → b.objectives.length = n →
    p.blocks a b = .ok true → near b.objectives a.objectives
  /-- A vector that beats another makes up for whatever the other made up for. -/
  near_trans : ∀ {f g h}, f.length = n → g.length = n → answer f g = .ok .lt → near g h →
    near f h

namespace Policy.Keeps

variable {p : Policy α} {n : Nat} {answer : List α → List α → Except (Fault α) Ordering}
  {near : List α → List α → Prop}

theorem compare_ok (h : p.Keeps X n answer near) {a b : Solution X α}
    (ha : a.objectives.length = n) (hb : b.objectives.length = n) :
    ∃ o, p.compare a b = .ok o := by
  rw [h.compare_eq]
  exact afterViolation_ok a b (h.answers ha hb)

theorem standsFor_self (h : p.Keeps X n answer near) (s : Solution X α) : StandsFor near s s :=
  Or.inr ⟨rfl, h.near_self s.objectives⟩

theorem standsFor_beaten (h : p.Keeps X n answer near) {s m : Solution X α}
    (hs : s.objectives.length = n) (hm : m.objectives.length = n)
    (hgt : p.compare s m = .ok .gt) : StandsFor near m s := by
  rw [h.compare_eq, afterViolation_gt_iff] at hgt
  rcases hgt with hlt | ⟨heq, hgt⟩
  · exact Or.inl hlt
  · exact Or.inr ⟨heq.symm, h.near_beating hs hm hgt⟩

theorem standsFor_blocked (h : p.Keeps X n answer near) {s m : Solution X α}
    (hs : s.objectives.length = n) (hm : m.objectives.length = n)
    (htie : p.compare s m = .ok .eq) (hblock : p.blocks s m = .ok true) :
    StandsFor near m s := by
  rw [h.compare_eq, afterViolation_eq_iff, compareViolation_eq_cmp, cmp_eq_eq_iff] at htie
  exact Or.inr ⟨htie.1.symm, h.near_blocking hs hm hblock⟩

theorem standsFor_trans (h : p.Keeps X n answer near) {s m t : Solution X α}
    (hs : s.objectives.length = n) (hm : m.objectives.length = n)
    (hlt : p.compare s m = .ok .lt) (hmt : StandsFor near m t) : StandsFor near s t := by
  rw [h.compare_eq, afterViolation_lt_iff] at hlt
  rcases hlt with hsm | ⟨hsm, hbeats⟩ <;> rcases hmt with hmt | ⟨hmt, hnear⟩
  · exact Or.inl (hsm.trans hmt)
  · exact Or.inl (hmt ▸ hsm)
  · exact Or.inl (hsm ▸ hmt)
  · exact Or.inr ⟨hsm.trans hmt, h.near_trans hs hm hbeats hnear⟩

end Policy.Keeps

/-! ## What an archive holds -/

/-- Every solution offered so far has a member that stands for it. -/
structure Container.Covers (look : ι → Solution X α) (p : Policy α) (n : Nat)
    (near : List α → List α → Prop) (c : Container ι α) (offered : List ι) : Prop where
  policy_eq : c.policy = p
  length_eq : ∀ m ∈ c.members, (look m).objectives.length = n
  standIn : ∀ s ∈ offered, ∃ m ∈ c.members, StandsFor near (look m) (look s)

namespace Policy.Keeps

variable {p : Policy α} {n : Nat} {answer : List α → List α → Except (Fault α) Ordering}
  {near : List α → List α → Prop} {look : ι → Solution X α}

theorem add_covers (h : p.Keeps X n answer near) {c : Container ι α} {offered : List ι} {s : ι}
    (hc : c.Covers look p n near offered) (hs : (look s).objectives.length = n) :
    ∃ next added, c.add look s = .ok (next, added) ∧
      next.Covers look p n near (offered ++ [s]) := by
  obtain ⟨hpolicy, hlength, hstand⟩ := hc
  subst hpolicy
  obtain ⟨next, added, hadd⟩ := Container.add_ok
    (fun m hm => h.compare_ok hs (hlength m hm)) (fun m hm => h.decides hs (hlength m hm))
  refine ⟨next, added, hadd, Container.policy_of_add hadd, fun m hm => ?_, ?_⟩
  · rcases Container.mem_of_add hadd hm with hm | rfl
    · exact hlength m hm
    · exact hs
  · exact Container.add_covers hadd hstand (h.standsFor_self _)
      (fun m hm => h.standsFor_beaten hs (hlength m hm))
      (fun m hm => h.standsFor_blocked hs (hlength m hm))
      (fun m hm _ => h.standsFor_trans hs (hlength m hm))

theorem covers_run [DecidableEq ι] (h : p.Keeps X n answer near) (offers : List (Offer ι))
    (hoffers : ∀ s ∈ offers.flatMap Offer.solutions, (look s).objectives.length = n) :
    ((Container.empty p).run look (offers.map Offer.call)).Covers look p n near
      (offers.flatMap Offer.solutions) := by
  have hstart : (Container.empty p : Container ι α).Covers look p n near [] :=
    ⟨rfl, by simp [Container.empty], by simp⟩
  have hrun := Container.run_offers
    (P := fun c offered => c.Covers look p n near offered)
    (fun hc hs => h.add_covers hc hs)
    offers hoffers hstart
  exact hrun

end Policy.Keeps

/-! ## The standard archive -/

theorem standard_keeps {tol : α} (htol : 0 ≤ tol) (n : Nat) :
    (Policy.nondominated .standard (some tol)).Keeps X n comparePareto
      fun f g => List.Forall₂ (· ≤ ·) f (g.map (· + tol)) where
  compare_eq a b := Comparator.compare_standard a b
  answers {f g} hf hg := by
    rw [comparePareto_eq, dominanceOrder_of_length_eq (hf.trans hg.symm)]
    exact ⟨_, rfl⟩
  decides {a b} ha hb := by
    rw [Policy.blocks, Policy.within_of_length_eq (ha.trans hb.symm)]
    exact ⟨_, rfl⟩
  near_self f := forall₂_le_map_add htol f
  near_beating {f g} hf hg hgt := by
    have hle : List.Forall₂ (· ≤ ·) g f := forall₂_le_of_order_gt (hf.trans hg.symm) hgt
    exact forall₂_le_trans hle (forall₂_le_map_add htol f)
  near_blocking ha hb hblock := Policy.le_add_of_within (ha.trans hb.symm) hblock
  near_trans {f g h} hf hg hlt hnear := by
    have hle : List.Forall₂ (· ≤ ·) f g := forall₂_le_of_order_lt (hf.trans hg.symm) hlt
    exact forall₂_le_trans hle hnear

/-- Whatever was offered to a standard archive, early or late, the archive holds a
member with less violation, or with the same violation and no objective larger by
more than the tolerance. -/
theorem standard_within_tolerance [DecidableEq ι] {tol : α} (htol : 0 ≤ tol)
    (look : ι → Solution X α) {n : Nat} (offers : List (Offer ι))
    (hoffers : ∀ s ∈ offers.flatMap Offer.solutions, (look s).objectives.length = n) :
    ∀ s ∈ offers.flatMap Offer.solutions,
      ∃ m ∈ ((Container.empty (.nondominated .standard (some tol))).run look
          (offers.map Offer.call)).members,
        (look m).violation < (look s).violation ∨
          (look m).violation = (look s).violation ∧
            List.Forall₂ (fun x y => x ≤ y + tol) (look m).objectives (look s).objectives := by
  intro s hs
  obtain ⟨m, hm, hstand⟩ := ((standard_keeps htol n).covers_run offers hoffers).standIn s hs
  rw [StandsFor, List.forall₂_map_right_iff] at hstand
  exact ⟨m, hm, hstand⟩

/-- The second is nearly a duplicate of the first, and the third beats the first. -/
noncomputable def replaced : Nat → Solution Unit ℝ :=
  Solution.ofRows [[0, 1], [1 / 8, 7 / 8], [-1, 1]]

theorem standard_within_tolerance_replaced :
    (0 : ℝ) ≤ 1 / 4 ∧ (∀ s ∈ [0, 1, 2], (replaced s).objectives.length = 2) ∧
      ∃ m ∈ ((Container.empty (.nondominated .standard (some (1 / 4)))).run replaced
          ([.all [0, 1], .one 2].map Offer.call)).members,
        (replaced m).violation < (replaced 1).violation ∨
          (replaced m).violation = (replaced 1).violation ∧
            List.Forall₂ (fun x y => x ≤ y + 1 / 4) (replaced m).objectives
              (replaced 1).objectives := by
  have htol : (0 : ℝ) ≤ 1 / 4 := by norm_num
  have hlengths : ∀ s ∈ [0, 1, 2], (replaced s).objectives.length = 2 := by
    simp [replaced, Solution.ofRows]
  exact ⟨htol, hlengths, standard_within_tolerance htol replaced [.all [0, 1], .one 2] hlengths 1
    (by decide)⟩

/-! ## The archive of boxes -/

namespace BoxSizes

theorem compare_ok {β : Type} [Scalar β] (b : BoxSizes β) {f g : List β}
    (h : f.length = g.length) : ∃ o, b.compare f g = .ok o := by
  by_cases hbox : b.index f = b.index g
  · rw [compare_of_index_eq b hbox, compareInside, comparePareto_eq,
      dominanceOrder_of_length_eq h]
    split
    · exact ⟨_, rfl⟩
    · split <;> exact ⟨_, rfl⟩
  · rw [compare_of_index_ne b hbox, dominanceOrder_of_length_eq (by simp [length_index, h])]
    exact ⟨_, rfl⟩

theorem index_le_of_lt (b : BoxSizes α) {f g : List α} (h : f.length = g.length)
    (hlt : b.compare f g = .ok .lt) : List.Forall₂ (· ≤ ·) (b.index f) (b.index g) := by
  by_cases hbox : b.index f = b.index g
  · rw [hbox]
    exact List.forall₂_refl _
  · rw [compare_of_index_ne b hbox] at hlt
    exact forall₂_le_of_order_lt (by rw [length_index, length_index, h]) hlt

theorem index_le_of_gt (b : BoxSizes α) {f g : List α} (h : f.length = g.length)
    (hgt : b.compare f g = .ok .gt) : List.Forall₂ (· ≤ ·) (b.index g) (b.index f) := by
  by_cases hbox : b.index f = b.index g
  · rw [hbox]
    exact List.forall₂_refl _
  · rw [compare_of_index_ne b hbox] at hgt
    exact forall₂_le_of_order_gt (by rw [length_index, length_index, h]) hgt

end BoxSizes

theorem standardTolerance_nonneg : (0 : α) ≤ Policy.standardTolerance := by
  unfold Policy.standardTolerance Scalar.ratio
  exact div_nonneg (Nat.cast_nonneg _) (Nat.cast_nonneg _)

/-- A member may go for one in the same box with larger objectives, so only the
boxes are compared. -/
theorem boxed_keeps (sizes : BoxSizes α) (n : Nat) :
    (Policy.boxed ⟨sizes, true⟩).Keeps X n sizes.compare fun f g =>
      List.Forall₂ (· ≤ ·) (sizes.index f) (sizes.index (g.map (· + Policy.standardTolerance)))
    where
  compare_eq a b := by rw [Policy.compare, BoxComparator.compare_eq, if_pos rfl]
  answers hf hg := sizes.compare_ok (hf.trans hg.symm)
  decides {a b} ha hb := by
    rw [Policy.blocks, Policy.within_of_length_eq (ha.trans hb.symm)]
    split <;> exact ⟨_, rfl⟩
  near_self f := sizes.index_mono (forall₂_le_map_add standardTolerance_nonneg f)
  near_beating {f g} hf hg hgt :=
    forall₂_le_trans (sizes.index_le_of_gt (hf.trans hg.symm) hgt)
      (sizes.index_mono (forall₂_le_map_add standardTolerance_nonneg f))
  near_blocking {a b} ha hb hblock := by
    rw [Policy.blocks] at hblock
    split at hblock
    case isTrue hsame =>
      rw [BoxSizes.sameBox, beq_iff_eq] at hsame
      rw [← hsame]
      exact sizes.index_mono (forall₂_le_map_add standardTolerance_nonneg a.objectives)
    case isFalse =>
      exact sizes.index_mono (Policy.le_add_of_within (ha.trans hb.symm) hblock)
  near_trans hf hg hlt hnear :=
    forall₂_le_trans (sizes.index_le_of_lt (hf.trans hg.symm) hlt) hnear

/-- Whatever was offered to an archive of boxes, early or late, the archive holds a
member with less violation, or with the same violation and every objective larger
by less than a box and the tolerance. -/
theorem boxed_within_box [DecidableEq ι] (sizes : BoxSizes α)
    (look : ι → Solution X α) {n : Nat} (offers : List (Offer ι))
    (hoffers : ∀ s ∈ offers.flatMap Offer.solutions, (look s).objectives.length = n) :
    ∀ s ∈ offers.flatMap Offer.solutions,
      ∃ m ∈ ((Container.empty (.boxed ⟨sizes, true⟩)).run look
          (offers.map Offer.call)).members,
        (look m).violation < (look s).violation ∨
          (look m).violation = (look s).violation ∧
            List.Forall₂ (fun x p => x < p.1 + p.2 + Policy.standardTolerance)
              (look m).objectives ((look s).objectives.zip (sizes.expand n)) := by
  intro s hs
  have hcovers := (boxed_keeps sizes n).covers_run offers hoffers
  obtain ⟨m, hm, hstand⟩ := hcovers.standIn s hs
  refine ⟨m, hm, hstand.imp_right (And.imp_right fun hnear => ?_)⟩
  have hsn := hoffers s hs
  have hlen : (look m).objectives.length =
      ((look s).objectives.map (· + Policy.standardTolerance)).length := by
    rw [List.length_map, hcovers.length_eq m hm, hsn]
  have hlt := sizes.lt_add_of_index_le hlen hnear
  rw [List.length_map, hsn, List.zip_map_left, List.forall₂_map_right_iff] at hlt
  refine hlt.imp fun x p hxp => ?_
  simp only [Prod.map, id] at hxp
  linarith

/-- The second lies in the box of the first, further from its corner, and the box of
the third dominates it. -/
noncomputable def outboxed : Nat → Solution Unit ℝ :=
  Solution.ofRows [[3 / 2, 3 / 2], [7 / 4, 5 / 4], [1 / 2, 3 / 2]]

noncomputable def wholeBoxes : BoxSizes ℝ := ⟨[1], by simp, by simp⟩

theorem boxed_within_box_outboxed :
    (∀ s ∈ [0, 1, 2], (outboxed s).objectives.length = 2) ∧
      ∃ m ∈ ((Container.empty (.boxed ⟨wholeBoxes, true⟩)).run outboxed
          ([.all [0, 1], .one 2].map Offer.call)).members,
        (outboxed m).violation < (outboxed 1).violation ∨
          (outboxed m).violation = (outboxed 1).violation ∧
            List.Forall₂ (fun x p => x < p.1 + p.2 + Policy.standardTolerance)
              (outboxed m).objectives
              ((outboxed 1).objectives.zip (wholeBoxes.expand 2)) := by
  have hlengths : ∀ s ∈ [0, 1, 2], (outboxed s).objectives.length = 2 := by
    simp [outboxed, Solution.ofRows]
  exact ⟨hlengths, boxed_within_box wholeBoxes outboxed [.all [0, 1], .one 2] hlengths 1
    (by decide)⟩

end ParetoSearch
