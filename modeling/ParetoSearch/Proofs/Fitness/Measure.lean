import ParetoSearch.Proofs.Fitness.Frozen
import ParetoSearch.Proofs.Dominance

/-!
# What the schemes on offer measure

Each scheme fills its matrix with the gain of one row over another, taken from the two
rows and what the population has in common.  So the matrix is square, and two members
with the same objectives do and suffer the same.
-/

namespace ParetoSearch

namespace Vector

variable {α β γ : Type}

theorem length_columnFold {f : α → α → α} {rows : List (List α)} {width : Nat}
    (hne : rows ≠ []) (hrows : ∀ row ∈ rows, row.length = width) :
    (columnFold f rows).length = width := by
  cases rows with
  | nil => exact absurd rfl hne
  | cons row rest =>
    rw [columnFold]
    induction rest generalizing row with
    | nil => exact hrows row List.mem_cons_self
    | cons next rest ih =>
      have hrow : row.length = width := hrows row List.mem_cons_self
      have hnext : next.length = width := hrows next (by simp)
      refine ih (row.zipWith f next) (by simp) fun r hr => ?_
      rcases List.mem_cons.mp hr with rfl | hr
      · rw [List.length_zipWith, hrow, hnext, min_self]
      · exact hrows r (by simp [hr])

end Vector

variable {α : Type} [Scalar α]

namespace Scheme

/-- How far a row has to be moved to cover another. -/
def shift (a b : List α) : α := (Scalar.greatest? (a.zipWith (· - ·) b)).getD 0

theorem epsilonMatrix_eq {rows : List (List α)} {width : Nat} (hpos : 0 < width)
    (hrows : ∀ row ∈ rows, row.length = width) :
    epsilonMatrix rows = .ok (rows.map fun a => rows.map (shift a)) := by
  refine mapM_ok fun a ha => mapM_ok fun b hb => ?_
  have hlength : (a.zipWith (· - ·) b).length = width := by
    rw [List.length_zipWith, hrows a ha, hrows b hb, min_self]
  obtain ⟨x, xs, hzip⟩ : ∃ x xs, a.zipWith (· - ·) b = x :: xs :=
    List.exists_cons_of_length_pos (hlength ▸ hpos)
  simp only [shift, hzip, Scalar.greatest?, Option.getD_some]

/-- Whether an anchor can be placed, and meets rows of so many entries. -/
def Anchor.Meets (width : Nat) : Anchor α → Prop
  | .point p => p.length = width ∨ p.length = 1 ∨ width = 1
  | .uniform coordinate => coordinate.isSome
  | .beyondWorst => True

theorem Anchor.resolve_ok {anchor : Anchor α} {rows : List (List α)} {width : Nat}
    (hmeets : anchor.Meets width) (hne : rows ≠ []) (hrows : ∀ row ∈ rows, row.length = width) :
    ∃ point, anchor.resolve rows = .ok point ∧
      (point.length = width ∨ point.length = 1 ∨ width = 1) := by
  have hempty : rows.isEmpty = false := by simpa using hne
  cases anchor with
  | point p => exact ⟨p, rfl, hmeets⟩
  | uniform coordinate =>
    obtain ⟨c, rfl⟩ := Option.isSome_iff_exists.mp hmeets
    obtain ⟨row, rest, rfl⟩ := List.exists_cons_of_ne_nil hne
    refine ⟨_, rfl, Or.inl ?_⟩
    rw [List.length_replicate]
    exact hrows row List.mem_cons_self
  | beyondWorst =>
    refine ⟨_, by rw [resolve, hempty]; rfl, Or.inl ?_⟩
    rw [List.length_map, Vector.length_columnFold hne hrows]

theorem boxVolume_ok {point row : List α}
    (h : point.length = row.length ∨ point.length = 1 ∨ row.length = 1) :
    ∃ volume, boxVolume point row = .ok volume := by
  obtain ⟨pairs, hpairs⟩ := Vector.pairUp_ok (α := α) h
  exact ⟨_, by rw [boxVolume, hpairs]; rfl⟩

/-- The volume of the box from a row up to a point that it meets. -/
def volume (point row : List α) : α := (boxVolume point row).toOption.getD 0

theorem boxVolume_eq {point row : List α}
    (h : point.length = row.length ∨ point.length = 1 ∨ row.length = 1) :
    boxVolume point row = .ok (volume point row) := by
  obtain ⟨v, hv⟩ := boxVolume_ok h
  rw [volume, hv]
  rfl

/-- The gain in volume of one row over another below a point. -/
def gainBelow (point a b : List α) : α :=
  volumeGain a b (volume point a) (volume point b) (volume point (a.zipWith Scalar.greater b))

theorem volumeMatrix_eq {anchor : Anchor α} {rows : List (List α)} {point : List α} {width : Nat}
    (hpoint : anchor.resolve rows = .ok point)
    (hlength : point.length = width ∨ point.length = 1 ∨ width = 1)
    (hrows : ∀ row ∈ rows, row.length = width) :
    volumeMatrix anchor rows = .ok (rows.map fun a => rows.map (gainBelow point a)) := by
  -- Every row has a volume, and so has the corner of any two.
  have hvolume : ∀ row : List α, row.length = width →
      boxVolume point row = .ok (volume point row) := by
    intro row hrow
    rw [← hrow] at hlength
    exact boxVolume_eq hlength
  have hsized : rows.mapM (fun row => do return (row, ← boxVolume point row)) =
      .ok (rows.map fun row => (row, volume point row)) := by
    refine mapM_ok fun row hrow => ?_
    rw [hvolume row (hrows row hrow)]
    rfl
  have hgain : (rows.map fun row => (row, volume point row)).mapM (fun p =>
      (rows.map fun row => (row, volume point row)).mapM fun q => do
        return volumeGain p.1 q.1 p.2 q.2 (← boxVolume point (p.1.zipWith Scalar.greater q.1))) =
      .ok ((rows.map fun row => (row, volume point row)).map fun p =>
        (rows.map fun row => (row, volume point row)).map fun q =>
          volumeGain p.1 q.1 p.2 q.2 (volume point (p.1.zipWith Scalar.greater q.1))) := by
    refine mapM_ok fun p hp => mapM_ok fun q hq => ?_
    obtain ⟨a, ha, rfl⟩ := List.mem_map.mp hp
    obtain ⟨b, hb, rfl⟩ := List.mem_map.mp hq
    have hcorner : (a.zipWith Scalar.greater b).length = width := by
      rw [List.length_zipWith, hrows a ha, hrows b hb, min_self]
    simp only [hvolume _ hcorner]
    rfl
  rw [volumeMatrix, hpoint, ok_bind, hsized, ok_bind, hgain]
  simp only [List.map_map, Function.comp_def]
  rfl

/-- A row on the scale of its population. -/
def scaled (s : Scheme α) (rows : List (List α)) (row : List α) : List α :=
  if s.normalize then (Normalizer.ofRows rows).scaleRow row else row

theorem prepare_eq (s : Scheme α) {rows : List (List α)} (hne : rows ≠ []) :
    s.prepare rows = .ok (rows.map (s.scaled rows)) := by
  have hempty : rows.isEmpty = false := by simpa using hne
  unfold prepare
  by_cases hnormalize : s.normalize = true
  · have hscaled : s.scaled rows = (Normalizer.ofRows rows).scaleRow := by
      funext row
      rw [scaled, if_pos hnormalize]
    rw [if_pos hnormalize, hempty, hscaled]
    rfl
  · have hscaled : s.scaled rows = id := by
      funext row
      rw [scaled, if_neg hnormalize, id]
    rw [if_neg hnormalize, hscaled, List.map_id]

theorem length_scaled (s : Scheme α) {rows : List (List α)} {width : Nat} (hne : rows ≠ [])
    (hrows : ∀ row ∈ rows, row.length = width) {row : List α} (hrow : row.length = width) :
    (s.scaled rows row).length = width := by
  unfold scaled
  split
  · have hlower := Vector.length_columnFold (f := Scalar.lesser) hne hrows
    have hupper := Vector.length_columnFold (f := Scalar.greater) hne hrows
    simp only [Normalizer.scaleRow, Normalizer.ofRows, List.length_zipWith, hlower, hupper, hrow,
      min_self]
  · exact hrow

end Scheme

/-! ## The schemes on offer -/

namespace SchemeKind

/-- Whether rows of so many objectives can be measured.  The greatest difference needs
an objective.  A reference point has a coordinate for each objective or one for all; to
do without one, scaled objectives need the standard coordinate. -/
def Fits (kind : SchemeKind) (a : SchemeArguments α) (width : Nat) : Prop :=
  match kind, a.referencePoint with
  | .epsilon, _ => 0 < width
  | .hypervolume, .given point =>
    point.entries.length = width ∨ point.entries.length = 1 ∨ width = 1
  | .hypervolume, _ => a.normalize.isOn = true → a.rho ≠ .nothing

theorem epsilon_build {kappa : α} (hkappa : ¬ kappa ≤ 0) (normalize : Bool) :
    SchemeKind.epsilon.build ⟨.given kappa, .given normalize, .leftOut, .leftOut⟩ =
      .ok ⟨Scheme.epsilonMatrix, kappa, normalize⟩ := if_neg hkappa

/-- The matrix of a scheme that could be built. -/
def matrix (kind : SchemeKind) (a : SchemeArguments α) :
    List (List α) → Except (Fault α) (List (List α)) :=
  match kind with
  | .epsilon => Scheme.epsilonMatrix
  | .hypervolume => Scheme.volumeMatrix (Scheme.anchorOf a.normalize.isOn
      (a.rho.optional standardRho) (a.referencePoint.value?.map Tensor.entries))

theorem build_ok {kind : SchemeKind} {a : SchemeArguments α} {s : Scheme α}
    (hbuild : kind.build a = .ok s) :
    s.matrix = kind.matrix a ∧ s.normalize = a.normalize.isOn ∧ ¬ s.kappa ≤ 0 := by
  have hchecked : ∀ {matrix : List (List α) → Except (Fault α) (List (List α))} {kappa : α}
      {normalize : Bool}, Scheme.kappaChecked matrix kappa normalize = .ok s →
        s.matrix = matrix ∧ s.normalize = normalize ∧ ¬ s.kappa ≤ 0 := by
    intro matrix kappa normalize h
    unfold Scheme.kappaChecked at h
    split at h
    case isTrue => cases h
    case isFalse hkappa =>
      cases h
      exact ⟨rfl, rfl, hkappa⟩
  cases hkappa : (a.kappa.required standardKappa : Except (Fault α) α) with
  | error e =>
    rw [build, hkappa] at hbuild
    cases hbuild
  | ok kappa =>
    rw [build, hkappa, ok_bind] at hbuild
    cases kind with
    | epsilon =>
      simp only at hbuild
      split at hbuild
      · cases hbuild
      · exact hchecked hbuild
    | hypervolume => exact hchecked hbuild

theorem anchor_meets {a : SchemeArguments α} {width : Nat} (hfits : hypervolume.Fits a width) :
    (Scheme.anchorOf a.normalize.isOn (a.rho.optional standardRho)
      (a.referencePoint.value?.map Tensor.entries)).Meets width := by
  unfold Fits at hfits
  cases hpoint : a.referencePoint with
  | given point =>
    rw [hpoint] at hfits
    exact hfits
  | leftOut | nothing =>
    rw [hpoint] at hfits
    by_cases hnormalize : a.normalize.isOn = true
    · have hrho := hfits hnormalize
      rw [hnormalize]
      cases hgiven : a.rho with
      | leftOut => rfl
      | given x => rfl
      | nothing => exact absurd hgiven hrho
    · simp [hnormalize, Scheme.anchorOf, Argument.value?, Scheme.Anchor.Meets]

/-- The gain of one row over another in a population. -/
def gain (kind : SchemeKind) (a : SchemeArguments α) (rows : List (List α)) :
    List α → List α → α :=
  match kind with
  | .epsilon => Scheme.shift
  | .hypervolume => Scheme.gainBelow (((Scheme.anchorOf a.normalize.isOn
      (a.rho.optional standardRho) (a.referencePoint.value?.map Tensor.entries)).resolve
        rows).toOption.getD [])

theorem matrix_eq {kind : SchemeKind} {a : SchemeArguments α} {width : Nat}
    (hfits : kind.Fits a width) {rows : List (List α)} (hne : rows ≠ [])
    (hrows : ∀ row ∈ rows, row.length = width) :
    kind.matrix a rows = .ok (rows.map fun x => rows.map (kind.gain a rows x)) := by
  cases kind with
  | epsilon => exact Scheme.epsilonMatrix_eq hfits hrows
  | hypervolume =>
    obtain ⟨point, hpoint, hlength⟩ := Scheme.Anchor.resolve_ok (anchor_meets hfits) hne hrows
    rw [matrix, gain, hpoint]
    exact Scheme.volumeMatrix_eq hpoint hlength hrows

theorem measure?_eq {kind : SchemeKind} {a : SchemeArguments α} {s : Scheme α}
    (hbuild : kind.build a = .ok s) {width : Nat} (hfits : kind.Fits a width)
    {rows : List (List α)} (hne : rows ≠ []) (hrows : ∀ row ∈ rows, row.length = width) :
    s.measure? rows = .ok (rows.map fun x => rows.map fun y =>
      kind.gain a (rows.map (s.scaled rows)) (s.scaled rows x) (s.scaled rows y)) := by
  have hwidth : ∀ row ∈ rows.map (s.scaled rows), row.length = width := by
    rw [List.forall_mem_map]
    exact fun row hrow => s.length_scaled hne hrows (hrows row hrow)
  have hmap : rows.map (s.scaled rows) ≠ [] := by simpa using hne
  rw [Scheme.measure?, s.prepare_eq hne, ok_bind, (build_ok hbuild).1, matrix_eq hfits hmap hwidth]
  simp only [List.map_map, Function.comp_def]

end SchemeKind

/-! ## Members that are one solution -/

variable {α : Type} [ExactScalar α] {s : Scheme α}

theorem getD_table (gain : List α → List α → α) (members : List Ref)
    (objectives : Ref → List α) {k l : Nat} (hk : k < members.length) (hl : l < members.length) :
    (((members.map objectives).map fun a => (members.map objectives).map (gain a)).getD k
      []).getD l 0 = gain (objectives (atPlace members k)) (objectives (atPlace members l)) := by
  simp [atPlace, hk, hl]

theorem sharedAlike_of_gain (s : Scheme α) (gain : List α → List α → α) (members : List Ref)
    (objectives : Ref → List α) :
    SharedAlike (s.effect ((members.map objectives).map fun a =>
      (members.map objectives).map (gain a))) members := by
  intro i hi j hj hsame
  constructor
  · rw [Scheme.effect, Scheme.effect, getD_table _ _ _ hi hj, getD_table _ _ _ hj hi, hsame]
  · intro k hk
    rw [Scheme.effect, Scheme.effect, getD_table _ _ _ hk hi, getD_table _ _ _ hk hj, hsame]

/-- A population that fits a scheme on offer has a square matrix, and members that are
one solution do and suffer the same under it. -/
theorem SchemeKind.measured {kind : SchemeKind} {a : SchemeArguments α}
    (hbuild : kind.build a = .ok s) {width : Nat} (hfits : kind.Fits a width) {members : List Ref}
    {objectives : Ref → List α} (hwidth : ∀ r ∈ members, (objectives r).length = width) :
    ∃ matrix : List (List α),
      (members ≠ [] → s.measure? (members.map objectives) = .ok matrix ∧
        matrix.length = members.length ∧ ∀ row ∈ matrix, row.length = members.length) ∧
      SharedAlike (s.effect matrix) members := by
  by_cases hne : members = []
  · exact ⟨[], fun h => absurd hne h, sharedAlike_of_nodup (hne ▸ List.nodup_nil)⟩
  · have hrows : ∀ row ∈ members.map objectives, row.length = width := by
      simpa using hwidth
    have hmeasure := measure?_eq hbuild hfits (by simpa using hne) hrows
    exact ⟨_, fun _ => ⟨hmeasure, by simp, by simp⟩, sharedAlike_of_gain s _ members objectives⟩

end ParetoSearch
