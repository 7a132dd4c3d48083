import Aiqb.UnpackBounds

namespace Aiqb
set_option autoImplicit true

open LittleEndian

/-- The sections pass the four checks, `m` atoms being left. The second check is against
`cvSize`. -/
def ProblemT.Loads (p : ProblemT) (m : Nat) : Prop :=
  p.cvSize.toNat ≤ m ∧
  p.cvSize.toNat ≤ min p.testSize.toNat (m - p.cvSize.toNat) ∧
  p.points.toNat ≤ m - p.cvSize.toNat - p.testSize.toNat ∧
  p.stateSize.toNat ≤ m - p.cvSize.toNat - p.testSize.toNat - p.points.toNat

instance (p : ProblemT) (m : Nat) : Decidable (p.Loads m) :=
  inferInstanceAs (Decidable (_ ∧ _ ∧ _ ∧ _))

def ProblemT.announced (p : ProblemT) : Nat :=
  p.cvSize.toNat + p.testSize.toNat + p.points.toNat + p.stateSize.toNat

/-- The arrays hold what is read for them from some bytes. -/
structure ProblemT.ReadsFrom (p : ProblemT) (bytes : List UInt8) : Prop where
  cvData : ReadFrom p.cvData p.cvSize bytes 0
  testData : ReadFrom p.testData p.testSize bytes p.cvSize.toNat
  data : ReadFrom p.data p.points bytes (p.cvSize.toNat + p.testSize.toNat)
  state : ReadFrom p.state p.stateSize bytes
    (p.cvSize.toNat + p.testSize.toNat + p.points.toNat)

theorem ReadFrom.shift (h : ReadFrom a n (bytes.drop (8 * k)) 0) : ReadFrom a n bytes k := by
  intro j hj hin
  obtain ⟨b, hb, hlt, hcell⟩ := h j hj (by rw [List.length_drop]; omega)
  rw [Nat.zero_add, wordAt_drop] at hcell
  exact ⟨b, hb, hlt, hcell⟩

/-- The four loops and the checks behind them. -/
theorem unpackSections_reads {p : ProblemT} {r : AtomReader} (hp : p.Allocated)
    (hfit : p.SectionsFit r.atoms) (ha : r.atom.length = 8) :
    if p.Loads r.atoms then
      ∃ q, unpackSections p r = some (.returned
          (r.length + UInt64.ofNat (min (8 * p.announced) r.rest.length) - 1) q) ∧
        p.SameHeader q ∧ q.ReadsFrom r.rest
    else ∃ q, unpackSections p r = some (unpackFailed q) := by
  obtain ⟨hfit₁, hfit⟩ := hfit
  obtain ⟨c₁, cv, r₁, e₁, h₁⟩ := section_reads hp.cvData hfit₁ ha
  have hm₁ : r₁.atoms = r.atoms - p.cvSize.toNat := h₁.atoms
  simp only [unpackSections, e₁, Option.bind_eq_bind, Option.bind_some]
  by_cases k₁ : r.atoms < p.cvSize.toNat
  · rw [if_neg fun hl => Nat.not_le.mpr k₁ hl.1, if_pos (h₁.short_iff.mpr k₁)]
    exact ⟨_, rfl⟩
  obtain ⟨hfit₂, hfit⟩ := hfit (Nat.not_lt.mp k₁)
  rw [← hm₁] at hfit₂ hfit
  obtain ⟨c₂, test, r₂, e₂, h₂⟩ := section_reads hp.testData hfit₂ h₁.atom
  have hm₂ : r₂.atoms = r₁.atoms - p.testSize.toNat := h₂.atoms
  simp only [if_neg (h₁.short_iff.not.mpr k₁), e₂, Option.bind_some]
  by_cases k₂ : min p.testSize.toNat r₁.atoms < p.cvSize.toNat
  · rw [if_neg fun hl => Nat.not_le.mpr k₂ (hm₁ ▸ hl.2.1), if_pos ((h₂.lt_iff _).mpr k₂)]
    exact ⟨_, rfl⟩
  obtain ⟨hfit₃, hfit⟩ := hfit (Nat.not_lt.mp k₂)
  rw [← hm₂] at hfit₃ hfit
  obtain ⟨c₃, data, r₃, e₃, h₃⟩ := section_reads hp.data hfit₃ h₂.atom
  have hm₃ : r₃.atoms = r₂.atoms - p.points.toNat := h₃.atoms
  have hshort₃ := h₃.short_iff
  simp only [if_neg ((h₂.lt_iff _).not.mpr k₂), ProblemT.points] at e₃ hshort₃ ⊢
  simp only [e₃, Option.bind_some]
  by_cases k₃ : r₂.atoms < p.points.toNat
  · rw [if_neg fun hl => Nat.not_le.mpr k₃ (hm₂ ▸ hm₁ ▸ hl.2.2.1), if_pos (hshort₃.mpr k₃)]
    exact ⟨_, rfl⟩
  have hfit₄ := hfit (Nat.not_lt.mp k₃)
  rw [← hm₃] at hfit₄
  obtain ⟨c₄, state, r₄, e₄, h₄⟩ := section_reads hp.state hfit₄ h₃.atom
  simp only [if_neg (hshort₃.not.mpr k₃), e₄, Option.bind_some]
  by_cases k₄ : r₃.atoms < p.stateSize.toNat
  · rw [if_neg fun hl => Nat.not_le.mpr k₄ (hm₃ ▸ hm₂ ▸ hm₁ ▸ hl.2.2.2),
      if_pos (h₄.short_iff.mpr k₄)]
    exact ⟨_, rfl⟩
  have hloads : p.Loads r.atoms := by
    rw [hm₁] at k₂ hm₂
    rw [hm₂] at k₃ hm₃
    rw [hm₃] at k₄
    exact ⟨Nat.not_lt.mp k₁, Nat.not_lt.mp k₂, Nat.not_lt.mp k₃, Nat.not_lt.mp k₄⟩
  have hr₂ : r₂.rest = r.rest.drop (8 * (p.cvSize.toNat + p.testSize.toNat)) := by
    rw [h₂.rest, h₁.rest, List.drop_drop, Nat.mul_add]
  have hr₃ : r₃.rest =
      r.rest.drop (8 * (p.cvSize.toNat + p.testSize.toNat + p.points.toNat)) := by
    rw [h₃.rest, hr₂, List.drop_drop, ← Nat.mul_add]
  rw [if_pos hloads]
  refine ⟨{ p with cvData := cv, testData := test, data := data, state := state }, ?_,
    ⟨rfl, rfl, rfl, rfl, rfl, rfl, rfl, rfl⟩, ?_, ?_, ?_, ?_⟩
  · rw [if_neg (h₄.short_iff.not.mpr k₄), h₄.length, h₃.length, h₂.length, h₁.length, hr₃, hr₂,
      h₁.rest, List.length_drop, List.length_drop, List.length_drop, UInt64.add_assoc,
      UInt64.add_assoc, UInt64.add_assoc, ← UInt64.ofNat_add, ← UInt64.ofNat_add,
      ← UInt64.ofNat_add]
    rw [ProblemT.announced]
    congr 5
    omega
  · exact h₁.elements
  · apply ReadFrom.shift
    exact h₁.rest ▸ h₂.elements
  · apply ReadFrom.shift
    exact hr₂ ▸ h₃.elements
  · apply ReadFrom.shift
    exact hr₃ ▸ h₄.elements

def headerOf (file : List UInt8) : ProblemT := unpackHeader .zero ((file.drop 48).take 48)

theorem headerOf_same (p : ProblemT) (file : List UInt8) :
    (headerOf file).SameHeader (unpackHeader p ((file.drop 48).take 48)) :=
  ⟨rfl, rfl, rfl, rfl, rfl, rfl, rfl, rfl⟩

theorem headerOf_fitsFile (file : List UInt8) : (headerOf file).FitsFile := by
  have hshort : ∀ bin offset, (UInt32.ofNat (field bin offset 2)).toNat < 2 ^ 16 := by
    intro bin offset
    have hlt := field_lt bin offset 2
    rw [UInt32.toNat_ofNat']
    omega
  have hint : ∀ bin offset, (UInt64.ofNat (field bin offset 4)).toNat < 2 ^ 32 := by
    intro bin offset
    have hlt := field_lt bin offset 4
    rw [UInt64.toNat_ofNat']
    omega
  exact ⟨hshort _ 0, hshort _ 2, hint _ 16, hint _ 20⟩

theorem ProblemT.Loads.congr {p q : ProblemT} (h : p.SameHeader q) : q.Loads m ↔ p.Loads m := by
  unfold Loads
  rw [h.cvSize, h.testSize, h.points, h.stateSize]

theorem ProblemT.SameHeader.announced {p q : ProblemT} (h : p.SameHeader q) :
    q.announced = p.announced := by
  unfold ProblemT.announced
  rw [h.cvSize, h.testSize, h.points, h.stateSize]

section Files

variable {W : Type} {env : UnpackEnv W} {w : W} {p q : ProblemT} {file : List UInt8}

theorem unpackAlloc_header (ha : unpackAlloc env w p = .ok q) : p.SameHeader q := by
  simp only [unpackAlloc] at ha
  split at ha
  · cases ha
  · split at ha
    · cases ha
    · split at ha
      · cases ha
      · split at ha
        · cases ha
        · cases ha
          exact ⟨rfl, rfl, rfl, rfl, rfl, rfl, rfl, rfl⟩

/-- The file is loaded: it has a header, the allocations succeed, and the checks behind the loops
pass. -/
def LoadsWith (env : UnpackEnv W) (w : W) (p : ProblemT) (file : List UInt8) : Prop :=
  96 ≤ file.length ∧
  (∃ q, unpackAlloc env w (unpackHeader p ((file.drop 48).take 48)) = .ok q) ∧
  (headerOf file).Loads ((file.length - 96) / 8)

/-- What a run without an access outside the arrays comes to. -/
theorem problemUnpack_reads (hx : env.Exact) (hd : problemUnpack env w p file ≠ none) :
    (LoadsWith env w p file →
      ∃ q, problemUnpack env w p file = some (.returned (env.length + 48 +
          UInt64.ofNat (min (8 * (headerOf file).announced) (file.length - 96)) - 1) q) ∧
        (headerOf file).SameHeader q ∧ q.ReadsFrom (file.drop 96)) ∧
    (¬ LoadsWith env w p file →
      ∃ freed q, problemUnpack env w p file = some (.failed freed q)) := by
  by_cases hlen : 96 ≤ file.length
  case neg =>
    rw [problemUnpack_short (Nat.not_le.mp hlen)]
    exact ⟨fun h => (hlen h.1).elim, fun _ => ⟨_, _, rfl⟩⟩
  cases ha : unpackAlloc env w (unpackHeader p ((file.drop 48).take 48)) with
  | error e =>
    rw [problemUnpack_long hlen, ha]
    refine ⟨?_, fun _ => ⟨_, _, rfl⟩⟩
    rintro ⟨_, ⟨q, hq⟩, _⟩
    cases ha.symm.trans hq
  | ok p' =>
    have hsame : (headerOf file).SameHeader p' :=
      (headerOf_same p file).trans (unpackAlloc_header ha)
    obtain ⟨hp', _⟩ := unpackAlloc_allocated hx ha
    rw [problemUnpack_long hlen, ha] at hd ⊢
    have hrest : AtomReader.atoms ⟨file.drop 96, env.atom.toList, env.length + 48⟩ =
        (file.length - 96) / 8 := by
      rw [AtomReader.atoms, List.length_drop]
    have hfit := (unpackSections_iff hp' _ Vector.length_toList).mp hd
    have hreads := unpackSections_reads hp' hfit Vector.length_toList
    rw [hrest] at hreads
    constructor
    · intro hl
      rw [if_pos ((ProblemT.Loads.congr hsame).mpr hl.2.2)] at hreads
      obtain ⟨q, he, hq, hfrom⟩ := hreads
      rw [hsame.announced, List.length_drop] at he
      exact ⟨q, he, hsame.trans hq, hfrom⟩
    · intro hl
      have hnot : ¬ (headerOf file).Loads ((file.length - 96) / 8) :=
        fun hloads => hl ⟨hlen, ⟨p', ha⟩, hloads⟩
      rw [if_neg ((ProblemT.Loads.congr hsame).not.mpr hnot)] at hreads
      obtain ⟨q, he⟩ := hreads
      exact ⟨_, q, he⟩

end Files

end Aiqb
