import Aiqb.UnpackReads

namespace Aiqb
set_option autoImplicit true

open LittleEndian

/-- The byte counts of the four arrays do not wrap. -/
structure ProblemT.NoOverflow (p : ProblemT) : Prop where
  cvData : p.cvSize.toNat * 8 < 2 ^ 64
  testData : p.testSize.toNat * 8 < 2 ^ 64
  data : p.elements * 8 < 2 ^ 64
  state : p.stateSize.toNat * 8 < 2 ^ 64

/-- Each element was filled from eight bytes of the file, at its position. -/
def FilledFrom (a : Option Block) (n : Nat) (file : List UInt8) (offset : Nat) : Prop :=
  ∀ j < n, offset + 8 * j + 8 ≤ file.length ∧
    ∃ b, a = some b ∧ j < b.length ∧ b.cells j = UInt64.ofNat (field file (offset + 8 * j) 8)

structure ProblemT.FilledFrom (p : ProblemT) (file : List UInt8) : Prop where
  cvData : Aiqb.FilledFrom p.cvData p.cvSize.toNat file 96
  testData : Aiqb.FilledFrom p.testData p.testSize.toNat file (96 + 8 * p.cvSize.toNat)
  data : Aiqb.FilledFrom p.data p.elements file (96 + 8 * (p.cvSize.toNat + p.testSize.toNat))
  state : Aiqb.FilledFrom p.state p.stateSize.toNat file
    (96 + 8 * (p.cvSize.toNat + p.testSize.toNat + p.elements))

def ProblemT.fileLength (p : ProblemT) : Nat :=
  96 + 8 * (p.cvSize.toNat + p.testSize.toNat + p.elements + p.stateSize.toNat)

/-- The file ends inside the section of the test indices, behind as many of them as there are
indices for cross validation, and announces nothing behind that section. -/
def EndsInTest (file : List UInt8) : Prop :=
  96 ≤ file.length ∧ (headerOf file).elements = 0 ∧ (headerOf file).stateSize = 0 ∧
    2 * (headerOf file).cvSize.toNat ≤ (file.length - 96) / 8 ∧
    (file.length - 96) / 8 < (headerOf file).cvSize.toNat + (headerOf file).testSize.toNat

section Sizes

variable {p q : ProblemT}

theorem ProblemT.NoOverflow.points (h : p.NoOverflow) : p.points.toNat = p.elements := by
  have hlt := h.data
  rw [ProblemT.elements] at hlt ⊢
  have hle : p.sizeX.toNat + p.sizeY.toNat < 2 ^ 64 ∨ p.rows.toNat = 0 := by
    by_cases h0 : p.rows.toNat = 0
    · exact .inr h0
    · have := Nat.le_mul_of_pos_left (p.sizeX.toNat + p.sizeY.toNat) (Nat.pos_of_ne_zero h0)
      omega
  rw [ProblemT.points, UInt64.toNat_mul, UInt64.toNat_add]
  rcases hle with hle | h0
  · rw [Nat.mod_eq_of_lt hle]
    exact Nat.mod_eq_of_lt (by omega)
  · rw [h0, Nat.zero_mul, Nat.zero_mul, Nat.zero_mod]

theorem ProblemT.SameHeader.elements (h : p.SameHeader q) : q.elements = p.elements := by
  rw [ProblemT.elements, ProblemT.elements, h.rows, h.sizeX, h.sizeY]

theorem ProblemT.SameHeader.fileLength (h : p.SameHeader q) : q.fileLength = p.fileLength := by
  rw [ProblemT.fileLength, ProblemT.fileLength, h.cvSize, h.testSize, h.elements, h.stateSize]

theorem ProblemT.NoOverflow.congr (h : p.SameHeader q) (hp : p.NoOverflow) : q.NoOverflow := by
  constructor
  · rw [h.cvSize]
    exact hp.cvData
  · rw [h.testSize]
    exact hp.testData
  · rw [h.elements]
    exact hp.data
  · rw [h.stateSize]
    exact hp.state

theorem ProblemT.NoOverflow.sectionsFit (h : p.NoOverflow) (m : Nat) : p.SectionsFit m := by
  have hcv := h.cvData
  have htest := h.testData
  have hdata := h.data
  have hstate := h.state
  rw [← h.points] at hdata
  have hfit : ∀ (n : UInt64) (k : Nat), n.toNat * 8 < 2 ^ 64 → SectionFits n k := by
    intro n k hn
    exact .inl (by omega)
  exact ⟨hfit _ _ hcv, fun _ => ⟨hfit _ _ htest, fun _ => ⟨hfit _ _ hdata,
    fun _ => hfit _ _ hstate⟩⟩⟩

theorem ProblemT.NoOverflow.announced (h : p.NoOverflow) :
    p.fileLength = 96 + 8 * p.announced := by
  rw [ProblemT.fileLength, ProblemT.announced, h.points]

end Sizes

theorem ReadFrom.filled (h : ReadFrom a n (file.drop 96) first)
    (hend : 96 + 8 * (first + n.toNat) ≤ file.length) :
    FilledFrom a n.toNat file (96 + 8 * first) := by
  intro j hj
  obtain ⟨b, hb, hlt, hcell⟩ := h j hj (by rw [List.length_drop]; omega)
  refine ⟨by omega, b, hb, hlt, ?_⟩
  rw [hcell, wordAt, field, field, List.drop_drop]
  congr 4
  omega

theorem ProblemT.ReadsFrom.filled {p : ProblemT} (h : p.ReadsFrom (file.drop 96))
    (hno : p.NoOverflow) (hend : p.fileLength ≤ file.length) : p.FilledFrom file := by
  rw [ProblemT.fileLength] at hend
  have hpoints := hno.points
  constructor
  · exact h.cvData.filled (by omega)
  · exact h.testData.filled (by omega)
  · rw [← hpoints]
    exact h.data.filled (by omega)
  · rw [← hpoints]
    exact h.state.filled (by omega)

section Files

variable {W : Type} {env : UnpackEnv W} {file : List UInt8}

theorem problemUnpack_defined (hx : env.Exact) (hno : (headerOf file).NoOverflow) (w : W)
    (p : ProblemT) : problemUnpack env w p file ≠ none := by
  by_cases hlen : 96 ≤ file.length
  · cases ha : unpackAlloc env w (unpackHeader p ((file.drop 48).take 48)) with
    | ok q =>
      apply (problemUnpack_ok hx hlen ha).mpr
      exact .inr (hno.sectionsFit _)
    | error e =>
      rw [problemUnpack_long hlen, ha]
      exact Option.some_ne_none _
  · rw [problemUnpack_short (Nat.not_le.mp hlen)]
    exact Option.some_ne_none _

theorem loadsWith_iff (hg : env.Grants) (w : W) (p : ProblemT) (file : List UInt8) :
    LoadsWith env w p file ↔
      96 ≤ file.length ∧ (headerOf file).Loads ((file.length - 96) / 8) := by
  constructor
  · rintro ⟨hlen, _, hloads⟩
    exact ⟨hlen, hloads⟩
  · rintro ⟨hlen, hloads⟩
    exact ⟨hlen, unpackAlloc_granted hg w _, hloads⟩

/-- The checks pass for the complete files, and for those that end inside the test indices. -/
theorem loads_iff (hno : (headerOf file).NoOverflow) (hlen : 96 ≤ file.length) :
    (headerOf file).Loads ((file.length - 96) / 8) ↔
      (headerOf file).fileLength ≤ file.length ∧
        (headerOf file).cvSize.toNat ≤ (headerOf file).testSize.toNat ∨ EndsInTest file := by
  rw [ProblemT.Loads, hno.points, EndsInTest, ProblemT.fileLength, ← UInt64.toNat_inj,
    UInt64.toNat_zero]
  omega

/-- A load that returns has filled its arrays from the file, and a shorter file than announced is
refused, exactly where the file does not end in the section that is checked against the wrong
size. -/
theorem loads_only_file_iff (hg : env.Grants) (hno : (headerOf file).NoOverflow) (w : W)
    (p : ProblemT) :
    ((∀ n q, problemUnpack env w p file = some (.returned n q) → q.FilledFrom file) ∧
      (file.length < (headerOf file).fileLength →
        ∃ freed q, problemUnpack env w p file = some (.failed freed q))) ↔
      ¬ EndsInTest file := by
  obtain ⟨hreturned, hfailed⟩ :=
    problemUnpack_reads hg.exact (problemUnpack_defined hg.exact hno w p)
  constructor
  · rintro ⟨_, hshort⟩ hend
    have hloads := (loads_iff hno hend.1).mpr (.inr hend)
    obtain ⟨q, he, _⟩ := hreturned ((loadsWith_iff hg w p file).mpr ⟨hend.1, hloads⟩)
    have hlen : file.length < (headerOf file).fileLength := by
      have hlt := hend.2.2.2.2
      rw [ProblemT.fileLength]
      omega
    obtain ⟨freed, q', he'⟩ := hshort hlen
    cases he.symm.trans he'
  · intro hend
    by_cases hl : LoadsWith env w p file
    · have hlen : (headerOf file).fileLength ≤ file.length := by
        rcases (loads_iff hno hl.1).mp hl.2.2 with hcomplete | hends
        · exact hcomplete.1
        · exact (hend hends).elim
      obtain ⟨q, he, hsame, hreads⟩ := hreturned hl
      constructor
      · intro n q' he'
        cases he.symm.trans he'
        apply hreads.filled (hno.congr hsame)
        rw [hsame.fileLength]
        exact hlen
      · intro hshort
        exact absurd hlen (Nat.not_le.mpr hshort)
    · obtain ⟨freed, q, he⟩ := hfailed hl
      constructor
      · intro n q' he'
        cases he.symm.trans he'
      · intro _
        exact ⟨freed, q, he⟩

end Files

def testOnlyFile : List UInt8 := .replicate 80 0 ++ [1] ++ .replicate 15 0

theorem testOnlyFile_noOverflow : (headerOf testOnlyFile).NoOverflow := by
  constructor <;> decide

theorem loads_only_file_iff_testOnly :
    ((∀ n q, problemUnpack .sample 16 .zero testOnlyFile = some (.returned n q) →
        q.FilledFrom testOnlyFile) ∧
      (testOnlyFile.length < (headerOf testOnlyFile).fileLength →
        ∃ freed q, problemUnpack .sample 16 .zero testOnlyFile = some (.failed freed q))) ↔
      ¬ EndsInTest testOnlyFile :=
  loads_only_file_iff UnpackEnv.sample_grants testOnlyFile_noOverflow 16 .zero

/-- The test index is not in the file, and the load returns. -/
theorem loads_beyond_file :
    (headerOf testOnlyFile).NoOverflow ∧ testOnlyFile.length = 96 ∧
      (headerOf testOnlyFile).fileLength = 104 ∧
      ∃ n q, problemUnpack .sample 16 .zero testOnlyFile = some (.returned n q) ∧
        ¬ q.FilledFrom testOnlyFile := by
  refine ⟨testOnlyFile_noOverflow, rfl, rfl, _, _, rfl, ?_⟩
  intro hfilled
  have hend := (hfilled.testData 0 (by decide)).1
  revert hend
  decide

end Aiqb
