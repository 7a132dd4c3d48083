import Aiqb.UnpackChecked

namespace Aiqb
set_option autoImplicit true

open LittleEndian

/-- The header of the file decodes to that of the problem, and behind it there are as many atoms as
it announces. -/
structure ProblemT.DescribedBy (p : ProblemT) (file : List UInt8) : Prop where
  header : p.SameHeader (headerOf file)
  atoms : file.length = (headerOf file).fileLength

section Headers

variable {p : ProblemT} {file : List UInt8}

theorem ProblemT.FitsFile.congr {q : ProblemT} (h : p.SameHeader q) (hq : q.FitsFile) :
    p.FitsFile := by
  constructor
  · rw [← h.type]
    exact hq.type
  · rw [← h.optm]
    exact hq.optm
  · rw [← h.sizeX]
    exact hq.sizeX
  · rw [← h.sizeY]
    exact hq.sizeY

theorem packAtoms_length (h : packAtoms p = some atoms) : atoms.length = p.announced := by
  simp only [packAtoms, Option.bind_eq_bind, Option.bind_eq_some_iff, Option.some.injEq] at h
  obtain ⟨cv, hcv, test, htest, data, hdata, state, hstate, rfl⟩ := h
  rw [List.length_append, List.length_append, List.length_append, readArray_length hcv,
    readArray_length htest, readArray_length hdata, readArray_length hstate, ProblemT.announced]

theorem headerOf_append {metadata : List UInt8} (hm : metadata.length = 48)
    (pad : HeaderPadding) (rest : List UInt8) :
    headerOf (metadata ++ headerBytes p pad ++ rest) = unpackHeader .zero (headerBytes p pad) := by
  rw [headerOf, List.append_assoc, List.drop_left' hm, List.take_left' (headerBytes_length p pad)]

theorem ProblemT.FitsFile.points_iff (hf : p.FitsFile) :
    p.points.toNat = p.elements ↔ p.elements < 2 ^ 64 := by
  have hx := hf.sizeX
  have hy := hf.sizeY
  have hsum : (p.sizeX + p.sizeY).toNat = p.sizeX.toNat + p.sizeY.toNat := by
    rw [UInt64.toNat_add]
    omega
  rw [ProblemT.points, UInt64.toNat_mul, hsum, ← ProblemT.elements]
  constructor
  · intro h
    rw [← h]
    exact Nat.mod_lt _ (Nat.two_pow_pos 64)
  · exact Nat.mod_eq_of_lt

/-- A packed file describes the problem exactly where its values fit the fields of the header, and
its training data can be counted. -/
theorem packed_described_iff (h : problemPack env p fileHeader = some (.written file length)) :
    p.DescribedBy file ↔ p.FitsFile ∧ p.elements < 2 ^ 64 := by
  obtain ⟨atoms, hatoms, _, rfl⟩ := problemPack_written h
  have hm := metadataBytes_length (packMetadata fileHeader env.now) env.metadataPadding
  generalize metadataBytes (packMetadata fileHeader env.now) env.metadataPadding = metadata at hm
  have hheader := headerOf_append (p := p) hm env.headerPadding (atomsBytes atoms)
  have hlen : (metadata ++ headerBytes p env.headerPadding ++ atomsBytes atoms).length =
      96 + 8 * p.announced := by
    rw [List.length_append, List.length_append, hm, headerBytes_length, atomsBytes_length,
      packAtoms_length hatoms]
  have hcount : p.fileLength = 96 + 8 * p.announced ↔ p.points.toNat = p.elements := by
    rw [ProblemT.fileLength, ProblemT.announced]
    omega
  constructor
  · rintro ⟨hsame, hcontents⟩
    have hf := (headerOf_fitsFile _).congr hsame
    rw [hsame.fileLength, hlen] at hcontents
    exact ⟨hf, hf.points_iff.mp (hcount.mp hcontents.symm)⟩
  · rintro ⟨hf, hfits⟩
    have hsame : p.SameHeader (headerOf (metadata ++ headerBytes p env.headerPadding ++
        atomsBytes atoms)) := by
      rw [hheader, unpackHeader_headerBytes hf]
      exact ⟨rfl, rfl, rfl, rfl, rfl, rfl, rfl, rfl⟩
    refine ⟨hsame, ?_⟩
    rw [hsame.fileLength, hlen]
    exact (hcount.mpr (hf.points_iff.mpr hfits)).symm

end Headers

theorem packed_described_iff_oneRow : ∃ file length,
    problemPack .sample (.oneRow 0) none = some (.written file length) ∧ length ≠ 0 ∧
      ((ProblemT.oneRow 0).DescribedBy file ↔
        (ProblemT.oneRow 0).FitsFile ∧ (ProblemT.oneRow 0).elements < 2 ^ 64) := by
  have hpack : ∃ file, problemPack .sample (.oneRow 0) none = some (.written file 56) := ⟨_, rfl⟩
  obtain ⟨file, hfile⟩ := hpack
  exact ⟨file, 56, hfile, by decide, packed_described_iff hfile⟩

/-- The type 65536 becomes 0 in the file. -/
theorem packed_not_described : ∃ file length,
    problemPack .sample { ProblemT.oneRow 0 with type := 65536 } none =
      some (.written file length) ∧ length ≠ 0 ∧ (headerOf file).type = 0 ∧
      ¬ { ProblemT.oneRow 0 with type := 65536 }.DescribedBy file := by
  refine ⟨_, 56, rfl, by decide, rfl, ?_⟩
  intro hdescribed
  have htype := hdescribed.header.type
  revert htype
  decide

end Aiqb
