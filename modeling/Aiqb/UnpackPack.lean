import Aiqb.UnpackChecked

namespace Aiqb
set_option autoImplicit true

open LittleEndian

theorem atomBytes_wordAt (hj : 8 * j + 8 ≤ bytes.length) :
    atomBytes (wordAt bytes j) = (bytes.drop (8 * j)).take 8 := by
  have hlt : field bytes (8 * j) 8 < 2 ^ 64 := field_lt bytes (8 * j) 8
  rw [atomBytes, wordAt, UInt64.toNat_ofNat_of_lt' hlt]
  exact encode_field hj

theorem atomsBytes_words (hn : 8 * n ≤ bytes.length) :
    atomsBytes ((List.range n).map (wordAt bytes)) = bytes.take (8 * n) := by
  induction n with
  | zero => rfl
  | succ n ih =>
    rw [List.range_succ, List.map_append, atomsBytes_append, ih (by omega), List.map_singleton,
      atomsBytes_cons, atomsBytes_nil, List.append_nil, atomBytes_wordAt (by omega), Nat.mul_succ,
      List.take_add]

theorem ReadFrom.readArray (h : ReadFrom a n bytes first)
    (hend : 8 * (first + n.toNat) ≤ bytes.length) :
    readArray a n.toNat =
      some ((List.range n.toNat).map fun j => wordAt bytes (first + j)) := by
  by_cases h0 : n.toNat = 0
  · rw [h0]
    rfl
  · obtain ⟨b, rfl, hlt, _⟩ := h (n.toNat - 1) (by omega) (by omega)
    rw [readArray_some (by omega)]
    congr 1
    apply List.map_congr_left
    intro j hj
    have hj' := List.mem_range.mp hj
    obtain ⟨_, ⟨⟩, _, hcell⟩ := h j hj' (by omega)
    exact hcell

theorem words_append (f : Nat → UInt64) (m n : Nat) :
    (List.range m).map f ++ (List.range n).map (fun j => f (m + j)) =
      (List.range (m + n)).map f := by
  rw [List.range_add, List.map_append, List.map_map]
  rfl

theorem ProblemT.ReadsFrom.packAtoms {p : ProblemT} (h : p.ReadsFrom bytes)
    (hend : 8 * p.announced ≤ bytes.length) :
    packAtoms p = some ((List.range p.announced).map (wordAt bytes)) := by
  rw [ProblemT.announced] at hend ⊢
  have hcv := h.cvData.readArray (by omega)
  have htest := h.testData.readArray (by omega)
  have hdata := h.data.readArray (by omega)
  have hstate := h.state.readArray (by omega)
  simp only [Nat.zero_add] at hcv
  simp only [Aiqb.packAtoms, hcv, htest, hdata, hstate, Option.bind_eq_bind, Option.bind_some,
    words_append]

def slice (file : List UInt8) (offset n : Nat) : List UInt8 := (file.drop offset).take n

theorem slice_append (file : List UInt8) (offset m n : Nat) :
    slice file offset m ++ slice file (offset + m) n = slice file offset (m + n) := by
  rw [slice, slice, slice, List.take_add, List.drop_drop]

theorem toUInt16_ofNat (h : n < 2 ^ 16) : (UInt32.ofNat n).toUInt16.toNat = n := by
  rw [UInt32.toNat_toUInt16, UInt32.toNat_ofNat']
  omega

theorem toUInt32_ofNat (h : n < 2 ^ 32) : (UInt64.ofNat n).toUInt32.toNat = n := by
  rw [UInt64.toNat_toUInt32, UInt64.toNat_ofNat']
  omega

theorem headerBytes_headerOf (hlen : 96 ≤ file.length) (pad : HeaderPadding) :
    headerBytes (headerOf file) pad = slice file 48 4 ++ pad.toList ++ slice file 56 40 := by
  generalize hbin : (file.drop 48).take 48 = bin
  have hbl : bin.length = 48 := by
    rw [← hbin, List.length_take, List.length_drop]
    omega
  have hslice : ∀ offset w, offset + w ≤ 48 →
      encode w (field bin offset w) = slice file (48 + offset) w := by
    intro offset w h
    rw [encode_field (by omega), ← hbin, List.drop_take, List.drop_drop, List.take_take, slice]
    congr 1
    omega
  have hwide : ∀ offset, (UInt64.ofNat (field bin offset 8)).toNat = field bin offset 8 :=
    fun offset => UInt64.toNat_ofNat_of_lt' (field_lt bin offset 8)
  have hshort : ∀ offset, (UInt32.ofNat (field bin offset 2)).toUInt16.toNat = field bin offset 2 :=
    fun offset => toUInt16_ofNat (field_lt bin offset 2)
  have hint : ∀ offset, (UInt64.ofNat (field bin offset 4)).toUInt32.toNat = field bin offset 4 :=
    fun offset => toUInt32_ofNat (field_lt bin offset 4)
  rw [headerBytes, headerOf, hbin]
  simp only [unpackHeader, hwide, hshort, hint]
  rw [hslice 0 2 (by omega), hslice 2 2 (by omega), hslice 8 8 (by omega), hslice 16 4 (by omega),
    hslice 20 4 (by omega), hslice 24 8 (by omega), hslice 32 8 (by omega), hslice 40 8 (by omega)]
  simp only [List.append_assoc, slice_append]

theorem headerBytes_congr {p q : ProblemT} (h : p.SameHeader q) (pad : HeaderPadding) :
    headerBytes q pad = headerBytes p pad := by
  rw [headerBytes, h.type, h.optm, h.rows, h.sizeX, h.sizeY, h.cvSize, h.testSize, h.stateSize]
  rfl

/-- Two files agree behind the metadata up to an offset, but for the padding of the header. -/
def AgreeUpTo (file file' : List UInt8) (last : Nat) : Prop :=
  ∀ i, 48 ≤ i → i < last → i < 52 ∨ 56 ≤ i → file[i]? = file'[i]?

theorem agree_of_slices {metadata pad : List UInt8} (hm : metadata.length = 48)
    (hp : pad.length = 4) (hlast : 96 ≤ last) (hfile : last ≤ file.length) :
    AgreeUpTo
      (metadata ++ (slice file 48 4 ++ pad ++ slice file 56 40) ++ slice file 96 (last - 96))
      file last := by
  have hs : ∀ offset n, offset + n ≤ file.length → (slice file offset n).length = n := by
    intro offset n h
    rw [slice, List.length_take, List.length_drop]
    omega
  have hrest : slice file 56 40 ++ slice file 96 (last - 96) = slice file 56 (last - 56) := by
    rw [slice_append file 56 40 (last - 96)]
    congr 1
    omega
  intro i hi hlt hout
  rw [List.append_assoc, List.append_assoc, hrest, List.append_assoc,
    List.getElem?_append_right (by omega), hm]
  by_cases h52 : i < 52
  · rw [List.getElem?_append_left (by rw [hs 48 4 (by omega)]; omega), slice,
      List.getElem?_take_of_lt (by omega), List.getElem?_drop]
    congr 1
    omega
  · rw [List.getElem?_append_right (by rw [hs 48 4 (by omega)]; omega), hs 48 4 (by omega),
      List.getElem?_append_right (by omega), hp, slice, List.getElem?_take_of_lt (by omega),
      List.getElem?_drop]
    congr 1
    omega

theorem headerOf_sizeX (file : List UInt8) :
    (headerOf file).sizeX.toUInt32.toNat = (headerOf file).sizeX.toNat := by
  rw [UInt64.toNat_toUInt32]
  exact Nat.mod_eq_of_lt (headerOf_fitsFile file).sizeX

section Files

variable {W : Type} {env : UnpackEnv W} {w : W} {p q : ProblemT} {file : List UInt8}

/-- An accepted file with a training point is there in full. -/
theorem unpacked_complete (hg : env.Grants) (hno : (headerOf file).NoOverflow)
    (hpos : 0 < (headerOf file).elements)
    (hres : problemUnpack env w p file = some (.returned n q)) :
    (headerOf file).SameHeader q ∧ q.ReadsFrom (file.drop 96) ∧
      (headerOf file).fileLength ≤ file.length := by
  obtain ⟨hreturned, hfailed⟩ :=
    problemUnpack_reads hg.exact (problemUnpack_defined hg.exact hno w p)
  have hl : LoadsWith env w p file := by
    by_contra hnot
    obtain ⟨freed, q', he⟩ := hfailed hnot
    cases he.symm.trans hres
  obtain ⟨q', he, hsame, hreads⟩ := hreturned hl
  cases he.symm.trans hres
  refine ⟨hsame, hreads, ?_⟩
  rcases (loads_iff hno hl.1).mp hl.2.2 with hcomplete | hends
  · exact hcomplete.1
  · exact absurd hends.2.1 (Nat.ne_of_gt hpos)

/-- Packing an accepted file again writes the bytes that it announces. -/
theorem pack_unpacked (hg : env.Grants) (hno : (headerOf file).NoOverflow)
    (hrows : 1 ≤ (headerOf file).rows) (hsizeX : 1 ≤ (headerOf file).sizeX)
    (hres : problemUnpack env w p file = some (.returned n q)) (pack : PackEnv)
    (fileHeader : Option FileHeader) :
    ∃ bytes length, problemPack pack q fileHeader = some (.written bytes length) ∧
      bytes.length = (headerOf file).fileLength ∧
      AgreeUpTo bytes file (headerOf file).fileLength := by
  rw [UInt64.le_iff_toNat_le, UInt64.toNat_one] at hrows hsizeX
  have hpos : 0 < (headerOf file).elements :=
    Nat.mul_pos hrows (Nat.lt_of_lt_of_le hsizeX (Nat.le_add_right _ _))
  obtain ⟨hsame, hreads, hcomplete⟩ := unpacked_complete hg hno hpos hres
  have hlength := hno.announced
  have hbytes : 8 * q.announced ≤ (file.drop 96).length := by
    rw [hsame.announced, List.length_drop]
    omega
  have hpoints : q.points.toNat = (headerOf file).elements := by
    rw [hsame.points, hno.points]
  have hguard : ¬ (q.rows = 0 ∨ q.sizeX.toUInt32 = 0 ∨ q.data = none) := by
    rw [hsame.rows, hsame.sizeX]
    rintro (h0 | h0 | h0)
    · rw [h0] at hrows
      cases hrows
    · rw [← headerOf_sizeX, h0] at hsizeX
      cases hsizeX
    · have hend : 8 * (q.cvSize.toNat + q.testSize.toNat + 0 + 1) ≤ (file.drop 96).length := by
        rw [ProblemT.announced] at hbytes
        omega
      obtain ⟨b, hb, _⟩ := hreads.data 0 (by omega) hend
      rw [h0] at hb
      cases hb
  have hpacked : problemPack pack q fileHeader = some (.written
      (metadataBytes (packMetadata fileHeader pack.now) pack.metadataPadding ++
        (slice file 48 4 ++ pack.headerPadding.toList ++ slice file 56 40) ++
        slice file 96 ((headerOf file).fileLength - 96))
      (48 + 8 * UInt64.ofNat q.announced)) := by
    have hatoms : slice file 96 ((headerOf file).fileLength - 96) =
        (file.drop 96).take (8 * q.announced) := by
      rw [slice, hlength, hsame.announced, Nat.add_sub_cancel_left]
    rw [problemPack, if_neg hguard, hreads.packAtoms hbytes, Option.map_some,
      headerBytes_congr hsame, headerBytes_headerOf (by omega), atomsBytes_words hbytes, hatoms,
      List.length_map, List.length_range]
  refine ⟨_, _, hpacked, ?_, ?_⟩
  · simp only [List.length_append, metadataBytes_length, Vector.length_toList, slice,
      List.length_take, List.length_drop]
    omega
  · exact agree_of_slices (metadataBytes_length _ _) Vector.length_toList (by omega) hcomplete

end Files

def twoRowsFile : List UInt8 :=
  .replicate 48 0 ++ [1, 0, 1, 0, 0, 0, 0, 0] ++ [2, 0, 0, 0, 0, 0, 0, 0] ++ [1, 0, 0, 0] ++
    [1, 0, 0, 0] ++ [1, 2, 1, 3, 4, 5, 6, 7, 8, 9, 10].flatMap fun k => [k, 0, 0, 0, 0, 0, 0, 0]

theorem twoRowsFile_noOverflow : (headerOf twoRowsFile).NoOverflow := by
  constructor <;> decide

theorem pack_unpacked_twoRows : ∃ n q,
    problemUnpack .sample 16 .zero twoRowsFile = some (.returned n q) ∧
    ∃ bytes length, problemPack .sample q none = some (.written bytes length) ∧
      bytes.length = (headerOf twoRowsFile).fileLength ∧
      AgreeUpTo bytes twoRowsFile (headerOf twoRowsFile).fileLength := by
  refine ⟨_, _, rfl, ?_⟩
  exact pack_unpacked (w := 16) (p := .zero) UnpackEnv.sample_grants twoRowsFile_noOverflow
    (by decide) (by decide) rfl .sample none

end Aiqb
