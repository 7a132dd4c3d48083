import Aiqb.Pack

namespace Aiqb
set_option autoImplicit true

open LittleEndian

@[simp] theorem magic_length : magic.length = 4 := rfl

@[simp] theorem metadataBytes_length (h : FileHeader) (pad : MetadataPadding) :
    (metadataBytes h pad).length = 48 := by
  simp [metadataBytes]

@[simp] theorem headerBytes_length (p : ProblemT) (pad : HeaderPadding) :
    (headerBytes p pad).length = 48 := by
  simp [headerBytes]

@[simp] theorem atomsBytes_nil : atomsBytes [] = [] := rfl

@[simp] theorem atomsBytes_cons (v : UInt64) (vs : List UInt64) :
    atomsBytes (v :: vs) = atomBytes v ++ atomsBytes vs := List.flatMap_cons

theorem atomsBytes_append (vs us : List UInt64) :
    atomsBytes (vs ++ us) = atomsBytes vs ++ atomsBytes us := List.flatMap_append

@[simp] theorem atomBytes_length (v : UInt64) : (atomBytes v).length = 8 := encode_length 8 _

@[simp] theorem atomsBytes_length (vs : List UInt64) :
    (atomsBytes vs).length = 8 * vs.length := by
  induction vs with
  | nil => rfl
  | cons v vs ih =>
    rw [atomsBytes_cons, List.length_append, atomBytes_length, ih, List.length_cons]
    omega

theorem decode_atomBytes (v : UInt64) : UInt64.ofNat (decode (atomBytes v)) = v := by
  rw [atomBytes, decode_encode_of_lt v.toNat_lt, UInt64.ofNat_toNat]

theorem readMetadata_metadataBytes (h : FileHeader) (pad : MetadataPadding) (rest : List UInt8) :
    problemReadMetadata (metadataBytes h pad ++ rest) = some h := by
  have htake : (metadataBytes h pad ++ rest).take 48 = metadataBytes h pad :=
    List.take_left' (metadataBytes_length h pad)
  have hmagic : (metadataBytes h pad).take 4 = magic := by
    simp only [metadataBytes, List.append_assoc]
    exact List.take_left' rfl
  have hid : field (metadataBytes h pad) 8 8 = h.id.toNat := by
    simp (disch := simp only [magic_length, Vector.length_toList, encode_length]; omega) only
      [metadataBytes, List.append_assoc, field_skip, magic_length, Vector.length_toList,
        Nat.reduceSub, field_uint64]
  have hparent : field (metadataBytes h pad) 16 8 = h.parent.toNat := by
    simp (disch := simp only [magic_length, Vector.length_toList, encode_length]; omega) only
      [metadataBytes, List.append_assoc, field_skip, magic_length, Vector.length_toList,
        encode_length, Nat.reduceSub, field_uint64]
  have hpriority : field (metadataBytes h pad) 24 2 = h.priority.toNat := by
    simp (disch := simp only [magic_length, Vector.length_toList, encode_length]; omega) only
      [metadataBytes, List.append_assoc, field_skip, magic_length, Vector.length_toList,
        encode_length, Nat.reduceSub, field_uint16]
  have htime : field (metadataBytes h pad) 32 8 = h.time.toNat := by
    simp (disch := simp only [magic_length, Vector.length_toList, encode_length]; omega) only
      [metadataBytes, List.append_assoc, field_skip, magic_length, Vector.length_toList,
        encode_length, Nat.reduceSub, field_uint64]
  have hstatus : field (metadataBytes h pad) 40 1 = h.status.toNat := by
    simp (disch := simp only [magic_length, Vector.length_toList, encode_length]; omega) only
      [metadataBytes, List.append_assoc, field_skip, magic_length, Vector.length_toList,
        encode_length, Nat.reduceSub, field_uint8]
  simp only [problemReadMetadata, htake, metadataBytes_length, hmagic, hid, hparent, hpriority,
    htime, hstatus, ne_eq, not_true_eq_false, if_false, UInt64.ofNat_toNat, UInt16.ofNat_toNat,
    UInt8.ofNat_toNat]

/-- The fields fit their widths in the file. -/
structure ProblemT.FitsFile (p : ProblemT) : Prop where
  type : p.type.toNat < 2 ^ 16
  optm : p.optm.toNat < 2 ^ 16
  sizeX : p.sizeX.toNat < 2 ^ 32
  sizeY : p.sizeY.toNat < 2 ^ 32

theorem toUInt16_of_lt {v : UInt32} (h : v.toNat < 2 ^ 16) :
    UInt32.ofNat v.toUInt16.toNat = v := by
  rw [← UInt32.toNat_inj, UInt32.toNat_ofNat', UInt32.toNat_toUInt16]
  omega

theorem toUInt32_of_lt {v : UInt64} (h : v.toNat < 2 ^ 32) :
    UInt64.ofNat v.toUInt32.toNat = v := by
  rw [← UInt64.toNat_inj, UInt64.toNat_ofNat', UInt64.toNat_toUInt32]
  omega

theorem unpackHeader_headerBytes (hp : p.FitsFile) (pad : HeaderPadding) (q : ProblemT) :
    unpackHeader q (headerBytes p pad) =
      { p with cvData := q.cvData, testData := q.testData, data := q.data, state := q.state } := by
  have htype : field (headerBytes p pad) 0 2 = p.type.toUInt16.toNat := by
    simp only [headerBytes, List.append_assoc, field_uint16]
  have hoptm : field (headerBytes p pad) 2 2 = p.optm.toUInt16.toNat := by
    simp (disch := simp only [encode_length]; omega) only
      [headerBytes, List.append_assoc, field_skip, encode_length,
        Nat.reduceSub, field_uint16]
  have hrows : field (headerBytes p pad) 8 8 = p.rows.toNat := by
    simp (disch := simp only [Vector.length_toList, encode_length]; omega) only
      [headerBytes, List.append_assoc, field_skip, Vector.length_toList, encode_length,
        Nat.reduceSub, field_uint64]
  have hsizeX : field (headerBytes p pad) 16 4 = p.sizeX.toUInt32.toNat := by
    simp (disch := simp only [Vector.length_toList, encode_length]; omega) only
      [headerBytes, List.append_assoc, field_skip, Vector.length_toList, encode_length,
        Nat.reduceSub, field_uint32]
  have hsizeY : field (headerBytes p pad) 20 4 = p.sizeY.toUInt32.toNat := by
    simp (disch := simp only [Vector.length_toList, encode_length]; omega) only
      [headerBytes, List.append_assoc, field_skip, Vector.length_toList, encode_length,
        Nat.reduceSub, field_uint32]
  have hcvSize : field (headerBytes p pad) 24 8 = p.cvSize.toNat := by
    simp (disch := simp only [Vector.length_toList, encode_length]; omega) only
      [headerBytes, List.append_assoc, field_skip, Vector.length_toList, encode_length,
        Nat.reduceSub, field_uint64]
  have htestSize : field (headerBytes p pad) 32 8 = p.testSize.toNat := by
    simp (disch := simp only [Vector.length_toList, encode_length]; omega) only
      [headerBytes, List.append_assoc, field_skip, Vector.length_toList, encode_length,
        Nat.reduceSub, field_uint64]
  have hstateSize : field (headerBytes p pad) 40 8 = p.stateSize.toNat := by
    simp (disch := simp only [Vector.length_toList, encode_length]; omega) only
      [headerBytes, List.append_assoc, field_skip, Vector.length_toList, encode_length,
        Nat.reduceSub, field_uint64_last]
  simp only [unpackHeader, htype, hoptm, hrows, hsizeX, hsizeY, hcvSize, htestSize, hstateSize,
    UInt64.ofNat_toNat, toUInt16_of_lt hp.type, toUInt16_of_lt hp.optm,
    toUInt32_of_lt hp.sizeX, toUInt32_of_lt hp.sizeY]

theorem AtomReader.fread_atom {r : AtomReader} {rest : List UInt8}
    (hr : r.rest = atomBytes v ++ rest) (ha : r.atom.length = 8) :
    r.fread.1 = 8 ∧ r.fread.2.rest = rest ∧ r.fread.2.atom = atomBytes v := by
  have htake : r.rest.take 8 = atomBytes v := by
    rw [hr]
    exact List.take_left' (atomBytes_length v)
  have hdrop : r.rest.drop 8 = rest := by
    rw [hr]
    exact List.drop_left' (atomBytes_length v)
  have hold : r.atom.drop 8 = [] := List.drop_of_length_le ha.le
  simp only [fread, htake, hdrop, atomBytes_length, hold, List.append_nil, and_self]

theorem readAtoms_holds (hn : k + n = xs.length) (hc : c.toNat = k) (h : ArrayHolds a xs k)
    (hr : r.rest = atomsBytes (xs.drop k) ++ rest) (ha : r.atom.length = 8) :
    ∃ c' a' r', readAtoms n c a r = some (c', a', r') ∧ c'.toNat = xs.length ∧
      ArrayHolds a' xs xs.length ∧ r'.rest = rest ∧ r'.atom.length = 8 := by
  induction n generalizing k c a r with
  | zero =>
    rw [Nat.add_zero] at hn
    subst hn
    rw [List.drop_length, atomsBytes_nil, List.nil_append] at hr
    exact ⟨c, a, r, rfl, hc, h, hr, ha⟩
  | succ n ih =>
    have hk : k < xs.length := by omega
    have hv := List.getElem?_eq_getElem hk
    rw [List.drop_eq_getElem_cons hk, atomsBytes_cons, List.append_assoc] at hr
    obtain ⟨hread, hrest, hatom⟩ := AtomReader.fread_atom hr ha
    obtain ⟨b, b', rfl, hstore, hnext⟩ := h.store hv hc
    have hindex : r.fread.2.index = xs[k] := by
      rw [AtomReader.index, hatom, decode_atomBytes]
    have hsucc : (c + 1).toNat = k + 1 := by
      have hlt := b.length_lt
      have hroom := Block.store_bound hstore
      rw [UInt64.toNat_add, UInt64.toNat_one]
      omega
    have hlen : r.fread.2.atom.length = 8 := by
      rw [hatom, atomBytes_length]
    obtain ⟨c', a', r', heq, hrun⟩ := ih (by omega) hsucc hnext hrest hlen
    refine ⟨c', a', r', ?_, hrun⟩
    simp only [readAtoms, Option.bind_eq_bind, Option.bind_some, hindex, hstore, hread, if_true,
      heq]

section Unpacking

variable {W : Type} {env : UnpackEnv W} {p : ProblemT} {c : Problem}

def UnpackEnv.Grants (env : UnpackEnv W) : Prop :=
  ∀ w n, ∃ b w', env.malloc w n = (some b, w') ∧ b.bytes = n

theorem unpackArray_holds (hg : env.Grants) (w : W) (old : Option Block)
    (hn : n.toNat = xs.length) (hlt : xs.length < 2 ^ 61) :
    ∃ a w', unpackArray env w n old = (a, w') ∧ ¬ (n ≠ 0 ∧ a.isNone) ∧ ArrayHolds a xs 0 := by
  by_cases h0 : n = 0
  · subst h0
    exact ⟨old, w, rfl, fun h => h.1 rfl, .inl (List.eq_nil_of_length_eq_zero hn.symm)⟩
  · obtain ⟨b, w', hb, hbytes⟩ := hg w (n * 8)
    exact ⟨some b, w', (if_neg h0).trans hb, fun h => Bool.false_ne_true h.2,
      .fresh hbytes hn hlt⟩

/-- The header is that of the problem, and the arrays have room for its elements. -/
structure ProblemT.Holds (p : ProblemT) (c : Problem) : Prop where
  fits : p.Fits c
  cvData : ArrayHolds p.cvData c.cvData 0
  testData : ArrayHolds p.testData c.testData 0
  data : ArrayHolds p.data c.data 0
  state : ArrayHolds p.state c.state 0

/-- The lengths of arrays in memory. -/
structure Problem.InMemory (c : Problem) : Prop where
  cvData : c.cvData.length < 2 ^ 61
  testData : c.testData.length < 2 ^ 61
  data : c.data.length < 2 ^ 61
  state : c.state.length < 2 ^ 61

theorem ProblemT.Carries.inMemory (h : p.Carries c) : c.InMemory where
  cvData := h.fits.cvSize ▸ readArray_bound h.cvData
  testData := h.fits.testSize ▸ readArray_bound h.testData
  data := h.fits.points ▸ readArray_bound h.data
  state := h.fits.stateSize ▸ readArray_bound h.state

theorem unpackAlloc_holds (hg : env.Grants) (w : W) (hp : p.Fits c) (hc : c.InMemory) :
    ∃ p', unpackAlloc env w p = .ok p' ∧ p'.Holds c := by
  obtain ⟨data, w₁, hdata, hbytes⟩ := hg w (p.points * 8)
  obtain ⟨cv, w₂, hcv, hcvok, hcvh⟩ := unpackArray_holds hg w₁ p.cvData hp.cvSize hc.cvData
  obtain ⟨test, w₃, htest, htestok, htesth⟩ :=
    unpackArray_holds hg w₂ p.testData hp.testSize hc.testData
  obtain ⟨state, w₄, hstate, hstateok, hstateh⟩ :=
    unpackArray_holds hg w₃ p.state hp.stateSize hc.state
  refine ⟨{ p with cvData := cv, testData := test, data := some data, state := state }, ?_, ?_⟩
  · simp only [unpackAlloc, hdata, hcv, htest, hstate, Option.isNone_some, Bool.false_eq_true,
      if_false, if_neg hcvok, if_neg htestok, if_neg hstateok]
  · exact ⟨⟨hp.type, hp.optm, hp.rows, hp.sizeX, hp.sizeY, hp.cvSize, hp.testSize, hp.points,
      hp.stateSize⟩, hcvh, htesth, .fresh hbytes hp.points hc.data, hstateh⟩

/-- The loops over a complete file. -/
theorem unpackSections_holds {r : AtomReader} (hp : p.Holds c)
    (hr : r.rest = atomsBytes (c.cvData ++ c.testData ++ c.data ++ c.state))
    (ha : r.atom.length = 8) :
    if p.cvSize ≤ p.testSize then
      ∃ n p', unpackSections p r = some (.returned n p') ∧ p'.Carries c
    else ∃ p', unpackSections p r = some (unpackFailed p') := by
  have hfit := hp.fits
  have hle : p.cvSize ≤ p.testSize ↔ c.cvData.length ≤ c.testData.length := by
    rw [UInt64.le_iff_toNat_le, hfit.cvSize, hfit.testSize]
  simp only [atomsBytes_append, List.append_assoc] at hr
  obtain ⟨c₁, cv, r₁, e₁, n₁, h₁, hr, ha⟩ :=
    readAtoms_holds (c := 0) (Nat.zero_add _) rfl hp.cvData hr ha
  obtain ⟨c₂, test, r₂, e₂, n₂, h₂, hr, ha⟩ :=
    readAtoms_holds (c := 0) (Nat.zero_add _) rfl hp.testData hr ha
  obtain ⟨c₃, data, r₃, e₃, n₃, h₃, hr, ha⟩ :=
    readAtoms_holds (c := 0) (Nat.zero_add _) rfl hp.data hr ha
  rw [← List.append_nil (atomsBytes c.state)] at hr
  obtain ⟨c₄, state, r₄, e₄, n₄, h₄, hr, ha⟩ :=
    readAtoms_holds (c := 0) (Nat.zero_add _) rfl hp.state hr ha
  have hcv : ¬ c₁ < p.cvSize := by
    rw [UInt64.lt_iff_toNat_lt, n₁, hfit.cvSize]
    exact Nat.lt_irrefl _
  have htest : c₂ < p.cvSize ↔ ¬ p.cvSize ≤ p.testSize := by
    rw [UInt64.lt_iff_toNat_lt, n₂, hle, hfit.cvSize, Nat.not_le]
  have hpoints : ¬ c₃ < p.points := by
    rw [UInt64.lt_iff_toNat_lt, n₃, hfit.points]
    exact Nat.lt_irrefl _
  have hstate : ¬ c₄ < p.stateSize := by
    rw [UInt64.lt_iff_toNat_lt, n₄, hfit.stateSize]
    exact Nat.lt_irrefl _
  rw [← hfit.cvSize] at e₁
  rw [← hfit.testSize] at e₂
  rw [← hfit.points] at e₃
  rw [← hfit.stateSize] at e₄
  by_cases h : p.cvSize ≤ p.testSize
  · rw [if_pos h]
    refine ⟨r₄.length - 1,
      { p with cvData := cv, testData := test, data := data, state := state }, ?_, ?_⟩
    · rw [ProblemT.points] at e₃ hpoints
      simp only [unpackSections, ProblemT.points, e₁, e₂, e₃, e₄, Option.bind_eq_bind,
        Option.bind_some, if_neg hcv, if_neg fun hc => htest.mp hc h, if_neg hpoints,
        if_neg hstate]
    · refine ⟨⟨hfit.type, hfit.optm, hfit.rows, hfit.sizeX, hfit.sizeY, hfit.cvSize,
        hfit.testSize, hfit.points, hfit.stateSize⟩, ?_, ?_, ?_, ?_⟩
      · exact hfit.cvSize ▸ h₁.read (Nat.le_refl _)
      · exact hfit.testSize ▸ h₂.read (Nat.le_refl _)
      · exact hfit.points ▸ h₃.read (Nat.le_refl _)
      · exact hfit.stateSize ▸ h₄.read (Nat.le_refl _)
  · rw [if_neg h]
    refine ⟨{ p with cvData := cv, testData := test }, ?_⟩
    simp only [unpackSections, e₁, e₂, Option.bind_eq_bind, Option.bind_some, if_neg hcv,
      if_pos (htest.mpr h)]

theorem packAtoms_eq (hp : p.Carries c) :
    packAtoms p = some (c.cvData ++ c.testData ++ c.data ++ c.state) := by
  simp only [packAtoms, hp.cvData, hp.testData, hp.data, hp.state, Option.bind_eq_bind,
    Option.bind_some]

/-- What `_problem_pack` writes. -/
theorem problemPack_eq (env : PackEnv) (hp : p.Carries c) (hf : p.FitsFile) (hrows : p.rows ≠ 0)
    (hsizeX : p.sizeX ≠ 0) (hdata : p.data ≠ none) (fileHeader : Option FileHeader) :
    ∃ length, problemPack env p fileHeader =
      some (.written
        (metadataBytes (packMetadata fileHeader env.now) env.metadataPadding ++
          headerBytes p env.headerPadding ++
          atomsBytes (c.cvData ++ c.testData ++ c.data ++ c.state)) length) := by
  have hx : p.sizeX.toUInt32 ≠ 0 := by
    intro h
    apply hsizeX
    rw [← toUInt32_of_lt hf.sizeX, h]
    rfl
  have hguard : ¬ (p.rows = 0 ∨ p.sizeX.toUInt32 = 0 ∨ p.data = none) := by
    rintro (h | h | h)
    · exact hrows h
    · exact hx h
    · exact hdata h
  exact ⟨_, by rw [problemPack, if_neg hguard, packAtoms_eq hp, Option.map_some]⟩

theorem problemPack_written (h : problemPack pack p fileHeader = some (.written bytes length)) :
    ∃ atoms, packAtoms p = some atoms ∧ length = 48 + 8 * UInt64.ofNat atoms.length ∧
      bytes = metadataBytes (packMetadata fileHeader pack.now) pack.metadataPadding ++
        headerBytes p pack.headerPadding ++ atomsBytes atoms := by
  rw [problemPack] at h
  split at h
  · cases h
  · obtain ⟨atoms, hatoms, hwritten⟩ := Option.map_eq_some_iff.mp h
    cases hwritten
    exact ⟨atoms, hatoms, rfl, rfl⟩

/-- A packed file is unpacked to the same problem exactly when there are not more indices for cross
validation than for the test. -/
theorem unpack_pack_iff (hg : env.Grants) (hp : p.Carries c) (hf : p.FitsFile)
    (hrows : p.rows ≠ 0) (hsizeX : p.sizeX ≠ 0) (hdata : p.data ≠ none) (pack : PackEnv)
    (fileHeader : Option FileHeader) (w : W) (q : ProblemT) :
    ∃ bytes length, problemPack pack p fileHeader = some (.written bytes length) ∧
      ((∃ n q', problemUnpack env w q bytes = some (.returned n q') ∧ q'.Carries c) ↔
        p.cvSize ≤ p.testSize) := by
  obtain ⟨length, hpack⟩ := problemPack_eq pack hp hf hrows hsizeX hdata fileHeader
  refine ⟨_, length, hpack, ?_⟩
  generalize hm : metadataBytes (packMetadata fileHeader pack.now) pack.metadataPadding = metadata
  have hlen : metadata.length = 48 := hm ▸ metadataBytes_length _ _
  generalize hatoms : atomsBytes (c.cvData ++ c.testData ++ c.data ++ c.state) = atoms
  have hq : (unpackHeader q (headerBytes p pack.headerPadding)).Fits c := by
    rw [unpackHeader_headerBytes hf]
    exact ⟨hp.fits.type, hp.fits.optm, hp.fits.rows, hp.fits.sizeX, hp.fits.sizeY,
      hp.fits.cvSize, hp.fits.testSize, hp.fits.points, hp.fits.stateSize⟩
  obtain ⟨p', halloc, hholds⟩ := unpackAlloc_holds hg w hq hp.inMemory
  have hfile : problemUnpack env w q (metadata ++ headerBytes p pack.headerPadding ++ atoms) =
      unpackSections p' ⟨atoms, env.atom.toList, env.length + 48⟩ := by
    have hmeta : (metadata ++ headerBytes p pack.headerPadding ++ atoms).take 48 = metadata := by
      rw [List.append_assoc]
      exact List.take_left' hlen
    have hrest : (metadata ++ headerBytes p pack.headerPadding ++ atoms).drop 48 =
        headerBytes p pack.headerPadding ++ atoms := by
      rw [List.append_assoc]
      exact List.drop_left' hlen
    have hbin : (headerBytes p pack.headerPadding ++ atoms).take 48 =
        headerBytes p pack.headerPadding := List.take_left' (headerBytes_length p _)
    have hdrop : (metadata ++ headerBytes p pack.headerPadding ++ atoms).drop 96 = atoms := by
      apply List.drop_left'
      rw [List.length_append, hlen, headerBytes_length]
    have hread : ¬ metadata.length ≠ 48 := fun hne => hne hlen
    have hheader : ¬ (headerBytes p pack.headerPadding).length ≠ 48 :=
      fun hne => hne (headerBytes_length p _)
    rw [problemUnpack, hmeta, if_neg hread, hrest, hbin, hdrop]
    exact (if_neg hheader).trans (by rw [halloc])
  have hle : p'.cvSize ≤ p'.testSize ↔ p.cvSize ≤ p.testSize := by
    rw [UInt64.le_iff_toNat_le, UInt64.le_iff_toNat_le, hholds.fits.cvSize, hholds.fits.testSize,
      hp.fits.cvSize, hp.fits.testSize]
  have hatom : env.atom.toList.length = 8 := Vector.length_toList
  have hsections := unpackSections_holds
    (r := ⟨atoms, env.atom.toList, env.length + 48⟩) hholds hatoms.symm hatom
  rw [hfile, ← hle]
  constructor
  · rintro ⟨n, q', heq, _⟩
    by_contra hnot
    rw [if_neg hnot] at hsections
    obtain ⟨p'', hfailed⟩ := hsections
    cases hfailed.symm.trans heq
  · intro h
    rw [if_pos h] at hsections
    exact hsections

end Unpacking

def PackEnv.sample : PackEnv where
  now := 0
  metadataPadding := ⟨.replicate 4 0, .replicate 6 0, .replicate 7 0⟩
  headerPadding := .replicate 4 0

def UnpackEnv.sample : UnpackEnv Nat where
  malloc w n := (some ⟨w, n, fun _ => 0⟩, w + n.toNat)
  atom := .replicate 8 0
  length := 0

theorem UnpackEnv.sample_grants : UnpackEnv.sample.Grants :=
  fun w n => ⟨⟨w, n, fun _ => 0⟩, w + n.toNat, rfl, rfl⟩

def ProblemT.oneRow (cvSize : UInt64) : ProblemT :=
  ⟨1, 1, 1, 1, 0, cvSize, 0, 0, some ⟨0, 8, fun _ => 3⟩, none, some ⟨8, 8, fun _ => 7⟩, none⟩

theorem ProblemT.oneRow_fitsFile (cvSize : UInt64) : (oneRow cvSize).FitsFile where
  type := show (1 : UInt32).toNat < 2 ^ 16 by decide
  optm := show (1 : UInt32).toNat < 2 ^ 16 by decide
  sizeX := show (1 : UInt64).toNat < 2 ^ 32 by decide
  sizeY := show (0 : UInt64).toNat < 2 ^ 32 by decide

def ProblemT.filled : ProblemT :=
  ⟨1, 1, 2, 1, 1, 1, 2, 1, some ⟨0, 8, fun _ => 3⟩, some ⟨8, 16, fun k => .ofNat (4 + k)⟩,
    some ⟨24, 32, fun k => .ofNat (6 + k)⟩, some ⟨56, 8, fun _ => 10⟩⟩

theorem ProblemT.filled_carries :
    filled.Carries ⟨1, 1, 2, 1, 1, [3], [4, 5], [6, 7, 8, 9], [10]⟩ :=
  ⟨⟨rfl, rfl, rfl, rfl, rfl, rfl, rfl, rfl, rfl⟩, rfl, rfl, rfl, rfl⟩

theorem ProblemT.filled_fitsFile : filled.FitsFile where
  type := show (1 : UInt32).toNat < 2 ^ 16 by decide
  optm := show (1 : UInt32).toNat < 2 ^ 16 by decide
  sizeX := show (1 : UInt64).toNat < 2 ^ 32 by decide
  sizeY := show (1 : UInt64).toNat < 2 ^ 32 by decide

theorem unpack_pack_iff_filled :
    ∃ bytes length, problemPack .sample .filled none = some (.written bytes length) ∧
      ((∃ n q', problemUnpack .sample 16 .zero bytes = some (.returned n q') ∧
        q'.Carries ⟨1, 1, 2, 1, 1, [3], [4, 5], [6, 7, 8, 9], [10]⟩) ↔
          ProblemT.filled.cvSize ≤ ProblemT.filled.testSize) :=
  unpack_pack_iff UnpackEnv.sample_grants ProblemT.filled_carries ProblemT.filled_fitsFile
    (by decide) (by decide) (by simp [ProblemT.filled]) .sample none 16 .zero

/-- One index for cross validation and none for the test. -/
theorem packed_not_unpacked :
    (ProblemT.oneRow 1).Carries ⟨1, 1, 1, 1, 0, [3], [], [7], []⟩ ∧ (ProblemT.oneRow 1).FitsFile ∧
      ∃ bytes length, problemPack .sample (.oneRow 1) none = some (.written bytes length) ∧
        ¬ ∃ n q', problemUnpack .sample 16 .zero bytes = some (.returned n q') := by
  refine ⟨⟨⟨rfl, rfl, rfl, rfl, rfl, rfl, rfl, rfl, rfl⟩, rfl, rfl, rfl, rfl⟩,
    ProblemT.oneRow_fitsFile 1, _, _, rfl, ?_⟩
  rintro ⟨n, q', h⟩
  cases h

end Aiqb
