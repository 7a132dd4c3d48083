import Aiqb.PackRoundTrip

namespace Aiqb
set_option autoImplicit true

open LittleEndian

/-- What `malloc` returns is NULL or as large as it was asked to be. -/
def UnpackEnv.Exact (env : UnpackEnv W) : Prop :=
  ∀ w n b, (env.malloc w n).1 = some b → b.bytes = n

theorem UnpackEnv.Grants.exact {env : UnpackEnv W} (hg : env.Grants) : env.Exact := by
  intro w n b hb
  obtain ⟨b', w', he, hbytes⟩ := hg w n
  rw [he] at hb
  cases hb
  exact hbytes

def AtomReader.atoms (r : AtomReader) : Nat := r.rest.length / 8

/-- A section of `n` elements stays within its block, with `m` atoms left in the file: `n * 8` does
not wrap, or the file ends before the wrapped block does. -/
def SectionFits (n : UInt64) (m : Nat) : Prop :=
  n.toNat < 2 ^ 61 ∨ m < n.toNat % 2 ^ 61

/-- Each section that is reached stays within its block, `m` atoms being left. -/
def ProblemT.SectionsFit (p : ProblemT) (m : Nat) : Prop :=
  SectionFits p.cvSize m ∧
  (p.cvSize.toNat ≤ m →
    SectionFits p.testSize (m - p.cvSize.toNat) ∧
    (p.cvSize.toNat ≤ min p.testSize.toNat (m - p.cvSize.toNat) →
      SectionFits p.points (m - p.cvSize.toNat - p.testSize.toNat) ∧
      (p.points.toNat ≤ m - p.cvSize.toNat - p.testSize.toNat →
        SectionFits p.stateSize
          (m - p.cvSize.toNat - p.testSize.toNat - p.points.toNat))))

/-- A file whose header announces no section that leaves its block. -/
def FileFits (file : List UInt8) : Prop :=
  file.length < 96 ∨
    (unpackHeader .zero ((file.drop 48).take 48)).SectionsFit ((file.length - 96) / 8)

theorem AtomReader.fread_length (r : AtomReader) : r.fread.1 = min 8 r.rest.length := by
  rw [fread, List.length_take]

theorem AtomReader.fread_atoms (r : AtomReader) : r.fread.2.atoms = r.atoms - 1 := by
  simp only [fread, atoms, List.length_drop]
  omega

def wordAt (bytes : List UInt8) (j : Nat) : UInt64 := UInt64.ofNat (field bytes (8 * j) 8)

theorem wordAt_drop (bytes : List UInt8) (n j : Nat) :
    wordAt (bytes.drop (8 * n)) j = wordAt bytes (n + j) := by
  rw [wordAt, wordAt, field, field, List.drop_drop, Nat.mul_add]

/-- The elements of an array that are complete in the file, at a position, are those of the file. -/
def ReadFrom (a : Option Block) (n : UInt64) (bytes : List UInt8) (first : Nat) : Prop :=
  ∀ j < n.toNat, 8 * (first + j + 1) ≤ bytes.length →
    ∃ b, a = some b ∧ j < b.length ∧ b.cells j = wordAt bytes (first + j)

namespace AtomReader

variable {r : AtomReader}

theorem fread_rest (r : AtomReader) : r.fread.2.rest = r.rest.drop 8 := rfl

theorem fread_read (r : AtomReader) :
    r.fread.2.length = r.length + UInt64.ofNat (min 8 r.rest.length) := by
  rw [← fread_length]
  rfl

theorem fread_atom_length (ha : r.atom.length = 8) : r.fread.2.atom.length = 8 := by
  simp only [fread, List.length_append, List.length_take, List.length_drop, ha]
  omega

theorem fread_index (ha : r.atom.length = 8) (h8 : 8 ≤ r.rest.length) :
    r.fread.2.index = wordAt r.rest 0 := by
  have hlen : (r.rest.take 8).length = 8 := List.length_take_of_le h8
  have hold : r.atom.drop 8 = [] := List.drop_of_length_le ha.le
  simp only [fread, index, hlen, hold, List.append_nil, wordAt, field, Nat.mul_zero, List.drop_zero]

end AtomReader

theorem readAtoms_reads {b : Block} (hc : c.toNat = k) (hwrap : k + n < 2 ^ 64)
    (hroom : k + min n (r.atoms + 1) ≤ b.length) (ha : r.atom.length = 8) :
    ∃ c' b' r', readAtoms n c (some b) r = some (c', some b', r') ∧
      c'.toNat = k + min n r.atoms ∧ b'.length = b.length ∧ r'.atom.length = 8 ∧
      r'.rest = r.rest.drop (8 * n) ∧
      r'.length = r.length + UInt64.ofNat (min (8 * n) r.rest.length) ∧
      (∀ j < k, b'.cells j = b.cells j) ∧
      ∀ j < min n r.atoms, b'.cells (k + j) = wordAt r.rest j := by
  induction n generalizing k c b r with
  | zero =>
    refine ⟨c, b, r, rfl, ?_, rfl, ha, rfl, ?_, fun j _ => rfl, ?_⟩
    · rw [hc, Nat.zero_min, Nat.add_zero]
    · rw [Nat.mul_zero, Nat.zero_min]
      exact (UInt64.add_zero _).symm
    · intro j hj
      rw [Nat.zero_min] at hj
      exact absurd hj (Nat.not_lt_zero j)
  | succ n ih =>
    obtain ⟨b₁, hb₁⟩ := b.store_inside (i := c) (by omega) r.fread.2.index
    have hlen := Block.store_length hb₁
    have hcells := Block.store_cells hb₁
    have hatoms : r.atoms = r.rest.length / 8 := rfl
    simp only [readAtoms, Option.bind_eq_bind, Option.bind_some, hb₁, AtomReader.fread_length]
    by_cases h8 : min 8 r.rest.length = 8
    · have hsucc : (c + 1).toNat = k + 1 := by
        rw [UInt64.toNat_add, UInt64.toNat_one, hc]
        exact Nat.mod_eq_of_lt (by omega)
      have hnext := r.fread_atoms
      obtain ⟨c', b', r', he, hc', hl, ha', hrest, hread, hold, hnew⟩ :=
        ih (r := r.fread.2) hsucc (by omega) (b := b₁) (by rw [hlen, hnext]; omega)
          (AtomReader.fread_atom_length ha)
      refine ⟨c', b', r', by rw [if_pos h8, he], ?_, hl.trans hlen, ha', ?_, ?_, ?_, ?_⟩
      · rw [hc', hnext]
        omega
      · rw [hrest, r.fread_rest, List.drop_drop]
        congr 1
        omega
      · have hsum : min (8 * (n + 1)) r.rest.length =
            min 8 r.rest.length + min (8 * n) (r.rest.length - 8) := by omega
        rw [hread, r.fread_read, r.fread_rest, List.length_drop, hsum, UInt64.ofNat_add,
          UInt64.add_assoc]
      · intro j hj
        rw [hold j (Nat.lt_succ_of_lt hj), hcells, hc, Function.update_of_ne (Nat.ne_of_lt hj)]
      · intro j hj
        cases j with
        | zero =>
          rw [Nat.add_zero, hold k (Nat.lt_succ_self k), hcells, hc, Function.update_self]
          exact AtomReader.fread_index ha (by omega)
        | succ j =>
          have hcell := hnew j (by rw [hnext]; omega)
          rw [Nat.add_assoc, Nat.add_comm 1 j] at hcell
          rw [hcell, r.fread_rest]
          exact (wordAt_drop r.rest 1 j).trans (congrArg _ (Nat.add_comm 1 j))
    · have hnone : r.atoms = 0 := by omega
      refine ⟨c, b₁, r.fread.2, if_neg h8, ?_, hlen, AtomReader.fread_atom_length ha, ?_, ?_, ?_,
        ?_⟩
      · rw [hc, hnone, Nat.min_zero, Nat.add_zero]
      · rw [r.fread_rest, List.drop_of_length_le (by omega), List.drop_of_length_le (by omega)]
      · rw [r.fread_read]
        congr 2
        omega
      · intro j hj
        rw [hcells, hc, Function.update_of_ne (Nat.ne_of_lt hj)]
      · intro j hj
        rw [hnone, Nat.min_zero] at hj
        exact absurd hj (Nat.not_lt_zero j)

/-- The loop over a section stores past the block where the file goes on for longer. -/
theorem readAtoms_outside {b : Block} (hc : c.toNat = k) (hwrap : k + n < 2 ^ 64)
    (hk : k ≤ b.length) (hroom : b.length < k + min n (r.atoms + 1)) :
    readAtoms n c (some b) r = none := by
  induction n generalizing k c b r with
  | zero => omega
  | succ n ih =>
    by_cases hlt : k < b.length
    · obtain ⟨b', hb'⟩ := b.store_inside (i := c) (by omega) r.fread.2.index
      have hatoms : r.atoms = r.rest.length / 8 := rfl
      have h8 : min 8 r.rest.length = 8 := by omega
      have hsucc : (c + 1).toNat = k + 1 := by
        rw [UInt64.toNat_add, UInt64.toNat_one, hc]
        exact Nat.mod_eq_of_lt (by omega)
      have hlen := Block.store_length hb'
      have hnext := r.fread_atoms
      simp only [readAtoms, Option.bind_eq_bind, Option.bind_some, hb', AtomReader.fread_length,
        if_pos h8]
      apply ih hsucc (by omega)
      · rw [hlen]
        omega
      · rw [hlen, hnext]
        omega
    · have hout : ∀ v, b.store c v = none := fun v => if_neg (by omega)
      simp only [readAtoms, Option.bind_eq_bind, Option.bind_some, hout, Option.bind_none]

def RoomFor (a : Option Block) (n : UInt64) : Prop :=
  n ≠ 0 → ∃ b, a = some b ∧ b.bytes = n * 8

theorem wrapped_length {b : Block} {n : UInt64} (hb : b.bytes = n * 8) :
    b.length = n.toNat % 2 ^ 61 := by
  rw [Block.length, hb, UInt64.toNat_mul, show (8 : UInt64).toNat = 8 from rfl]
  omega

/-- What the loop over a section of `n` elements leaves. -/
structure SectionRead (n : UInt64) (r : AtomReader) (c : UInt64) (a : Option Block)
    (r' : AtomReader) : Prop where
  count : c.toNat = min n.toNat r.atoms
  atom : r'.atom.length = 8
  rest : r'.rest = r.rest.drop (8 * n.toNat)
  length : r'.length = r.length + UInt64.ofNat (min (8 * n.toNat) r.rest.length)
  elements : ReadFrom a n r.rest 0

theorem SectionRead.atoms (h : SectionRead n r c a r') : r'.atoms = r.atoms - n.toNat := by
  rw [AtomReader.atoms, AtomReader.atoms, h.rest, List.length_drop]
  omega

theorem SectionRead.lt_iff (h : SectionRead n r c a r') (k : UInt64) :
    c < k ↔ min n.toNat r.atoms < k.toNat := by
  rw [UInt64.lt_iff_toNat_lt, h.count]

theorem SectionRead.short_iff (h : SectionRead n r c a r') : c < n ↔ r.atoms < n.toNat := by
  rw [h.lt_iff]
  omega

theorem section_reads (ha : RoomFor a n) (hfit : SectionFits n r.atoms) (hr : r.atom.length = 8) :
    ∃ c a' r', readAtoms n.toNat 0 a r = some (c, a', r') ∧ SectionRead n r c a' r' := by
  have hlt := n.toNat_lt
  by_cases h0 : n = 0
  · subst h0
    refine ⟨0, a, r, rfl, ?_, hr, rfl, (UInt64.add_zero _).symm, ?_⟩
    · exact (Nat.zero_min _).symm
    · intro j hj
      exact absurd hj (Nat.not_lt_zero j)
  · obtain ⟨b, rfl, hb⟩ := ha h0
    have hlen := wrapped_length hb
    have hroom : 0 + min n.toNat (r.atoms + 1) ≤ b.length := by
      rw [hlen]
      cases hfit with
      | inl hsmall => omega
      | inr hend => omega
    obtain ⟨c, b', r', he, hc, hl, hr', hrest, hread, _, hnew⟩ :=
      readAtoms_reads (c := 0) (k := 0) rfl (by omega) hroom hr
    refine ⟨c, some b', r', he, hc.trans (Nat.zero_add _), hr', hrest, hread, ?_⟩
    intro j hj hin
    have hatoms : r.atoms = r.rest.length / 8 := rfl
    have hcell := hnew j (by omega)
    rw [Nat.zero_add] at hcell hin ⊢
    exact ⟨b', rfl, by omega, hcell⟩

/-- A section is read within its block exactly where it fits; what follows finds the rest. -/
theorem section_defined {k : UInt64 × Option Block × AtomReader → Option α} {P : Prop}
    (ha : RoomFor a n) (hr : r.atom.length = 8)
    (hk : ∀ c a' r', SectionRead n r c a' r' → (k (c, a', r') ≠ none ↔ P)) :
    (readAtoms n.toNat 0 a r >>= k) ≠ none ↔ SectionFits n r.atoms ∧ P := by
  rw [Option.bind_eq_bind]
  by_cases hfit : SectionFits n r.atoms
  · obtain ⟨c, a', r', he, hread⟩ := section_reads ha hfit hr
    rw [he, and_iff_right hfit]
    exact hk c a' r' hread
  · have hnone : readAtoms n.toNat 0 a r = none := by
      rw [SectionFits, not_or] at hfit
      have hlt := n.toNat_lt
      have hne : n ≠ 0 := by
        rintro rfl
        exact hfit.1 (Nat.two_pow_pos 61)
      obtain ⟨b, rfl, hb⟩ := ha hne
      have hlen := wrapped_length hb
      apply readAtoms_outside (c := 0) (k := 0) rfl (by omega) (Nat.zero_le _)
      omega
    rw [hnone]
    exact iff_of_false (fun hne => hne rfl) fun hf => hfit hf.1

theorem failed_defined {cond P : Prop} [Decidable cond] {f : UnpackResult}
    {o : Option UnpackResult} (hc : ¬ cond ↔ C) (ho : o ≠ none ↔ P) :
    (if cond then some f else o) ≠ none ↔ (C → P) := by
  by_cases h : cond
  · rw [if_pos h]
    exact iff_of_true (Option.some_ne_none f) fun hC => (hc.mpr hC h).elim
  · rw [if_neg h, ho]
    exact ⟨fun hP _ => hP, fun hP => hP (hc.mp h)⟩

structure ProblemT.Allocated (p : ProblemT) : Prop where
  cvData : RoomFor p.cvData p.cvSize
  testData : RoomFor p.testData p.testSize
  data : RoomFor p.data p.points
  state : RoomFor p.state p.stateSize

/-- The four loops stay within their blocks exactly where the sections fit. -/
theorem unpackSections_iff (hp : p.Allocated) (r : AtomReader) (hr : r.atom.length = 8) :
    unpackSections p r ≠ none ↔ p.SectionsFit r.atoms := by
  apply section_defined hp.cvData hr
  intro c₁ cv r₁ h₁
  have hcv : ¬ c₁ < p.cvSize ↔ p.cvSize.toNat ≤ r.atoms := by
    rw [h₁.short_iff, Nat.not_lt]
  apply failed_defined hcv
  rw [← h₁.atoms]
  apply section_defined hp.testData h₁.atom
  intro c₂ test r₂ h₂
  have htest : ¬ c₂ < p.cvSize ↔ p.cvSize.toNat ≤ min p.testSize.toNat r₁.atoms := by
    rw [h₂.lt_iff, Nat.not_lt]
  apply failed_defined htest
  rw [← h₂.atoms]
  apply section_defined hp.data h₂.atom
  intro c₃ data r₃ h₃
  have hdata : ¬ c₃ < p.points ↔ p.points.toNat ≤ r₂.atoms := by
    rw [h₃.short_iff, Nat.not_lt]
  apply failed_defined hdata
  rw [← h₃.atoms, ← and_true (SectionFits p.stateSize r₃.atoms)]
  apply section_defined hp.state h₃.atom
  intro c₄ state r₄ _
  refine iff_of_true ?_ trivial
  dsimp only
  split
  · exact Option.some_ne_none _
  · exact Option.some_ne_none _

theorem unpackArray_room {env : UnpackEnv W} (hx : env.Exact) (w : W) (n : UInt64)
    (old : Option Block) (hok : ¬ (n ≠ 0 ∧ (unpackArray env w n old).1.isNone)) :
    RoomFor (unpackArray env w n old).1 n := by
  intro hn
  rw [unpackArray, if_neg hn] at hok ⊢
  cases hb : (env.malloc w (n * 8)).1 with
  | none =>
    rw [hb] at hok
    exact (hok ⟨hn, rfl⟩).elim
  | some b => exact ⟨b, rfl, hx w _ b hb⟩

theorem unpackAlloc_allocated {env : UnpackEnv W} (hx : env.Exact)
    (ha : unpackAlloc env w p = .ok q) :
    q.Allocated ∧ q.cvSize = p.cvSize ∧ q.testSize = p.testSize ∧ q.points = p.points ∧
      q.stateSize = p.stateSize := by
  simp only [unpackAlloc] at ha
  split at ha
  · cases ha
  · next hdata =>
    split at ha
    · cases ha
    · next hcv =>
      split at ha
      · cases ha
      · next htest =>
        split at ha
        · cases ha
        · next hstate =>
          cases ha
          refine ⟨⟨unpackArray_room hx _ _ _ hcv, unpackArray_room hx _ _ _ htest, ?_,
            unpackArray_room hx _ _ _ hstate⟩, rfl, rfl, rfl, rfl⟩
          intro _
          cases hb : (env.malloc w (p.points * 8)).1 with
          | none =>
            rw [hb] at hdata
            exact (hdata rfl).elim
          | some b => exact ⟨b, rfl, hx w _ b hb⟩

theorem unpackArray_granted {env : UnpackEnv W} (hg : env.Grants) (w : W) (n : UInt64)
    (old : Option Block) : ¬ (n ≠ 0 ∧ (unpackArray env w n old).1.isNone) := by
  rintro ⟨hn, hnone⟩
  obtain ⟨b, w', hb, _⟩ := hg w (n * 8)
  rw [unpackArray, if_neg hn, hb] at hnone
  cases hnone

theorem unpackAlloc_granted {env : UnpackEnv W} (hg : env.Grants) (w : W) (p : ProblemT) :
    ∃ q, unpackAlloc env w p = .ok q := by
  obtain ⟨data, w', hdata, _⟩ := hg w (p.points * 8)
  simp only [unpackAlloc, hdata, Option.isNone_some, Bool.false_eq_true, if_false]
  rw [if_neg (unpackArray_granted hg _ _ _), if_neg (unpackArray_granted hg _ _ _),
    if_neg (unpackArray_granted hg _ _ _)]
  exact ⟨_, rfl⟩

theorem ProblemT.SectionsFit.congr {p q : ProblemT} (hcv : q.cvSize = p.cvSize)
    (htest : q.testSize = p.testSize) (hpoints : q.points = p.points)
    (hstate : q.stateSize = p.stateSize) : q.SectionsFit m ↔ p.SectionsFit m := by
  unfold SectionsFit
  rw [hcv, htest, hpoints, hstate]

theorem problemUnpack_short (hlen : file.length < 96) :
    problemUnpack env w p file = some (.failed [] p) := by
  by_cases hmeta : (file.take 48).length = 48
  · have hbin : ((file.drop 48).take 48).length ≠ 48 := by
      rw [List.length_take, List.length_drop]
      omega
    simp only [problemUnpack, if_neg (not_not_intro hmeta), if_pos hbin]
  · simp only [problemUnpack, ne_eq, if_pos hmeta]

theorem problemUnpack_long (hlen : 96 ≤ file.length) :
    problemUnpack env w p file =
      match unpackAlloc env w (unpackHeader p ((file.drop 48).take 48)) with
      | .error (freed, p) => some (.failed freed p)
      | .ok p => unpackSections p ⟨file.drop 96, env.atom.toList, env.length + 48⟩ := by
  have hmeta : ¬ (file.take 48).length ≠ 48 := by
    rw [List.length_take]
    omega
  have hbin : ¬ ((file.drop 48).take 48).length ≠ 48 := by
    rw [List.length_take, List.length_drop]
    omega
  cases halloc : unpackAlloc env w (unpackHeader p ((file.drop 48).take 48)) with
  | error e => simp only [problemUnpack, if_neg hmeta, if_neg hbin, halloc]
  | ok p => simp only [problemUnpack, if_neg hmeta, if_neg hbin, halloc]

theorem problemUnpack_ok {env : UnpackEnv W} (hx : env.Exact) (hlen : 96 ≤ file.length)
    (ha : unpackAlloc env w (unpackHeader p ((file.drop 48).take 48)) = .ok q) :
    problemUnpack env w p file ≠ none ↔ FileFits file := by
  obtain ⟨hq, hcv, htest, hpoints, hstate⟩ := unpackAlloc_allocated hx ha
  have hrest : AtomReader.atoms ⟨file.drop 96, env.atom.toList, env.length + 48⟩ =
      (file.length - 96) / 8 := by
    rw [AtomReader.atoms, List.length_drop]
  have hfits : FileFits file ↔ q.SectionsFit ((file.length - 96) / 8) := by
    rw [FileFits, or_iff_right (Nat.not_lt.mpr hlen)]
    exact (ProblemT.SectionsFit.congr hcv htest hpoints hstate).symm
  rw [hfits, ← hrest, problemUnpack_long hlen, ha]
  exact unpackSections_iff hq _ Vector.length_toList

/-- A file is loaded without a store outside the arrays, whatever allocations fail, exactly where
its sections fit. -/
theorem unpack_inside_iff (p : ProblemT) (file : List UInt8) :
    (∀ (W : Type) (env : UnpackEnv W) (w : W), env.Exact →
      problemUnpack env w p file ≠ none) ↔ FileFits file := by
  constructor
  · intro hall
    by_cases hlen : file.length < 96
    · exact .inl hlen
    · have hg := UnpackEnv.sample_grants
      obtain ⟨q, hq⟩ := unpackAlloc_granted hg 0 (unpackHeader p ((file.drop 48).take 48))
      exact (problemUnpack_ok hg.exact (Nat.not_lt.mp hlen) hq).mp (hall _ _ 0 hg.exact)
  · intro hfits W env w hx
    by_cases hlen : file.length < 96
    · rw [problemUnpack_short hlen]
      exact Option.some_ne_none _
    · cases ha : unpackAlloc env w (unpackHeader p ((file.drop 48).take 48)) with
      | ok q => exact (problemUnpack_ok hx (Nat.not_lt.mp hlen) ha).mpr hfits
      | error e =>
        rw [problemUnpack_long (Nat.not_lt.mp hlen), ha]
        exact Option.some_ne_none _

def wrappedFile : List UInt8 :=
  .replicate 48 0 ++ .replicate 8 0 ++ [1, 0, 0, 0, 0, 0, 0, 0] ++ [1, 0, 0, 0] ++ [0, 0, 0, 0] ++
    [0, 0, 0, 0, 0, 0, 0, 32] ++ .replicate 16 0

/-- The block for `2 ^ 61` indices is empty, and the first of them is stored. -/
theorem unpack_outside :
    ¬ ∀ (p : ProblemT) (file : List UInt8) (W : Type) (env : UnpackEnv W) (w : W), env.Exact →
      problemUnpack env w p file ≠ none := by
  intro hall
  apply hall .zero wrappedFile Nat .sample 0 UnpackEnv.sample_grants.exact
  decide

end Aiqb
