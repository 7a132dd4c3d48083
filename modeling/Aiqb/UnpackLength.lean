import Aiqb.UnpackChecked

namespace Aiqb
set_option autoImplicit true

def UnpackResult.value : UnpackResult → UInt64
  | .failed _ _ => 0
  | .returned length _ => length

/-- The bytes that a load reads behind the metadata: the header, and what is there of the atoms. -/
def bytesRead (file : List UInt8) : Nat :=
  48 + min (8 * (headerOf file).announced) (file.length - 96)

def excess (file : List UInt8) : Nat := file.length - 96 - 8 * (headerOf file).announced

def PackWrote (file : List UInt8) (length : UInt64) : Prop :=
  ∃ env p fileHeader, problemPack env p fileHeader = some (.written file length)

/-- The value is 0 for the failures only, and otherwise the number of bytes that were read and the
length that packing the file has returned. -/
structure UnpackResult.Trusted (res : UnpackResult) (file : List UInt8) : Prop where
  zero : res.value = 0 ↔ ∃ freed p, res = .failed freed p
  read : ∀ n p, res = .returned n p → n.toNat = bytesRead file
  packed : ∀ n p length, res = .returned n p → PackWrote file length → n = length

theorem PackWrote.length_eq (h : PackWrote file length) :
    length.toNat = (file.length - 48) % 2 ^ 64 := by
  obtain ⟨env, p, fileHeader, hpack⟩ := h
  obtain ⟨atoms, _, rfl, rfl⟩ := problemPack_written hpack
  rw [List.length_append, List.length_append, metadataBytes_length, headerBytes_length,
    atomsBytes_length, UInt64.toNat_add, UInt64.toNat_mul, UInt64.toNat_ofNat',
    show (48 : UInt64).toNat = 48 from rfl, show (8 : UInt64).toNat = 8 from rfl]
  omega

section Loads

variable {W : Type} {env : UnpackEnv W} {w : W} {p : ProblemT} {file : List UInt8}

/-- The length that a load returns is that of the bytes read where the variable starts with 1. -/
theorem returned_eq_iff (length : UInt64) (k : Nat) :
    (length + 48 + UInt64.ofNat k - 1).toNat = 48 + k ↔ length = 1 ∧ 48 + k < 2 ^ 64 := by
  rw [← UInt64.toNat_inj, UInt64.toNat_sub, UInt64.toNat_add, UInt64.toNat_add,
    UInt64.toNat_ofNat', UInt64.toNat_one, show (48 : UInt64).toNat = 48 from rfl]
  have := length.toNat_lt
  omega

/-- The length can be trusted exactly where the file is not loaded, or the variable it is counted in
starts with 1. -/
theorem length_trusted_iff (hx : env.Exact) (w : W) (p : ProblemT) (file : List UInt8) :
    (∀ res, problemUnpack env w p file = some res → res.Trusted file) ↔
      (LoadsWith env w p file → FileFits file →
        env.length = 1 ∧ bytesRead file < 2 ^ 64 ∧
          ∀ length, PackWrote file length → excess file % 2 ^ 64 = 0) := by
  by_cases hd : problemUnpack env w p file = none
  · refine iff_of_true ?_ ?_
    · intro res hres
      cases hd.symm.trans hres
    · intro hl hfits
      obtain ⟨q, hq⟩ := hl.2.1
      exact ((problemUnpack_ok hx hl.1 hq).mpr hfits hd).elim
  obtain ⟨hreturned, hfailed⟩ := problemUnpack_reads hx hd
  by_cases hl : LoadsWith env w p file
  · obtain ⟨q, he, _⟩ := hreturned hl
    have hfits : FileFits file := by
      obtain ⟨q', hq'⟩ := hl.2.1
      exact (problemUnpack_ok hx hl.1 hq').mp hd
    have hiff := returned_eq_iff env.length (min (8 * (headerOf file).announced) (file.length - 96))
    generalize env.length + 48 + UInt64.ofNat (min (8 * (headerOf file).announced)
      (file.length - 96)) - 1 = n at he hiff
    rw [← bytesRead] at hiff
    have hexcess : bytesRead file + excess file = file.length - 48 := by
      have hlen := hl.1
      rw [bytesRead, excess]
      omega
    have hpos : 48 ≤ bytesRead file := Nat.le_add_right 48 _
    constructor
    · intro htrusted _ _
      have hres := htrusted _ he
      have hread := hres.read n q rfl
      obtain ⟨h1, hlt⟩ := hiff.mp hread
      refine ⟨h1, hlt, ?_⟩
      intro length hwrote
      have hn := hwrote.length_eq
      rw [← hres.packed n q length rfl hwrote, hread, ← hexcess] at hn
      omega
    · intro hcond res hres
      obtain ⟨h1, hlt, hwrote⟩ := hcond hl hfits
      cases he.symm.trans hres
      have hread := hiff.mpr ⟨h1, hlt⟩
      constructor
      · refine iff_of_false ?_ ?_
        · intro h0
          have hn0 : n = 0 := h0
          rw [hn0, UInt64.toNat_zero] at hread
          omega
        · rintro ⟨freed, q', ⟨⟩⟩
      · rintro m q' ⟨⟩
        exact hread
      · rintro m q' length ⟨⟩ hlength
        have hzero := hwrote length hlength
        have hn := hlength.length_eq
        apply UInt64.toNat_inj.mp
        rw [hread, hn, ← hexcess]
        omega
  · obtain ⟨freed, q, he⟩ := hfailed hl
    refine iff_of_true ?_ fun hl' => (hl hl').elim
    intro res hres
    cases he.symm.trans hres
    constructor
    · exact iff_of_true rfl ⟨freed, q, rfl⟩
    · rintro n q' ⟨⟩
    · rintro n q' length ⟨⟩

end Loads

theorem length_trusted_iff_testOnly :
    (∀ res, problemUnpack .sample 16 .zero testOnlyFile = some res → res.Trusted testOnlyFile) ↔
      (LoadsWith .sample 16 .zero testOnlyFile → FileFits testOnlyFile →
        UnpackEnv.sample.length = 1 ∧ bytesRead testOnlyFile < 2 ^ 64 ∧
          ∀ length, PackWrote testOnlyFile length → excess testOnlyFile % 2 ^ 64 = 0) :=
  length_trusted_iff UnpackEnv.sample_grants.exact 16 .zero testOnlyFile

/-- Where the variable starts with 0, a file of one row is loaded with a length of 55. -/
theorem length_not_trusted : UnpackEnv.sample.length = 0 ∧
    ∃ file n q, problemPack .sample (.oneRow 0) none = some (.written file 56) ∧
      problemUnpack .sample 16 .zero file = some (.returned n q) ∧ n = 55 ∧
      ¬ (UnpackResult.returned n q).Trusted file := by
  refine ⟨rfl, _, _, _, rfl, rfl, rfl, ?_⟩
  intro htrusted
  have hlength := htrusted.packed _ _ 56 rfl ⟨.sample, .oneRow 0, none, rfl⟩
  revert hlength
  decide

end Aiqb
