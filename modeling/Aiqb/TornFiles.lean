import Aiqb.PackHeader
import Aiqb.UnpackPack

namespace Aiqb
set_option autoImplicit true

open LittleEndian

/-- A file of which only the first `n` bytes were overwritten. -/
def overlay (n : Nat) (new old : List UInt8) : List UInt8 :=
  new.take n ++ old.drop (min n new.length)

section Bytes

variable {new old file : List UInt8} {h : FileHeader}

theorem overlay_getElem (n : Nat) (new old : List UInt8) (i : Nat) :
    (overlay n new old)[i]? = if i < min n new.length then new[i]? else old[i]? := by
  rw [overlay, List.getElem?_append, List.length_take]
  split
  · next hi => rw [List.getElem?_take, if_pos (by omega)]
  · next hi =>
    rw [List.getElem?_drop]
    congr 1
    omega

theorem overlay_slice (n : Nat) (h : slice new o w = slice old o w) :
    slice (overlay n new old) o w = slice old o w := by
  apply List.ext_getElem?
  intro i
  have hi := congrArg (·[i]?) h
  simp only [slice, List.getElem?_take, List.getElem?_drop, overlay_getElem] at hi ⊢
  split
  · next hlt =>
    rw [if_pos hlt, if_pos hlt] at hi
    split
    · exact hi
    · rfl
  · rfl

theorem overlay_slice_new (hn : o + w ≤ n) (hlen : o + w ≤ new.length) :
    slice (overlay n new old) o w = slice new o w := by
  apply List.ext_getElem?
  intro i
  simp only [slice, List.getElem?_take, List.getElem?_drop, overlay_getElem]
  split
  · rw [if_pos (by omega)]
  · rfl

theorem overlay_slice_old (hn : n ≤ o) :
    slice (overlay n new old) o w = slice old o w := by
  apply List.ext_getElem?
  intro i
  simp only [slice, List.getElem?_take, List.getElem?_drop, overlay_getElem]
  split
  · rw [if_neg (by omega)]
  · rfl

theorem overlay_drop (n : Nat) (hlen : new.length ≤ k) :
    (overlay n new old).drop k = old.drop k := by
  apply List.ext_getElem?
  intro i
  rw [List.getElem?_drop, List.getElem?_drop, overlay_getElem, if_neg (by omega)]

theorem overlay_length (n : Nat) (hlen : new.length ≤ old.length) :
    (overlay n new old).length = old.length := by
  rw [overlay, List.length_append, List.length_take, List.length_drop]
  omega

theorem field_eq_iff (hlen : o + w ≤ file.length) (hv : v < 256 ^ w) :
    field file o w = v ↔ slice file o w = encode w v := by
  constructor
  · rintro rfl
    exact (encode_field hlen).symm
  · intro h
    change decode (slice file o w) = v
    rw [h, decode_encode_of_lt hv]

theorem slice_take (h : o + w ≤ n) : slice (file.take n) o w = slice file o w := by
  rw [slice, slice, List.drop_take, List.take_take, Nat.min_eq_left (by omega)]

theorem readMetadata_iff : problemReadMetadata file = some h ↔
    48 ≤ file.length ∧ slice file 0 4 = magic ∧ slice file 8 8 = encode 8 h.id.toNat ∧
      slice file 16 8 = encode 8 h.parent.toNat ∧ slice file 24 2 = encode 2 h.priority.toNat ∧
      slice file 32 8 = encode 8 h.time.toNat ∧ slice file 40 1 = encode 1 h.status.toNat := by
  by_cases hlen : 48 ≤ file.length
  · have htake : (file.take 48).length = 48 := by
      rw [List.length_take]
      omega
    have hfield {o w v : Nat} (hw : o + w ≤ 48) (hv : v < 256 ^ w) :
        field (file.take 48) o w = v ↔ slice file o w = encode w v := by
      rw [field_eq_iff (htake.symm ▸ hw) hv, slice_take hw]
    have hmagic : (file.take 48).take 4 = slice file 0 4 := by
      rw [List.take_take]
      rfl
    rw [← hfield (by decide) h.id.toNat_lt, ← hfield (by decide) h.parent.toNat_lt,
      ← hfield (w := 2) (by decide) h.priority.toNat_lt, ← hfield (by decide) h.time.toNat_lt,
      ← hfield (w := 1) (by decide) h.status.toNat_lt, problemReadMetadata]
    simp only [htake, hmagic, ne_eq, not_true_eq_false, if_false, hlen, true_and]
    by_cases hm : slice file 0 4 = magic
    · rw [if_neg (not_not_intro hm), Option.some.injEq]
      have h64 (o : Nat) : field (file.take 48) o 8 % 2 ^ 64 = field (file.take 48) o 8 :=
        Nat.mod_eq_of_lt (field_lt (file.take 48) o 8)
      have h16 : field (file.take 48) 24 2 % 2 ^ 16 = field (file.take 48) 24 2 :=
        Nat.mod_eq_of_lt (field_lt (file.take 48) 24 2)
      have h8 : field (file.take 48) 40 1 % 2 ^ 8 = field (file.take 48) 40 1 :=
        Nat.mod_eq_of_lt (field_lt (file.take 48) 40 1)
      obtain ⟨id, parent, priority, time, status⟩ := h
      simp only [FileHeader.mk.injEq, hm, true_and, ← UInt64.toNat_inj, ← UInt16.toNat_inj,
        ← UInt8.toNat_inj, UInt64.toNat_ofNat', UInt16.toNat_ofNat', UInt8.toNat_ofNat',
        h64, h16, h8]
    · rw [if_pos hm]
      simp [hm]
  · simp [problemReadMetadata, hlen]

/-- Metadata of which only some bytes were written are those of before, with another time, and with
the new status once it was written. -/
theorem readMetadata_overlay (n : Nat) (hold : problemReadMetadata file = some h)
    (new : FileHeader) (pad : MetadataPadding) (hid : new.id = h.id)
    (hparent : new.parent = h.parent) (hpriority : new.priority = h.priority) :
    ∃ time, problemReadMetadata (overlay n (metadataBytes new pad) file) =
      some ⟨h.id, h.parent, h.priority, time, if 40 < n then new.status else h.status⟩ := by
  have hnew : problemReadMetadata (metadataBytes new pad) = some new := by
    have hread := readMetadata_metadataBytes new pad []
    rwa [List.append_nil] at hread
  obtain ⟨hlen', hm', hid', hparent', hpriority', htime', hstatus'⟩ := readMetadata_iff.mp hnew
  obtain ⟨hlen, hm, hid₀, hparent₀, hpriority₀, htime, hstatus⟩ := readMetadata_iff.mp hold
  have hsize : (overlay n (metadataBytes new pad) file).length = file.length :=
    overlay_length n (by rw [metadataBytes_length]; exact hlen)
  have hdecode (bytes : List UInt8) (hb : 40 ≤ bytes.length) :
      slice bytes 32 8 = encode 8 (UInt64.ofNat (decode (slice bytes 32 8))).toNat := by
    have hl : (slice bytes 32 8).length = 8 := by
      rw [slice, List.length_take, List.length_drop]
      omega
    have hlt : decode (slice bytes 32 8) < 2 ^ 64 := by
      have hbound := decode_lt (slice bytes 32 8)
      rw [hl] at hbound
      exact hbound
    have hback := encode_decode (slice bytes 32 8)
    rw [hl] at hback
    rw [UInt64.toNat_ofNat', Nat.mod_eq_of_lt hlt, hback]
  refine ⟨UInt64.ofNat (decode (slice (overlay n (metadataBytes new pad) file) 32 8)),
    readMetadata_iff.mpr ⟨hsize ▸ hlen, ?_, ?_, ?_, ?_, ?_, ?_⟩⟩
  · rw [overlay_slice n (hm'.trans hm.symm), hm]
  · rw [overlay_slice n (hid'.trans (hid ▸ hid₀.symm)), hid₀]
  · rw [overlay_slice n (hparent'.trans (hparent ▸ hparent₀.symm)), hparent₀]
  · rw [overlay_slice n (hpriority'.trans (hpriority ▸ hpriority₀.symm)), hpriority₀]
  · exact hdecode _ (hsize ▸ by omega)
  · split
    · next hn => rw [overlay_slice_new hn (by rw [metadataBytes_length]; decide), hstatus']
    · next hn => rw [overlay_slice_old (by omega), hstatus]

theorem readMetadata_take (n : Nat) (file : List UInt8) :
    problemReadMetadata (file.take n) = if 48 ≤ n then problemReadMetadata file else none := by
  split
  · next hn =>
    rw [problemReadMetadata, problemReadMetadata, List.take_take, Nat.min_eq_left hn]
  · next hn =>
    have hlen : ((file.take n).take 48).length ≠ 48 := by
      rw [List.length_take, List.length_take]
      omega
    rw [problemReadMetadata]
    exact if_pos hlen

end Bytes

/-- Whatever memory it is granted, a load of the file gives up. -/
def Refused (file : List UInt8) : Prop :=
  ∀ (W : Type) (env : UnpackEnv W) (w : W) (q : ProblemT), env.Exact →
    ∃ freed q', problemUnpack env w q file = some (.failed freed q')

section Unpacking

variable {W : Type} {env : UnpackEnv W} {p : ProblemT} {file file' : List UInt8}

theorem unpack_congr (hlen : 48 ≤ file.length) (hlen' : 48 ≤ file'.length)
    (hdrop : file'.drop 48 = file.drop 48) (w : W) (q : ProblemT) :
    problemUnpack env w q file' = problemUnpack env w q file := by
  have htake : (file'.take 48).length = (file.take 48).length := by
    rw [List.length_take, List.length_take, Nat.min_eq_left hlen, Nat.min_eq_left hlen']
  have hrest : file'.drop 96 = file.drop 96 := by
    have h48 := congrArg (List.drop 48) hdrop
    rwa [List.drop_drop, List.drop_drop] at h48
  rw [problemUnpack, problemUnpack, htake, hdrop, hrest]

/-- A file that was cut short is refused, wherever it was cut. -/
theorem refused_cut (hno : (headerOf file).NoOverflow) (hpos : 0 < (headerOf file).elements)
    (hn : n < (headerOf file).fileLength) : Refused (file.take n) := by
  intro W env w q hx
  by_cases hlen : 96 ≤ (file.take n).length
  · have htake := hlen
    rw [List.length_take] at htake
    have hheader : headerOf (file.take n) = headerOf file := by
      rw [headerOf, headerOf, List.drop_take, List.take_take, Nat.min_eq_left (by omega)]
    have hno' : (headerOf (file.take n)).NoOverflow := hheader.symm ▸ hno
    apply (problemUnpack_reads hx (problemUnpack_defined hx hno' w q)).2
    intro hload
    rcases (loads_iff hno' hlen).mp hload.2.2 with hcomplete | hends
    · have hfull := hcomplete.1
      rw [hheader, List.length_take] at hfull
      omega
    · exact absurd (hheader ▸ hends.2.1) (Nat.ne_of_gt hpos)
  · exact ⟨[], q, problemUnpack_short (Nat.not_le.mp hlen)⟩

/-- What is written of a problem before the end of its file is refused. -/
theorem refused_pack {pack : PackEnv} {header : Option FileHeader} {atoms : List UInt64}
    (hpack : problemPack pack p header = some (.written file length))
    (hatoms : packAtoms p = some atoms) (hm : atoms.length < 2 ^ 60) (hf : p.FitsFile)
    (he : p.elements < 2 ^ 64) (hn : n < file.length) : Refused (file.take n) := by
  obtain ⟨atoms', hatoms', _, hfile⟩ := problemPack_written hpack
  obtain rfl := Option.some.inj (hatoms'.symm.trans hatoms)
  have hpoints := hf.points_iff.mpr he
  have hannounced := packAtoms_length hatoms
  have hsame : p.SameHeader (headerOf file) := by
    rw [hfile, headerOf_append (metadataBytes_length _ _), unpackHeader_headerBytes hf]
    exact ⟨rfl, rfl, rfl, rfl, rfl, rfl, rfl, rfl⟩
  have hlength : file.length = (headerOf file).fileLength := by
    rw [hsame.fileLength, hfile, List.length_append, List.length_append, metadataBytes_length,
      headerBytes_length, atomsBytes_length, hannounced, ProblemT.fileLength, ProblemT.announced,
      hpoints]
  have hno : p.NoOverflow := by
    rw [hannounced, ProblemT.announced] at hm
    constructor <;> omega
  have hpos : 0 < (headerOf file).elements := by
    rw [hsame.elements]
    rw [problemPack] at hpack
    split at hpack
    · cases hpack
    · next hguard =>
      obtain ⟨hrows, hrest⟩ := not_or.mp hguard
      have hsizeX : p.sizeX ≠ 0 := fun h0 => hrest (.inl (by rw [h0]; rfl))
      rw [Ne, ← UInt64.toNat_inj] at hsizeX
      rw [← UInt64.toNat_inj] at hrows
      exact Nat.mul_pos (Nat.pos_of_ne_zero hrows)
        (Nat.lt_of_lt_of_le (Nat.pos_of_ne_zero hsizeX) (Nat.le_add_right _ _))
  exact refused_cut (hno.congr hsame) hpos (hlength ▸ hn)

end Unpacking

end Aiqb
