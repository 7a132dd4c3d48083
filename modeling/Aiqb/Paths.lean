import Aiqb.Memory
import Mathlib.Data.List.DropRight
import Mathlib.Data.Nat.Digits.Defs

namespace Aiqb
set_option autoImplicit true

def isSlash (c : UInt8) : Bool := c = 47

/-- `_concat_path` of two strings, when memory can be allocated -/
def concatPath (dir file : CString) : CString :=
  let dir := dir.rdropWhile isSlash
  if dir = [] then 46 :: 47 :: file else dir ++ 47 :: file

def hexDigit (d : Nat) : UInt8 := UInt8.ofNat (if d < 10 then 48 + d else 87 + d)

/-- A number as `%lx` writes it. -/
def hex (n : Nat) : CString :=
  if n = 0 then [48] else (Nat.digits 16 n).reverse.map hexDigit

/-- `p%lx.aiq` -/
def fileName (id : UInt64) : CString := 112 :: (hex id.toNat ++ cstr ".aiq")

theorem hexDigit_toNat (hd : d < 16) :
    (hexDigit d).toNat = if d < 10 then 48 + d else 87 + d := by
  rw [hexDigit, UInt8.toNat_ofNat']
  split <;> omega

theorem hexDigit_inj (hd : d < 16) (he : e < 16) (h : hexDigit d = hexDigit e) : d = e := by
  have hn := congrArg UInt8.toNat h
  rw [hexDigit_toNat hd, hexDigit_toNat he] at hn
  split at hn <;> split at hn <;> omega

theorem map_hexDigit_inj {ds es : List Nat} (hd : ∀ d ∈ ds, d < 16) (he : ∀ e ∈ es, e < 16)
    (h : ds.map hexDigit = es.map hexDigit) : ds = es := by
  induction ds generalizing es with
  | nil => exact (List.map_eq_nil_iff.mp h.symm).symm
  | cons d ds ih =>
    cases es with
    | nil => cases h
    | cons e es =>
      rw [List.forall_mem_cons] at hd he
      rw [List.map_cons, List.map_cons, List.cons.injEq] at h
      rw [hexDigit_inj hd.1 he.1 h.1, ih hd.2 he.2 h.2]

theorem hex_inj (h : hex m = hex n) : m = n := by
  have hdigits (k : Nat) : ∀ d ∈ (Nat.digits 16 k).reverse, d < 16 := by
    intro d hd
    exact Nat.digits_lt_base (by decide) (List.mem_reverse.mp hd)
  have hzero (k : Nat) (hk : [48] = (Nat.digits 16 k).reverse.map hexDigit) : k = 0 := by
    have h0 : ∀ d ∈ [0], d < 16 := by simp
    have hlist : [0] = (Nat.digits 16 k).reverse := map_hexDigit_inj h0 (hdigits k) hk
    have hrev : Nat.digits 16 k = [0] := by
      rw [← List.reverse_reverse (Nat.digits 16 k), ← hlist]
      rfl
    rw [← Nat.ofDigits_digits 16 k, hrev]
    rfl
  unfold hex at h
  split at h
  · next hm =>
    split at h
    · next hn => rw [hm, hn]
    · rw [hm, hzero n h]
  · split at h
    · next hn => rw [hn, hzero m h.symm]
    · have hlist := map_hexDigit_inj (hdigits m) (hdigits n) h
      exact Nat.digits_inj_iff.mp (List.reverse_injective hlist)

/-- Different ids have files of different names. -/
theorem fileName_inj (h : fileName i = fileName j) : i = j := by
  have hhex : hex i.toNat = hex j.toNat := List.append_cancel_right (List.cons.inj h).2
  exact UInt64.toNat_inj.mp (hex_inj hhex)

end Aiqb
