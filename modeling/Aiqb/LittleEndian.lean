import Mathlib.Algebra.Order.Group.Nat
import Mathlib.Data.Nat.Init
import Mathlib.Tactic.Ring

set_option autoImplicit true

namespace LittleEndian

def encode : Nat → Nat → List UInt8
  | 0, _ => []
  | w + 1, n => UInt8.ofNat n :: encode w (n / 256)

def decode : List UInt8 → Nat
  | [] => 0
  | b :: bs => b.toNat + 256 * decode bs

@[simp] theorem encode_length (w n : Nat) : (encode w n).length = w := by
  induction w generalizing n with
  | zero => rfl
  | succ w ih => simp only [encode, List.length_cons, ih]

theorem decode_encode (w n : Nat) : decode (encode w n) = n % 256 ^ w := by
  induction w generalizing n with
  | zero => rw [Nat.pow_zero, Nat.mod_one]; rfl
  | succ w ih =>
    have hbyte : (UInt8.ofNat n).toNat = n % 256 := UInt8.toNat_ofNat'
    rw [encode, decode, ih, hbyte, Nat.pow_succ', Nat.mod_mul]

theorem decode_encode_of_lt (h : n < 256 ^ w) : decode (encode w n) = n := by
  rw [decode_encode, Nat.mod_eq_of_lt h]

theorem decode_lt (bs : List UInt8) : decode bs < 256 ^ bs.length := by
  induction bs with
  | nil => exact Nat.one_pos
  | cons b bs ih =>
    have hb := b.toNat_lt
    rw [decode, List.length_cons, Nat.pow_succ']
    omega

theorem encode_decode (bs : List UInt8) : encode bs.length (decode bs) = bs := by
  induction bs with
  | nil => rfl
  | cons b bs ih =>
    have hb := b.toNat_lt
    have hlow : UInt8.ofNat (b.toNat + 256 * decode bs) = b := by
      apply UInt8.toNat_inj.mp
      rw [UInt8.toNat_ofNat']
      omega
    have hhigh : (b.toNat + 256 * decode bs) / 256 = decode bs := by omega
    rw [List.length_cons, encode, decode, hlow, hhigh, ih]

def field (bytes : List UInt8) (offset w : Nat) : Nat := decode ((bytes.drop offset).take w)

theorem field_lt (bytes : List UInt8) (offset w : Nat) : field bytes offset w < 256 ^ w := by
  apply Nat.lt_of_lt_of_le (decode_lt _)
  apply Nat.pow_le_pow_right (Nat.succ_pos 255)
  rw [List.length_take]
  exact Nat.min_le_left w _

theorem encode_field (h : offset + w ≤ bytes.length) :
    encode w (field bytes offset w) = (bytes.drop offset).take w := by
  have hlen : ((bytes.drop offset).take w).length = w := by
    rw [List.length_take, List.length_drop]
    omega
  have hback := encode_decode ((bytes.drop offset).take w)
  rwa [hlen] at hback

theorem field_skip {xs : List UInt8} (h : xs.length ≤ offset) (ys : List UInt8) (w : Nat) :
    field (xs ++ ys) offset w = field ys (offset - xs.length) w := by
  rw [field, field, List.drop_append, List.drop_of_length_le h, List.nil_append]

theorem field_encode (h : n < 256 ^ w) (ys : List UInt8) : field (encode w n ++ ys) 0 w = n := by
  rw [field, List.drop_zero, List.take_left' (encode_length w n), decode_encode_of_lt h]

theorem field_encode_last (h : n < 256 ^ w) : field (encode w n) 0 w = n := by
  rw [← List.append_nil (encode w n), field_encode h]

theorem field_uint8 (v : UInt8) (ys : List UInt8) : field (encode 1 v.toNat ++ ys) 0 1 = v.toNat :=
  field_encode (w := 1) v.toNat_lt ys

theorem field_uint16 (v : UInt16) (ys : List UInt8) :
    field (encode 2 v.toNat ++ ys) 0 2 = v.toNat := field_encode (w := 2) v.toNat_lt ys

theorem field_uint32 (v : UInt32) (ys : List UInt8) :
    field (encode 4 v.toNat ++ ys) 0 4 = v.toNat := field_encode (w := 4) v.toNat_lt ys

theorem field_uint64 (v : UInt64) (ys : List UInt8) :
    field (encode 8 v.toNat ++ ys) 0 8 = v.toNat := field_encode (w := 8) v.toNat_lt ys

theorem field_uint64_last (v : UInt64) : field (encode 8 v.toNat) 0 8 = v.toNat :=
  field_encode_last (w := 8) v.toNat_lt

end LittleEndian
