import Mathlib.Data.Nat.Digits.Lemmas

set_option autoImplicit true

namespace Decimals

/-- The natural number nearest to a quotient, and the even one of two. -/
def roundEven (n d : Nat) : Nat :=
  if d < 2 * (n % d) ∨ 2 * (n % d) = d ∧ (n / d) % 2 = 1 then n / d + 1 else n / d

/-- A number is rounded below an even bound when it is more than one half below it. -/
theorem roundEven_lt_iff (hd : 0 < d) (hk : k % 2 = 0) :
    roundEven n d < k ↔ 2 * n + d < 2 * (k * d) := by
  have hn : d * (n / d) + n % d = n := Nat.div_add_mod n d
  have hr : n % d < d := Nat.mod_lt n hd
  unfold roundEven
  generalize n / d = q at *
  generalize n % d = r at *
  subst hn
  have hbelow (j : Nat) (h : q + j ≤ k) : d * q + j * d ≤ k * d := by
    have hmul := Nat.mul_le_mul_right d h
    rwa [Nat.add_mul, Nat.mul_comm q d] at hmul
  have habove (j : Nat) (h : k ≤ q + j) : k * d ≤ d * q + j * d := by
    have hmul := Nat.mul_le_mul_right d h
    rwa [Nat.add_mul, Nat.mul_comm q d] at hmul
  split
  · next hup =>
    constructor
    · intro h
      have hroom := hbelow 2 (by omega)
      omega
    · intro h
      by_contra hle
      have hroom := habove 1 (by omega)
      omega
  · next hdown =>
    constructor
    · intro h
      by_cases htie : 2 * r = d
      · have hroom := hbelow 2 (by omega)
        omega
      · have hroom := hbelow 1 (by omega)
        omega
    · intro h
      by_contra hle
      have hroom := habove 0 (by omega)
      omega

def digit (d : Nat) : UInt8 := UInt8.ofNat (48 + d)

def numeral (n : Nat) : List UInt8 :=
  if n = 0 then [digit 0] else (Nat.digits 10 n).reverse.map digit

theorem numeral_length_le_iff (hk : 0 < k) (n : Nat) : (numeral n).length ≤ k ↔ n < 10 ^ k := by
  unfold numeral
  split
  · next h =>
    subst h
    exact iff_of_true hk (Nat.pow_pos (by decide))
  · rw [List.length_map, List.length_reverse, Nat.digits_length_le_iff (by decide)]

theorem digit_toNat (hd : d < 10) : (digit d).toNat = 48 + d := by
  rw [digit, UInt8.toNat_ofNat']
  omega

theorem mem_numeral {c : UInt8} (h : c ∈ numeral n) : 48 ≤ c.toNat ∧ c.toNat < 58 := by
  unfold numeral at h
  split at h
  · obtain rfl := List.mem_singleton.mp h
    decide
  · obtain ⟨d, hd, rfl⟩ := List.mem_map.mp h
    have hlt : d < 10 := Nat.digits_lt_base (by decide) (List.mem_reverse.mp hd)
    rw [digit_toNat hlt]
    omega

theorem map_digit_inj {ds es : List Nat} (hds : ∀ d ∈ ds, d < 10) (hes : ∀ e ∈ es, e < 10)
    (h : ds.map digit = es.map digit) : ds = es := by
  induction ds generalizing es with
  | nil => exact (List.map_eq_nil_iff.mp h.symm).symm
  | cons d ds ih =>
    cases es with
    | nil => cases h
    | cons e es =>
      rw [List.forall_mem_cons] at hds hes
      rw [List.map_cons, List.map_cons, List.cons.injEq] at h
      have hhead := congrArg UInt8.toNat h.1
      rw [digit_toNat hds.1, digit_toNat hes.1, Nat.add_left_cancel_iff] at hhead
      rw [hhead, ih hds.2 hes.2 h.2]

theorem numeral_eq (n : Nat) :
    ∃ ds : List Nat, numeral n = ds.map digit ∧ (∀ d ∈ ds, d < 10) ∧
      Nat.ofDigits 10 ds.reverse = n := by
  unfold numeral
  split
  · next h => exact ⟨[0], rfl, by decide, h.symm⟩
  · refine ⟨(Nat.digits 10 n).reverse, rfl, ?_, ?_⟩
    · exact fun d hd => Nat.digits_lt_base (by decide) (List.mem_reverse.mp hd)
    · rw [List.reverse_reverse, Nat.ofDigits_digits]

theorem numeral_inj (h : numeral m = numeral n) : m = n := by
  obtain ⟨ds, hds, hdlt, hm⟩ := numeral_eq m
  obtain ⟨es, hes, helt, hn⟩ := numeral_eq n
  rw [hds, hes] at h
  rw [← hm, ← hn, map_digit_inj hdlt helt h]

end Decimals
