import Mathlib.Algebra.Group.Nat.Defs
import Mathlib.Data.Nat.Init
import Mathlib.Logic.Function.Basic

namespace Aiqb
set_option autoImplicit true

abbrev CString := List UInt8

def cstr (s : String) : CString := s.toList.map fun c => UInt8.ofNat c.toNat

def statusNew : UInt8 := 78
def statusInProgress : UInt8 := 73
def statusSolved : UInt8 := 83

/-- What malloc returns: a place, a size in bytes and the 8-byte cells stored there. Elements of
type `unsigned long` and of type `double` are both such cells. -/
structure Block where
  addr : Nat
  bytes : UInt64
  cells : Nat → UInt64

namespace Block

def length (b : Block) : Nat := b.bytes.toNat / 8

theorem length_lt (b : Block) : b.length < 2 ^ 61 := by
  have := b.bytes.toNat_lt
  unfold length
  omega

def store (b : Block) (i : UInt64) (v : UInt64) : Option Block :=
  if i.toNat < b.length then some { b with cells := Function.update b.cells i.toNat v } else none

@[simp] theorem store_length {b b' : Block} (hs : b.store i v = some b') :
    b'.length = b.length := by
  simp only [store, Option.ite_none_right_eq_some, Option.some.injEq] at hs
  rw [← hs.2]
  rfl

theorem store_addr {b b' : Block} (hs : b.store i v = some b') : b'.addr = b.addr := by
  simp only [store, Option.ite_none_right_eq_some, Option.some.injEq] at hs
  rw [← hs.2]

theorem store_bytes {b b' : Block} (hs : b.store i v = some b') : b'.bytes = b.bytes := by
  simp only [store, Option.ite_none_right_eq_some, Option.some.injEq] at hs
  rw [← hs.2]

theorem store_cells {b b' : Block} (hs : b.store i v = some b') :
    b'.cells = Function.update b.cells i.toNat v := by
  simp only [store, Option.ite_none_right_eq_some, Option.some.injEq] at hs
  rw [← hs.2]

theorem store_inside {b : Block} (hi : i.toNat < b.length) (v : UInt64) :
    ∃ b', b.store i v = some b' := by
  simp only [store, if_pos hi, Option.some.injEq, exists_eq']

theorem store_bound {b b' : Block} (hs : b.store i v = some b') : i.toNat < b.length := by
  simp only [store, Option.ite_none_right_eq_some] at hs
  exact hs.1

end Block

/-- The first `n` elements behind a pointer, if all of them may be read. -/
def readArray (a : Option Block) (n : Nat) : Option (List UInt64) :=
  if n = 0 then some []
  else a.bind fun b => if n ≤ b.length then some ((List.range n).map b.cells) else none

@[simp] theorem readArray_zero (a : Option Block) : readArray a 0 = some [] := rfl

theorem readArray_length (hr : readArray a n = some xs) : xs.length = n := by
  unfold readArray at hr
  split at hr
  · next hn => cases hr; exact hn.symm
  · obtain ⟨b, _, hb⟩ := Option.bind_eq_some_iff.mp hr
    simp only [Option.ite_none_right_eq_some, Option.some.injEq] at hb
    rw [← hb.2, List.length_map, List.length_range]

theorem readArray_some {b : Block} (hn : n ≤ b.length) :
    readArray (some b) n = some ((List.range n).map b.cells) := by
  by_cases h0 : n = 0
  · subst h0; rfl
  · simp only [readArray, if_neg h0, Option.bind_some, if_pos hn]

theorem readArray_bound (hr : readArray a n = some xs) : n < 2 ^ 61 := by
  unfold readArray at hr
  split at hr
  · omega
  · obtain ⟨b, _, hb⟩ := Option.bind_eq_some_iff.mp hr
    simp only [Option.ite_none_right_eq_some, Option.some.injEq] at hb
    exact Nat.lt_of_le_of_lt hb.1 b.length_lt

def ArrayHolds (a : Option Block) (xs : List UInt64) (k : Nat) : Prop :=
  xs = [] ∨ ∃ b, a = some b ∧ xs.length ≤ b.length ∧
    ∀ j v, j < k → xs[j]? = some v → b.cells j = v

namespace ArrayHolds

variable {a : Option Block} {xs : List UInt64} {k : Nat}

theorem fresh {b : Block} {n : UInt64} (hb : b.bytes = n * 8) (hn : n.toNat = xs.length)
    (hlt : xs.length < 2 ^ 61) : ArrayHolds (some b) xs 0 := by
  refine .inr ⟨b, rfl, ?_, fun j _ hj => absurd hj (Nat.not_lt_zero j)⟩
  have h8 : (n * 8).toNat = n.toNat * 8 := by
    rw [UInt64.toNat_mul, show (8 : UInt64).toNat = 8 from rfl]
    omega
  rw [Block.length, hb, h8, hn]
  omega

theorem read (h : ArrayHolds a xs k) (hk : xs.length ≤ k) : readArray a xs.length = some xs := by
  rcases h with rfl | ⟨b, rfl, hroom, hcells⟩
  · rfl
  · rw [readArray_some hroom]
    congr 1
    apply List.ext_getElem?
    intro j
    rw [List.getElem?_map]
    by_cases hj : j < xs.length
    · rw [List.getElem?_range hj, Option.map_some]
      have hv := List.getElem?_eq_getElem hj
      rw [hv, hcells j _ (by omega) hv]
    · have hlen : xs.length ≤ j := Nat.le_of_not_lt hj
      rw [List.getElem?_eq_none (by rw [List.length_range]; exact hlen),
        List.getElem?_eq_none hlen, Option.map_none]

theorem full (h : ArrayHolds a xs k) (hk : xs.length ≤ k) (k' : Nat) : ArrayHolds a xs k' := by
  rcases h with h | ⟨b, hb, hroom, hcells⟩
  · exact .inl h
  · refine .inr ⟨b, hb, hroom, ?_⟩
    intro j v _ hv
    have hj := (List.getElem?_eq_some_iff.mp hv).1
    exact hcells j v (by omega) hv

theorem store (h : ArrayHolds a xs k) (hv : xs[k]? = some v) (hi : i.toNat = k) :
    ∃ b b', a = some b ∧ b.store i v = some b' ∧ ArrayHolds (some b') xs (k + 1) := by
  have hk := (List.getElem?_eq_some_iff.mp hv).1
  rcases h with rfl | ⟨b, rfl, hroom, hcells⟩
  · cases hk
  · obtain ⟨b', hs⟩ := b.store_inside (i := i) (by omega) v
    refine ⟨b, b', rfl, hs, .inr ⟨b', rfl, ?_, ?_⟩⟩
    · rw [Block.store_length hs]
      exact hroom
    · intro j u hj hu
      rw [Block.store_cells hs, hi]
      by_cases he : j = k
      · subst he
        rw [Function.update_self]
        exact Option.some.inj (hv.symm.trans hu)
      · rw [Function.update_of_ne he]
        exact hcells j u (by omega) hu

end ArrayHolds

end Aiqb
