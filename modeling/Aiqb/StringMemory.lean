import Mathlib.Data.List.GetD
import Mathlib.Logic.Function.Basic

set_option autoImplicit true

namespace StringMemory

/-- The bytes around a pointer, and the offsets that were read or written. -/
structure Cells where
  byte : Int → UInt8
  touched : List Int

namespace Cells

def ofString (s : List UInt8) (outside : Int → UInt8) : Cells where
  byte i := if 0 ≤ i ∧ i ≤ s.length then s.getD i.toNat 0 else outside i
  touched := []

def read (m : Cells) (i : Int) : Cells := { m with touched := i :: m.touched }

def write (m : Cells) (i : Int) (b : UInt8) : Cells where
  byte := Function.update m.byte i b
  touched := i :: m.touched

def span (i : Int) (n : Nat) : List Int := (List.range n).map fun k => i + (k : Nat)

def readSpan (m : Cells) (i : Int) (n : Nat) : Cells := { m with touched := span i n ++ m.touched }

def move (m : Cells) (dst src : Int) (n : Nat) : Cells where
  byte i := if dst ≤ i ∧ i < dst + n then m.byte (src + (i - dst)) else m.byte i
  touched := span dst n ++ span src n ++ m.touched

/-- `memcpy` from other memory -/
def copy (m : Cells) (dst : Int) (source : Cells) (n : Nat) : Cells where
  byte i := if dst ≤ i ∧ i < dst + n then source.byte (i - dst) else m.byte i
  touched := span dst n ++ m.touched

def fresh (byte : Int → UInt8) : Cells := ⟨byte, []⟩

structure Holds (m : Cells) (s : List UInt8) : Prop where
  plain : 0 ∉ s
  byte : ∀ i : Nat, i ≤ s.length → m.byte i = s.getD i 0

/-- Nothing was touched but a string of the length, and its terminator. -/
def Inside (m : Cells) (length : Nat) : Prop := ∀ i ∈ m.touched, 0 ≤ i ∧ i ≤ length

def Fits (m : Cells) (size : Nat) : Prop := ∀ i ∈ m.touched, 0 ≤ i ∧ i < size

def Begins (m : Cells) (xs : List UInt8) : Prop := ∀ i : Nat, i < xs.length → m.byte i = xs.getD i 0

/-- The string that starts at the pointer, if it is shorter than the bound. -/
def text (m : Cells) (bound : Nat) : List UInt8 :=
  ((List.range bound).map fun i => m.byte (i : Nat)).takeWhile (· != 0)

variable {m : Cells} {s s' : List UInt8} {i j : Int}

theorem mem_span : j ∈ span i n ↔ i ≤ j ∧ j < i + n := by
  simp only [span, List.mem_map, List.mem_range]
  constructor
  · rintro ⟨k, hk, rfl⟩
    omega
  · intro h
    exact ⟨(j - i).toNat, by omega, by omega⟩

theorem move_byte_inside (m : Cells) {dst src : Int} {n : Nat} (hi : dst ≤ i ∧ i < dst + n) :
    (m.move dst src n).byte i = m.byte (src + (i - dst)) := if_pos hi

theorem move_byte_outside (m : Cells) {dst src : Int} {n : Nat} (hi : ¬ (dst ≤ i ∧ i < dst + n)) :
    (m.move dst src n).byte i = m.byte i := if_neg hi

theorem ofString_byte (s : List UInt8) (outside : Int → UInt8) {k : Nat} (hk : k ≤ s.length) :
    (ofString s outside).byte k = s.getD k 0 := by
  rw [ofString]
  exact if_pos ⟨Int.natCast_nonneg k, Int.ofNat_le.mpr hk⟩

theorem Holds.length_le (h : m.Holds s) (h' : m.Holds s') : s.length ≤ s'.length := by
  by_contra hlt
  rw [Nat.not_le] at hlt
  have hb := h.byte s'.length (Nat.le_of_lt hlt)
  rw [h'.byte s'.length (Nat.le_refl _), List.getD_eq_getElem _ _ hlt,
    List.getD_eq_default _ _ (Nat.le_refl _)] at hb
  exact h.plain (hb ▸ List.getElem_mem hlt)

theorem Holds.unique (h : m.Holds s) (h' : m.Holds s') : s = s' := by
  apply List.ext_getElem (Nat.le_antisymm (h.length_le h') (h'.length_le h))
  intro i hi hi'
  have hb := h.byte i (Nat.le_of_lt hi)
  rw [h'.byte i (Nat.le_of_lt hi'), List.getD_eq_getElem _ _ hi, List.getD_eq_getElem _ _ hi'] at hb
  exact hb.symm

theorem Holds.text (h : m.Holds s) (hlen : s.length < bound) : m.text bound = s := by
  have hsplit : (List.range bound).map (fun i => m.byte (i : Nat)) =
      s ++ 0 :: (List.range (bound - s.length - 1)).map fun i =>
        m.byte ((s.length + 1 + i : Nat)) := by
    apply List.ext_getElem
    · simp only [List.length_map, List.length_range, List.length_append, List.length_cons]
      omega
    · intro i hi hi'
      rw [List.getElem_map, List.getElem_range]
      rcases Nat.lt_trichotomy i s.length with hlt | heq | hgt
      · rw [List.getElem_append_left hlt, h.byte i (Nat.le_of_lt hlt), List.getD_eq_getElem _ _ hlt]
      · subst heq
        rw [h.byte _ (Nat.le_refl _), List.getD_eq_default _ _ (Nat.le_refl _),
          List.getElem_append_right (Nat.le_refl _)]
        simp
      · rw [List.getElem_append_right (Nat.le_of_lt hgt), List.getElem_cons, dif_neg (by omega),
          List.getElem_map, List.getElem_range]
        congr 2
        omega
  have hall : ∀ b ∈ s, (b != 0) = true := by
    intro b hb
    exact bne_iff_ne.mpr fun h0 => h.plain (h0 ▸ hb)
  rw [Cells.text, hsplit, List.takeWhile_append_of_pos hall, List.takeWhile_cons_of_neg (by decide),
    List.append_nil]

theorem Inside.read (h : m.Inside n) (hi : 0 ≤ i ∧ i ≤ n) : (m.read i).Inside n := by
  intro j hj
  rcases List.mem_cons.mp hj with rfl | hj
  · exact hi
  · exact h j hj

theorem Inside.readSpan {k : Nat} (h : m.Inside n) (hi : 0 ≤ i) (hk : i + k ≤ n + 1) :
    (m.readSpan i k).Inside n := by
  intro j hj
  rcases List.mem_append.mp hj with hj | hj
  · rw [mem_span] at hj
    omega
  · exact h j hj

theorem Inside.move {dst src : Int} {k : Nat} (h : m.Inside n) (hdst : 0 ≤ dst ∧ dst + k ≤ n + 1)
    (hsrc : 0 ≤ src ∧ src + k ≤ n + 1) : (m.move dst src k).Inside n := by
  intro j hj
  simp only [Cells.move, List.mem_append, mem_span] at hj
  rcases hj with (hj | hj) | hj
  · omega
  · omega
  · exact h j hj

theorem Fits.write {size : Nat} (h : m.Fits size) (hi : 0 ≤ i ∧ i < size) (b : UInt8) :
    (m.write i b).Fits size := by
  intro j hj
  rcases List.mem_cons.mp hj with rfl | hj
  · exact hi
  · exact h j hj

theorem Fits.copy {size k : Nat} (h : m.Fits size) (hi : 0 ≤ i ∧ i + k ≤ size) (source : Cells) :
    (m.copy i source k).Fits size := by
  intro j hj
  rcases List.mem_append.mp hj with hj | hj
  · rw [mem_span] at hj
    omega
  · exact h j hj

theorem Begins.nil (m : Cells) : m.Begins [] := fun _ hi => absurd hi (Nat.not_lt_zero _)

theorem Begins.copy {xs ys : List UInt8} {source : Cells} (h : m.Begins xs)
    (hy : source.Begins ys) : (m.copy xs.length source ys.length).Begins (xs ++ ys) := by
  intro i hi
  rw [List.length_append] at hi
  by_cases hlt : i < xs.length
  · rw [List.getD_append _ _ _ _ hlt, ← h i hlt]
    exact if_neg (by omega)
  · have hsource := hy (i - xs.length) (by omega)
    have hk : (i : Int) - xs.length = (i - xs.length : Nat) := by omega
    rw [List.getD_append_right _ _ _ _ (by omega), ← hsource, ← hk]
    exact if_pos (by omega)

theorem Begins.write {xs : List UInt8} (h : m.Begins xs) (b : UInt8) :
    (m.write xs.length b).Begins (xs ++ [b]) := by
  intro i hi
  rw [List.length_append, List.length_singleton] at hi
  by_cases hlt : i < xs.length
  · rw [List.getD_append _ _ _ _ hlt, ← h i hlt]
    exact Function.update_of_ne (by omega) _ _
  · obtain rfl : i = xs.length := by omega
    rw [List.getD_append_right _ _ _ _ (by omega), Nat.sub_self]
    exact Function.update_self _ _ _

theorem Begins.holds {xs : List UInt8} (h : m.Begins (xs ++ [0])) (h0 : 0 ∉ xs) : m.Holds xs := by
  refine ⟨h0, ?_⟩
  intro i hi
  rw [h i (by rw [List.length_append]; exact Nat.lt_succ_of_le hi)]
  by_cases hlt : i < xs.length
  · exact List.getD_append _ _ _ _ hlt
  · obtain rfl : i = xs.length := by omega
    rw [List.getD_append_right _ _ _ _ (Nat.le_refl _), Nat.sub_self,
      List.getD_eq_default _ _ (Nat.le_refl _)]
    rfl

theorem ofString_begins (s : List UInt8) (outside : Int → UInt8) (n : Nat) :
    (ofString s outside).Begins (s.take n) := by
  intro i hi
  rw [List.length_take] at hi
  rw [ofString_byte s outside (by omega), List.getD_eq_getElem _ _ (by omega),
    List.getD_eq_getElem _ _ (by rw [List.length_take]; omega), List.getElem_take]

theorem ofString_inside (s : List UInt8) (outside : Int → UInt8) (n : Nat) :
    (ofString s outside).Inside n := fun _ hj => nomatch hj

end Cells

end StringMemory
