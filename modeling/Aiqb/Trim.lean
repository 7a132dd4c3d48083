import Aiqb.Memory
import Aiqb.StringMemory
import Mathlib.Algebra.Ring.Int.Defs
import Mathlib.Data.List.DropRight

namespace Aiqb
set_option autoImplicit true

open StringMemory

def intOf (n : Nat) : Int := (n : Int).bmod (2 ^ 32)

/-- Arithmetic on `int` is undefined where it overflows. -/
def checkedInt (n : Int) : Option Int := if -2 ^ 31 ≤ n ∧ n < 2 ^ 31 then some n else none

/-- The first loop of `_trim`, with `n` steps left before `c < l` fails. -/
def skipLeading (chr : UInt8) : Nat → Cells → Int → Cells × Int
  | 0, m, c => (m.read c, c)
  | n + 1, m, c => if m.byte c = chr then skipLeading chr n (m.read c) (c + 1) else (m.read c, c)

/-- The second loop of `_trim`, with `n` steps left before `c >= 0` fails. -/
def stripTrailing (chr : UInt8) : Nat → Cells → Int → Cells
  | 0, m, c => m.read c
  | n + 1, m, c =>
    if m.byte c = chr then stripTrailing chr n ((m.read c).write c 0) (c - 1) else m.read c

/-- `_trim` of a string of the length, in the memory around it. -/
def trim (chr : UInt8) (length : Nat) (m : Cells) : Option Cells := do
  let l := intOf length
  let scan := skipLeading chr l.toNat (m.readSpan 0 (length + 1)) 0
  let m ←
    if scan.2 < l then do
      let n ← checkedInt (l - scan.2 + 1)
      some (scan.1.move 0 scan.2 n.toNat)
    else some scan.1
  let c ← checkedInt (l - scan.2 - 1)
  some (stripTrailing chr (c + 1).toNat m c)

/-- The string without its leading and trailing characters of a kind. -/
def trimmed (chr : UInt8) (s : CString) : CString := (s.dropWhile (· == chr)).rdropWhile (· == chr)

/-- The string is left trimmed, and nothing else is touched. -/
def Trims (chr : UInt8) (s : CString) (outside : Int → UInt8) : Prop :=
  ∃ m, trim chr s.length (.ofString s outside) = some m ∧ m.Holds (trimmed chr s) ∧
    m.Inside s.length

/-- Where `l` is the length as an `int`: there is a character of another kind among the first `l`
ones, no size overflows, and when the string is longer than `l`, the rest of it and the character
before the rest are of the kind, or nothing is to be trimmed at all. -/
def TrimWorks (chr : UInt8) (s : CString) : Prop :=
  0 < intOf s.length ∧ (∃ b ∈ s.take (intOf s.length).toNat, b ≠ chr) ∧
    (s.head? ≠ some chr → intOf s.length < 2 ^ 31 - 1) ∧
    (intOf s.length = s.length ∨ (∀ b ∈ s.drop ((intOf s.length).toNat - 1), b = chr) ∨
      s.head? ≠ some chr ∧ s[(intOf s.length).toNat - 1]? ≠ some chr ∧ s.getLast? ≠ some chr)

section Lists

variable {chr b : UInt8} {s xs ys core : CString}

theorem rdropWhile_append (p : α → Bool) (xs ys : List α) :
    (xs ++ ys).rdropWhile p =
      if ys.rdropWhile p = [] then xs.rdropWhile p else xs ++ ys.rdropWhile p := by
  induction ys using List.reverseRecOn with
  | nil => rw [List.append_nil, List.rdropWhile_nil, if_pos rfl]
  | append_singleton ys y ih =>
    rw [← List.append_assoc]
    by_cases hy : p y
    · rw [List.rdropWhile_concat_pos _ _ _ hy, List.rdropWhile_concat_pos _ _ _ hy, ih]
    · rw [List.rdropWhile_concat_neg _ _ _ hy, List.rdropWhile_concat_neg _ _ _ hy,
        if_neg (List.append_ne_nil_of_right_ne_nil _ (List.cons_ne_nil _ _)), List.append_assoc]

theorem dropWhile_of_head (h : s.head? ≠ some chr) : s.dropWhile (· == chr) = s := by
  cases s with
  | nil => rfl
  | cons b s =>
    rw [List.dropWhile_cons_of_neg]
    exact fun he => h (congrArg some (beq_iff_eq.mp he))

theorem rdropWhile_of_last (h : s.getLast? ≠ some chr) : s.rdropWhile (· == chr) = s := by
  rw [List.rdropWhile_eq_self_iff]
  intro hne he
  apply h
  rw [List.getLast?_eq_some_getLast hne, beq_iff_eq.mp he]

end Lists

section Scans

variable {chr : UInt8}

/-- The first loop passes over the characters of the kind, to the first other one. -/
theorem skipLeading_spec (chr : UInt8) {j n : Nat} {m : Cells} {c : Int} (hj : j ≤ n)
    (hall : ∀ i : Nat, i < j → m.byte (c + i) = chr) (hstop : j < n → m.byte (c + j) ≠ chr) :
    ∃ m', skipLeading chr n m c = (m', c + j) ∧ m'.byte = m.byte ∧
      ∀ i ∈ m'.touched, i ∈ m.touched ∨ c ≤ i ∧ i ≤ c + j := by
  induction n generalizing m c j with
  | zero =>
    obtain rfl := Nat.le_zero.mp hj
    refine ⟨m.read c, by simp [skipLeading], rfl, ?_⟩
    intro i hi
    rcases List.mem_cons.mp hi with rfl | hi
    · exact .inr ⟨Int.le_refl _, by simp⟩
    · exact .inl hi
  | succ n ih =>
    cases j with
    | zero =>
      have hc : m.byte c ≠ chr := by simpa using hstop (Nat.succ_pos n)
      refine ⟨m.read c, by simp [skipLeading, if_neg hc], rfl, ?_⟩
      intro i hi
      rcases List.mem_cons.mp hi with rfl | hi
      · exact .inr ⟨Int.le_refl _, by simp⟩
      · exact .inl hi
    | succ j =>
      have hc : m.byte c = chr := by simpa using hall 0 (Nat.succ_pos j)
      have hshift (i : Nat) : c + 1 + (i : Int) = c + ((i + 1 : Nat) : Int) := by omega
      obtain ⟨m', he, hbyte, htouch⟩ := ih (m := m.read c) (c := c + 1) (Nat.le_of_succ_le_succ hj)
        (fun i hi => by rw [hshift]; exact hall (i + 1) (Nat.succ_lt_succ hi))
        (fun hlt => by rw [hshift]; exact hstop (Nat.succ_lt_succ hlt))
      refine ⟨m', by rw [skipLeading, if_pos hc, he, hshift], hbyte, ?_⟩
      intro i hi
      rcases htouch i hi with hi | hi
      · rcases List.mem_cons.mp hi with rfl | hi
        · exact .inr ⟨Int.le_refl _, by omega⟩
        · exact .inl hi
      · exact .inr ⟨by omega, by omega⟩

theorem read_spec (m : Cells) (c : Int) :
    (∀ i, (m.read c).byte i = if c - (0 : Nat) < i ∧ i ≤ c then 0 else m.byte i) ∧
      ∀ i ∈ (m.read c).touched, i ∈ m.touched ∨ c - (0 : Nat) ≤ i ∧ i ≤ c := by
  constructor
  · intro i
    rw [if_neg (by omega)]
    rfl
  · intro i hi
    rcases List.mem_cons.mp hi with rfl | hi
    · exact .inr ⟨by omega, Int.le_refl _⟩
    · exact .inl hi

/-- The second loop clears the characters of the kind, down to the last other one. -/
theorem stripTrailing_spec (chr : UInt8) {j n : Nat} {m : Cells} {c : Int} (hj : j ≤ n)
    (hall : ∀ i : Nat, i < j → m.byte (c - i) = chr) (hstop : j < n → m.byte (c - j) ≠ chr) :
    (∀ i, (stripTrailing chr n m c).byte i = if c - j < i ∧ i ≤ c then 0 else m.byte i) ∧
      ∀ i ∈ (stripTrailing chr n m c).touched, i ∈ m.touched ∨ c - j ≤ i ∧ i ≤ c := by
  induction n generalizing m c j with
  | zero =>
    obtain rfl := Nat.le_zero.mp hj
    exact read_spec m c
  | succ n ih =>
    cases j with
    | zero =>
      have hc : m.byte c ≠ chr := by simpa using hstop (Nat.succ_pos n)
      rw [stripTrailing, if_neg hc]
      exact read_spec m c
    | succ j =>
      have hc : m.byte c = chr := by simpa using hall 0 (Nat.succ_pos j)
      have hshift (i : Nat) : c - 1 - (i : Int) = c - ((i + 1 : Nat) : Int) := by omega
      have hother (i : Int) (hi : i ≠ c) : ((m.read c).write c 0).byte i = m.byte i :=
        Function.update_of_ne hi _ _
      rw [stripTrailing, if_pos hc]
      obtain ⟨hbyte, htouch⟩ := ih (m := (m.read c).write c 0) (c := c - 1)
        (Nat.le_of_succ_le_succ hj)
        (fun i hi => by
          rw [hshift, hother _ (by omega)]
          exact hall (i + 1) (Nat.succ_lt_succ hi))
        (fun hlt => by
          rw [hshift, hother _ (by omega)]
          exact hstop (Nat.succ_lt_succ hlt))
      constructor
      · intro i
        rw [hbyte]
        by_cases hi : i = c
        · subst hi
          rw [if_neg (by omega), if_pos (by omega)]
          exact Function.update_self _ _ _
        · rw [hother i hi]
          by_cases hin : c - (j + 1 : Nat) < i ∧ i ≤ c
          · rw [if_pos hin, if_pos (by omega)]
          · rw [if_neg hin, if_neg (by omega)]
      · intro i hi
        rcases htouch i hi with hi | hi
        · simp only [Cells.write, Cells.read, List.mem_cons] at hi
          rcases hi with rfl | rfl | hi
          · exact .inr ⟨by omega, Int.le_refl _⟩
          · exact .inr ⟨by omega, Int.le_refl _⟩
          · exact .inl hi
        · exact .inr ⟨by omega, by omega⟩

end Scans

section Bounds

variable {chr : UInt8} {s core rest : CString} {a t : Nat} {outside : Int → UInt8}

theorem checkedInt_of (h : -2 ^ 31 ≤ n ∧ n < 2 ^ 31) : checkedInt n = some n := if_pos h

theorem intOf_bounds (n : Nat) : -2 ^ 31 ≤ intOf n ∧ intOf n < 2 ^ 31 := by
  unfold intOf
  constructor
  · have h := Int.le_bmod (x := n) (m := 2 ^ 32) (by decide)
    omega
  · have h := Int.bmod_lt (x := n) (m := 2 ^ 32) (by decide)
    omega

theorem intOf_le (n : Nat) : intOf n ≤ n := by
  unfold intOf
  rw [Int.bmod_def]
  split <;> omega

theorem intOf_short (h : n < 2 ^ 31) : intOf n = n := by
  unfold intOf
  rw [Int.bmod_def]
  split <;> omega

theorem trim_moved (hskip : skipLeading chr (intOf n).toNat (m.readSpan 0 (n + 1)) 0 = (m₁, c))
    (hlt : c < intOf n) (hk : checkedInt (intOf n - c + 1) = some k)
    (hd : checkedInt (intOf n - c - 1) = some d) :
    trim chr n m = some (stripTrailing chr (d + 1).toNat (m₁.move 0 c k.toNat) d) := by
  simp only [trim, hskip]
  simp only [if_pos hlt, hk, hd, Option.bind_eq_bind, Option.bind_some]

theorem trim_kept (hskip : skipLeading chr (intOf n).toNat (m.readSpan 0 (n + 1)) 0 = (m₁, c))
    (hlt : ¬ c < intOf n) (hd : checkedInt (intOf n - c - 1) = some d) :
    trim chr n m = some (stripTrailing chr (d + 1).toNat m₁ d) := by
  simp only [trim, hskip]
  simp only [if_neg hlt, hd, Option.bind_eq_bind, Option.bind_some]

theorem trim_overflow (hskip : skipLeading chr (intOf n).toNat (m.readSpan 0 (n + 1)) 0 = (m₁, c))
    (hlt : c < intOf n) (hk : checkedInt (intOf n - c + 1) = none) : trim chr n m = none := by
  simp only [trim, hskip]
  simp only [if_pos hlt, hk, Option.bind_eq_bind, Option.bind_none]

/-- A string in front of its `l`-th character: leading and trailing characters of a kind, and a
core between them. -/
structure Framed (chr : UInt8) (s : CString) (a : Nat) (core : CString) (t : Nat) (rest : CString) :
    Prop where
  eq : s = List.replicate a chr ++ core ++ List.replicate t chr ++ rest
  ne_nil : core ≠ []
  head : core.head? ≠ some chr
  last : core.getLast? ≠ some chr

/-- A byte that `_trim` leaves: the core is moved to the front, what followed it is cleared, and one
more byte is moved. -/
def leftByte (s core : CString) (a t i : Nat) : UInt8 :=
  if i < core.length then core.getD i 0
  else if i < core.length + t then 0
  else if i = core.length + t then s.getD (a + core.length + t) 0
  else s.getD i 0

namespace Framed

theorem length (h : Framed chr s a core t rest) : s.length = a + core.length + t + rest.length := by
  rw [h.eq]
  simp only [List.length_append, List.length_replicate]

theorem core_pos (h : Framed chr s a core t rest) : 0 < core.length :=
  List.length_pos_of_ne_nil h.ne_nil

theorem byte_leading (h : Framed chr s a core t rest) (hi : i < a) : s.getD i 0 = chr := by
  rw [h.eq, List.append_assoc, List.append_assoc, List.getD_append _ _ _ _ (by simpa using hi),
    List.getD_eq_getElem _ _ (by simpa using hi), List.getElem_replicate]

theorem byte_core (h : Framed chr s a core t rest) (hi : i < core.length) :
    s.getD (a + i) 0 = core.getD i 0 := by
  rw [h.eq, List.append_assoc, List.append_assoc, List.getD_append_right _ _ _ _ (by simp),
    List.getD_append _ _ _ _ (by simpa using hi)]
  simp

theorem byte_trailing (h : Framed chr s a core t rest) (hi : i < t) :
    s.getD (a + core.length + i) 0 = chr := by
  rw [h.eq, List.append_assoc, List.getD_append_right _ _ _ _ (by simp),
    List.getD_append _ _ _ _ (by simp; omega), List.getD_eq_getElem _ _ (by simp; omega),
    List.getElem_replicate]

theorem core_head (h : Framed chr s a core t rest) : core.getD 0 0 ≠ chr := by
  intro he
  apply h.head
  cases hc : core with
  | nil => exact absurd hc h.ne_nil
  | cons b core =>
    rw [hc] at he
    exact congrArg some he

theorem core_last (h : Framed chr s a core t rest) : core.getD (core.length - 1) 0 ≠ chr := by
  have hlt : core.length - 1 < core.length := Nat.sub_one_lt (Nat.ne_of_gt h.core_pos)
  intro he
  apply h.last
  rw [List.getD_eq_getElem _ _ hlt] at he
  rw [List.getLast?_eq_getElem?, List.getElem?_eq_getElem hlt, he]

/-- The bytes that `_trim` leaves when none of its steps leaves the string. -/
theorem trim_byte (h : Framed chr s a core t rest)
    (hl : intOf s.length = (a + core.length + t : Nat))
    (hfit : a = 0 → intOf s.length < 2 ^ 31 - 1) (outside : Int → UInt8) :
    ∃ m, trim chr s.length (.ofString s outside) = some m ∧ m.Inside s.length ∧
      ∀ i : Nat, i ≤ s.length → m.byte i = leftByte s core a t i := by
  have hlen := h.length
  have hcore := h.core_pos
  have hbound := (intOf_bounds s.length).2
  have hn : (intOf s.length).toNat = a + core.length + t := by rw [hl, Int.toNat_natCast]
  have hbyte {k : Nat} (hk : k ≤ s.length) :
      ((Cells.ofString s outside).readSpan 0 (s.length + 1)).byte k = s.getD k 0 :=
    Cells.ofString_byte s outside hk
  obtain ⟨m₁, hskip, hbyte₁, htouch₁⟩ := skipLeading_spec chr
    (m := (Cells.ofString s outside).readSpan 0 (s.length + 1)) (c := 0) (j := a)
    (n := a + core.length + t) (by omega)
    (fun i hi => by rw [Int.zero_add, hbyte (by omega), h.byte_leading hi])
    (fun _ => by
      have hhead := h.byte_core hcore
      rw [Nat.add_zero] at hhead
      rw [Int.zero_add, hbyte (by omega), hhead]
      exact h.core_head)
  have hmoved {k : Nat} (hk : k ≤ core.length + t) :
      (m₁.move 0 (0 + (a : Int)) (core.length + t + 1)).byte k = s.getD (a + k) 0 := by
    have hk' : 0 + (a : Int) + ((k : Int) - 0) = ((a + k : Nat) : Int) := by omega
    rw [Cells.move_byte_inside _ (by omega), hk', hbyte₁, hbyte (by omega)]
  have hc : intOf s.length - (0 + (a : Int)) - 1 = ((core.length + t - 1 : Nat) : Int) := by omega
  obtain ⟨hcleared, htouch⟩ := stripTrailing_spec chr
    (m := m₁.move 0 (0 + (a : Int)) (core.length + t + 1))
    (c := ((core.length + t - 1 : Nat) : Int)) (j := t) (n := core.length + t) (by omega)
    (fun i hi => by
      have hk : ((core.length + t - 1 : Nat) : Int) - i =
          ((core.length + (t - 1 - i) : Nat) : Int) := by
        omega
      rw [hk, hmoved (by omega), ← Nat.add_assoc, h.byte_trailing (by omega)])
    (fun _ => by
      have hk : ((core.length + t - 1 : Nat) : Int) - t = ((core.length - 1 : Nat) : Int) := by
        omega
      rw [hk, hmoved (by omega), h.byte_core (by omega)]
      exact h.core_last)
  have hroom : -2 ^ 31 ≤ ((core.length + t + 1 : Nat) : Int) ∧
      ((core.length + t + 1 : Nat) : Int) < 2 ^ 31 := by omega
  have hsize : intOf s.length - (0 + (a : Int)) + 1 = ((core.length + t + 1 : Nat) : Int) := by
    omega
  have hlt : 0 + (a : Int) < intOf s.length := by omega
  have hlast : -2 ^ 31 ≤ ((core.length + t - 1 : Nat) : Int) ∧
      ((core.length + t - 1 : Nat) : Int) < 2 ^ 31 := by omega
  have hsteps : (((core.length + t - 1 : Nat) : Int) + 1).toNat = core.length + t := by omega
  refine ⟨stripTrailing chr (core.length + t) (m₁.move 0 (0 + (a : Int)) (core.length + t + 1))
    ((core.length + t - 1 : Nat) : Int), ?_, ?_, ?_⟩
  · have htrim := trim_moved (hn ▸ hskip) hlt (checkedInt_of (hsize ▸ hroom))
      (checkedInt_of (hc ▸ hlast))
    rw [hsize, hc, Int.toNat_natCast, hsteps] at htrim
    exact htrim
  · have hin₁ : m₁.Inside s.length := by
      intro i hi
      rcases htouch₁ i hi with hi | hi
      · exact ((Cells.ofString_inside s outside _).readSpan (Int.le_refl 0) (by omega)) i hi
      · omega
    intro i hi
    rcases htouch i hi with hi | hi
    · exact (hin₁.move (by omega) (by omega)) i hi
    · omega
  · intro i hi
    rw [hcleared, leftByte]
    by_cases hi₁ : i < core.length
    · rw [if_neg (by omega), if_pos hi₁, hmoved (by omega), h.byte_core hi₁]
    · rw [if_neg hi₁]
      by_cases hi₂ : i < core.length + t
      · rw [if_pos (by omega), if_pos hi₂]
      · rw [if_neg (by omega), if_neg hi₂]
        by_cases hi₃ : i = core.length + t
        · rw [if_pos hi₃, hmoved (by omega), hi₃, Nat.add_assoc]
        · rw [if_neg hi₃, Cells.move_byte_outside _ (by omega), hbyte₁, hbyte hi]

theorem holds_core (h : Framed chr s a core t rest) (hs : 0 ∉ s) {m : Cells}
    (hend : rest = [] ∨ 0 < t)
    (hbyte : ∀ i : Nat, i ≤ s.length → m.byte i = leftByte s core a t i) : m.Holds core := by
  have hlen := h.length
  constructor
  · intro h0
    apply hs
    rw [h.eq]
    simp only [List.mem_append]
    exact .inl (.inl (.inr h0))
  · intro i hi
    rw [hbyte i (by omega), leftByte]
    by_cases hlt : i < core.length
    · rw [if_pos hlt]
    · rw [if_neg hlt, List.getD_eq_default _ _ (Nat.le_of_not_lt hlt)]
      rcases hend with hnil | ht
      · by_cases ht : i < core.length + t
        · rw [if_pos ht]
        · rw [if_neg ht, if_pos (by omega), List.getD_eq_default _ _ (by simp [hlen, hnil])]
      · rw [if_pos (by omega)]

theorem holds_shifted (h : Framed chr s a core 0 rest) (hs : 0 ∉ s) {m : Cells}
    (hrest : rest ≠ [])
    (hbyte : ∀ i : Nat, i ≤ s.length → m.byte i = leftByte s core a 0 i) :
    m.Holds ((s.drop a).take (core.length + 1) ++ s.drop (core.length + 1)) := by
  have hlen := h.length
  have hrest' := List.length_pos_of_ne_nil hrest
  have hfront : ((s.drop a).take (core.length + 1)).length = core.length + 1 := by
    rw [List.length_take, List.length_drop]
    omega
  constructor
  · intro h0
    rcases List.mem_append.mp h0 with h0 | h0
    · exact hs (List.mem_of_mem_drop (List.mem_of_mem_take h0))
    · exact hs (List.mem_of_mem_drop h0)
  · intro i hi
    rw [List.length_append, hfront, List.length_drop] at hi
    rw [hbyte i (by omega), leftByte, Nat.add_zero, Nat.add_zero]
    by_cases hlt : i < core.length + 1
    · have hshift : ((s.drop a).take (core.length + 1)).getD i 0 = s.getD (a + i) 0 := by
        rw [List.getD_eq_getElem _ _ (by omega), List.getElem_take, List.getElem_drop,
          List.getD_eq_getElem _ _ (by omega)]
      rw [List.getD_append _ _ _ _ (by omega), hshift]
      by_cases hi' : i < core.length
      · rw [if_pos hi', h.byte_core hi']
      · rw [if_neg hi', if_neg hi', if_pos (by omega), show i = core.length by omega]
    · rw [if_neg (by omega), if_neg (by omega), if_neg (by omega),
        List.getD_append_right _ _ _ _ (by omega), hfront]
      by_cases hi' : i < s.length
      · rw [List.getD_eq_getElem _ _ hi',
          List.getD_eq_getElem _ _ (by rw [List.length_drop]; omega), List.getElem_drop]
        congr 1
        omega
      · rw [List.getD_eq_default _ _ (Nat.le_of_not_lt hi'),
          List.getD_eq_default _ _ (by rw [List.length_drop]; omega)]

end Framed

theorem Framed.append (h : Framed chr s a core t []) (rest : CString) :
    Framed chr (s ++ rest) a core t rest :=
  ⟨by rw [h.eq, List.append_nil], h.ne_nil, h.head, h.last⟩

theorem takeWhile_replicate (chr : UInt8) (s : CString) :
    s.takeWhile (· == chr) = List.replicate (s.takeWhile (· == chr)).length chr := by
  apply List.eq_replicate_of_mem
  intro b hb
  exact beq_iff_eq.mp (List.mem_takeWhile_imp (p := (· == chr)) hb)

theorem rtakeWhile_replicate (chr : UInt8) (s : CString) :
    s.rtakeWhile (· == chr) = List.replicate (s.rtakeWhile (· == chr)).length chr := by
  apply List.eq_replicate_of_mem
  intro b hb
  exact beq_iff_eq.mp (List.mem_rtakeWhile_imp (p := (· == chr)) hb)

theorem exists_framed (hb : ∃ b ∈ s, b ≠ chr) : ∃ a core t, Framed chr s a core t [] := by
  obtain ⟨b, hb, hne⟩ := hb
  have hdrop : s.dropWhile (· == chr) ≠ [] := fun hnil =>
    hne (beq_iff_eq.mp (List.dropWhile_eq_nil_iff.mp hnil b hb))
  have hhead : (s.dropWhile (· == chr)).head? ≠ some chr := by
    intro he
    have hnot := List.head?_dropWhile_not (· == chr) s
    rw [he] at hnot
    simp at hnot
  have hcore : (s.dropWhile (· == chr)).rdropWhile (· == chr) ≠ [] := by
    intro hnil
    apply hhead
    rw [List.head?_eq_some_head hdrop]
    exact congrArg some (beq_iff_eq.mp (List.rdropWhile_eq_nil_iff.mp hnil _ (List.head_mem hdrop)))
  obtain ⟨rest, hrest⟩ := List.rdropWhile_prefix (· == chr) (l := s.dropWhile (· == chr))
  refine ⟨(s.takeWhile (· == chr)).length, (s.dropWhile (· == chr)).rdropWhile (· == chr),
    ((s.dropWhile (· == chr)).rtakeWhile (· == chr)).length, ?_, hcore, ?_, ?_⟩
  · rw [← takeWhile_replicate, ← rtakeWhile_replicate, List.append_nil, List.append_assoc,
      List.rdropWhile_append_rtakeWhile, List.takeWhile_append_dropWhile]
  · rw [← @List.head?_append_of_ne_nil _ _ rest hcore, hrest]
    exact hhead
  · intro he
    have hnot := List.rdropWhile_last_not (· == chr) _ hcore
    rw [List.getLast?_eq_some_getLast hcore, Option.some.injEq] at he
    exact hnot (beq_iff_eq.mpr he)

theorem not_trims_of_before {m₁ : Cells} {c : Int}
    (hskip : skipLeading chr (intOf s.length).toNat
      ((Cells.ofString s outside).readSpan 0 (s.length + 1)) 0 = (m₁, c))
    (hlt : ¬ c < intOf s.length) : ¬ Trims chr s outside := by
  rintro ⟨m, he, _, hin⟩
  cases hd : checkedInt (intOf s.length - c - 1) with
  | none =>
    simp only [trim, hskip] at he
    simp only [if_neg hlt, hd, Option.bind_eq_bind, Option.bind_some, Option.bind_none] at he
    cases he
  | some d =>
    rw [trim_kept hskip hlt hd, Option.some.injEq] at he
    rw [checkedInt, Option.ite_none_right_eq_some, Option.some.injEq] at hd
    have hsteps : (d + 1).toNat = 0 := by omega
    rw [hsteps] at he
    have hbefore := hin d (he ▸ List.mem_cons_self)
    omega

namespace Framed

theorem trimmed_eq (h : Framed chr s a core t rest) :
    trimmed chr s = (core ++ (List.replicate t chr ++ rest)).rdropWhile (· == chr) := by
  have hdrop : s.dropWhile (· == chr) = core ++ (List.replicate t chr ++ rest) := by
    rw [h.eq, List.append_assoc, List.append_assoc, List.dropWhile_append_of_pos]
    · apply dropWhile_of_head
      rw [List.head?_append_of_ne_nil _ h.ne_nil]
      exact h.head
    · intro b hb
      exact beq_iff_eq.mpr (List.eq_of_mem_replicate hb)
  rw [trimmed, hdrop]

theorem core_stays (h : Framed chr s a core t rest) : core.rdropWhile (· == chr) = core :=
  rdropWhile_of_last h.last

theorem trimmed_eq_core (h : Framed chr s a core t rest) :
    trimmed chr s = core ↔ ∀ b ∈ rest, b = chr := by
  have hall : (List.replicate t chr ++ rest).rdropWhile (· == chr) = [] ↔ ∀ b ∈ rest, b = chr := by
    rw [List.rdropWhile_eq_nil_iff]
    constructor
    · intro hb b hr
      exact beq_iff_eq.mp (hb b (List.mem_append_right _ hr))
    · intro hb b hr
      rcases List.mem_append.mp hr with hr | hr
      · exact beq_iff_eq.mpr (List.eq_of_mem_replicate hr)
      · exact beq_iff_eq.mpr (hb b hr)
  rw [h.trimmed_eq, rdropWhile_append, ← hall]
  split
  · next hnil => exact iff_of_true h.core_stays hnil
  · next hne => exact iff_of_false (fun he => hne (List.append_right_eq_self.mp he)) hne

theorem head_iff (h : Framed chr s a core t rest) : s.head? ≠ some chr ↔ a = 0 := by
  have hne : core ++ List.replicate t chr ≠ [] := List.append_ne_nil_of_left_ne_nil h.ne_nil _
  cases a with
  | zero =>
    refine iff_of_true ?_ rfl
    rw [h.eq, List.replicate_zero, List.nil_append, List.head?_append_of_ne_nil _ hne,
      List.head?_append_of_ne_nil _ h.ne_nil]
    exact h.head
  | succ a =>
    refine iff_of_false (not_not.mpr ?_) (Nat.succ_ne_zero a)
    rw [h.eq, List.replicate_succ]
    rfl

theorem prev_iff (h : Framed chr s a core t rest) :
    s[a + core.length + t - 1]? = some chr ↔ 0 < t := by
  have hlen := h.length
  have hcore := h.core_pos
  have hlt : a + core.length + t - 1 < s.length := by omega
  have hget : s[a + core.length + t - 1]? = some (s.getD (a + core.length + t - 1) 0) := by
    rw [List.getElem?_eq_getElem hlt, List.getD_eq_getElem _ _ hlt]
  rw [hget, Option.some.injEq]
  cases t with
  | zero =>
    refine iff_of_false ?_ (Nat.lt_irrefl 0)
    have hk : a + core.length + 0 - 1 = a + (core.length - 1) := by omega
    rw [hk, h.byte_core (by omega)]
    exact h.core_last
  | succ t =>
    refine iff_of_true ?_ (Nat.succ_pos t)
    rw [Nat.add_succ_sub_one]
    exact h.byte_trailing (Nat.lt_succ_self t)

theorem drop_iff (h : Framed chr s a core t rest) :
    (∀ b ∈ s.drop (a + core.length + t - 1), b = chr) ↔ 0 < t ∧ ∀ b ∈ rest, b = chr := by
  have hlen := h.length
  have hcore := h.core_pos
  have hlt : a + core.length + t - 1 < s.length := by omega
  have hrest : s.drop (a + core.length + t - 1 + 1) = rest := by
    rw [h.eq, List.drop_left']
    simp only [List.length_append, List.length_replicate]
    omega
  rw [List.drop_eq_getElem_cons hlt, hrest, List.forall_mem_cons, ← h.prev_iff,
    List.getElem?_eq_getElem hlt, Option.some.injEq]

theorem trimmed_eq_shifted (h : Framed chr s a core 0 rest) (hrest : rest ≠ []) :
    trimmed chr s = (s.drop a).take (core.length + 1) ++ s.drop (core.length + 1) ↔
      a = 0 ∧ s.getLast? ≠ some chr := by
  have hlen := h.length
  have hne : s ≠ [] := by
    intro hnil
    rw [hnil] at hlen
    have := h.core_pos
    rw [List.length_nil] at hlen
    omega
  have hlast : s.rdropWhile (· == chr) = s ↔ s.getLast? ≠ some chr := by
    rw [List.rdropWhile_eq_self_iff, List.getLast?_eq_some_getLast hne]
    constructor
    · exact fun hl he => hl hne (beq_iff_eq.mpr (Option.some.inj he))
    · exact fun hl _ he => hl (congrArg some (beq_iff_eq.mp he))
  have hwhole (ha : a = 0) : core ++ (List.replicate 0 chr ++ rest) = s := by
    rw [h.eq, ha, List.replicate_zero, List.append_nil, List.nil_append, List.nil_append]
  constructor
  · intro he
    have hsize := congrArg List.length he
    have hle := (List.rdropWhile_prefix (· == chr)
      (l := core ++ (List.replicate 0 chr ++ rest))).length_le
    rw [h.trimmed_eq, List.length_append, List.length_take, List.length_drop,
      List.length_drop] at hsize
    simp only [List.length_append, List.length_replicate] at hle
    have hpos := List.length_pos_of_ne_nil hrest
    have ha : a = 0 := by omega
    refine ⟨ha, hlast.mp ?_⟩
    rw [h.trimmed_eq, hwhole ha, ha, List.drop_zero, List.take_append_drop] at he
    exact he
  · rintro ⟨ha, hl⟩
    rw [h.trimmed_eq, hwhole ha, ha, List.drop_zero, List.take_append_drop]
    exact hlast.mpr hl

end Framed

theorem trims_framed (h : Framed chr s a core t rest) (hs : 0 ∉ s)
    (hl : intOf s.length = (a + core.length + t : Nat))
    (hfit : a = 0 → intOf s.length < 2 ^ 31 - 1) (outside : Int → UInt8) :
    Trims chr s outside ↔ rest = [] ∨ (0 < t ∧ ∀ b ∈ rest, b = chr) ∨
      a = 0 ∧ t = 0 ∧ s.getLast? ≠ some chr := by
  obtain ⟨m, he, hin, hbyte⟩ := h.trim_byte hl hfit outside
  have hiff (r : CString) (hr : m.Holds r) : Trims chr s outside ↔ trimmed chr s = r := by
    constructor
    · rintro ⟨m', he', hh, _⟩
      rw [he, Option.some.injEq] at he'
      exact hh.unique (he' ▸ hr)
    · intro hr'
      exact ⟨m, he, hr' ▸ hr, hin⟩
  by_cases hrest : rest = []
  · rw [hiff core (h.holds_core hs (.inl hrest) hbyte), h.trimmed_eq_core, hrest]
    simp
  · cases t with
    | zero =>
      rw [hiff _ (h.holds_shifted hs hrest hbyte), h.trimmed_eq_shifted hrest]
      simp [hrest]
    | succ t =>
      rw [hiff core (h.holds_core hs (.inr (Nat.succ_pos t)) hbyte), h.trimmed_eq_core]
      simp [hrest]

theorem skipLeading_zero (hc : m.byte c ≠ chr ∨ n = 0) : skipLeading chr n m c = (m.read c, c) := by
  cases n with
  | zero => rfl
  | succ n => exact if_neg (hc.resolve_right (Nat.succ_ne_zero n))

theorem not_trims_overflow (hhead : s.head? ≠ some chr) (hne : s ≠ [])
    (hl : intOf s.length = 2 ^ 31 - 1) (outside : Int → UInt8) : ¬ Trims chr s outside := by
  have hbyte : ((Cells.ofString s outside).readSpan 0 (s.length + 1)).byte 0 ≠ chr := by
    have h0 := Cells.ofString_byte s outside (Nat.zero_le s.length)
    cases s with
    | nil => exact absurd rfl hne
    | cons b s =>
      intro he
      exact hhead (congrArg some (h0.symm.trans he))
  rintro ⟨m, he, _⟩
  rw [trim_overflow (skipLeading_zero (.inl hbyte)) (by omega) (if_neg (by omega))] at he
  cases he

theorem skipLeading_uniform (hall : ∀ b ∈ s.take (intOf s.length).toNat, b = chr)
    (outside : Int → UInt8) :
    ∃ m₁, skipLeading chr (intOf s.length).toNat
        ((Cells.ofString s outside).readSpan 0 (s.length + 1)) 0 =
      (m₁, 0 + ((intOf s.length).toNat : Int)) ∧ m₁.byte = (Cells.ofString s outside).byte := by
  have hle := intOf_le s.length
  obtain ⟨m₁, hskip, hbyte, _⟩ := skipLeading_spec chr (j := (intOf s.length).toNat)
    (m := (Cells.ofString s outside).readSpan 0 (s.length + 1)) (c := 0) (Nat.le_refl _)
    (fun i hi => by
      have hlt : i < s.length := by omega
      have hb := Cells.ofString_byte s outside (Nat.le_of_lt hlt)
      rw [List.getD_eq_getElem _ _ hlt] at hb
      rw [Int.zero_add]
      exact hb.trans (hall _ (List.mem_take_iff_getElem.mpr ⟨i, by omega, rfl⟩)))
    (fun hlt => absurd hlt (Nat.lt_irrefl _))
  exact ⟨m₁, hskip, hbyte⟩

theorem not_trims_uniform (hall : ∀ b ∈ s.take (intOf s.length).toNat, b = chr)
    (outside : Int → UInt8) : ¬ Trims chr s outside := by
  obtain ⟨m₁, hskip, _⟩ := skipLeading_uniform hall outside
  exact not_trims_of_before hskip (by omega)

/-- `_trim` trims the string and stays inside it exactly under the condition. -/
theorem trims_iff (hs : 0 ∉ s) (outside : Int → UInt8) :
    Trims chr s outside ↔ TrimWorks chr s := by
  have hle := intOf_le s.length
  unfold TrimWorks
  by_cases hb : ∃ b ∈ s.take (intOf s.length).toNat, b ≠ chr
  · obtain ⟨a, core, t, hfront⟩ := exists_framed hb
    have hframed := hfront.append (s.drop (intOf s.length).toNat)
    rw [List.take_append_drop] at hframed
    have hlen := hfront.length
    have hcore := hfront.core_pos
    rw [List.length_take, List.length_nil] at hlen
    have hn : (intOf s.length).toNat = a + core.length + t := by omega
    have hl : intOf s.length = (a + core.length + t : Nat) := by omega
    have hpos : 0 < intOf s.length := by omega
    rw [hframed.head_iff]
    by_cases hfit : a = 0 → intOf s.length < 2 ^ 31 - 1
    · have hend : s.drop (intOf s.length).toNat = [] ↔ intOf s.length = s.length := by
        rw [List.drop_eq_nil_iff]
        omega
      rw [trims_framed hframed hs hl hfit outside, hend, and_iff_right hpos, and_iff_right hb,
        and_iff_right hfit]
      have hdrop := hframed.drop_iff
      have hprev := hframed.prev_iff
      rw [← hn] at hdrop hprev
      rw [hdrop, ne_eq s[(intOf s.length).toNat - 1]?, hprev, Nat.pos_iff_ne_zero, not_not]
    · rw [Classical.not_imp] at hfit
      refine iff_of_false (not_trims_overflow (hframed.head_iff.mpr hfit.1) ?_ ?_ outside) ?_
      · rintro rfl
        exact absurd hpos (by decide)
      · have := (intOf_bounds s.length).2
        omega
      · rintro ⟨_, _, hsize, _⟩
        exact hfit.2 (hsize hfit.1)
  · refine iff_of_false (not_trims_uniform ?_ outside) fun h => hb h.2.1
    intro b hm
    by_contra hne
    exact hb ⟨b, hm, hne⟩

theorem trimWorks_short (h : s.length < 2 ^ 31 - 1) : TrimWorks chr s ↔ ∃ b ∈ s, b ≠ chr := by
  have hint : intOf s.length = s.length := intOf_short (by omega)
  unfold TrimWorks
  rw [hint, Int.toNat_natCast, List.take_length]
  constructor
  · exact fun hw => hw.2.1
  · rintro ⟨b, hm, hne⟩
    have hpos := List.length_pos_of_mem hm
    exact ⟨by omega, ⟨b, hm, hne⟩, fun _ => by omega, .inl rfl⟩

theorem trims_iff_blanks : Trims 32 [32, 97, 32] fun _ => 0 :=
  (trims_iff (by decide) _).mpr ((trimWorks_short (by decide)).mpr ⟨97, by decide, by decide⟩)

/-- A blank is not removed, and the byte in front of it is read. -/
theorem trim_blank_remains : ¬ Trims 32 [32] fun _ => 0 := by
  rintro ⟨m, he, _, hin⟩
  have htouch : (trim 32 1 (.ofString [32] fun _ => 0)).any fun m => -1 ∈ m.touched := by decide
  obtain ⟨m', he', hm'⟩ := (Option.any_eq_true _ _).mp htouch
  obtain rfl : m' = m := Option.some.inj (he'.symm.trans he)
  exact absurd (hin (-1) (of_decide_eq_true hm')).1 (by decide)

def trimText (chr : UInt8) (s : CString) : CString :=
  if s.all (· == chr) then s else trimmed chr s

theorem trim_short (chr : UInt8) (hs : 0 ∉ s) (hlen : s.length < 2 ^ 31 - 1)
    (outside : Int → UInt8) :
    ∃ m, trim chr s.length (.ofString s outside) = some m ∧ m.Holds (trimText chr s) := by
  by_cases hall : s.all (· == chr)
  · have hint : intOf s.length = s.length := intOf_short (by omega)
    have hb : ∀ b ∈ s.take (intOf s.length).toNat, b = chr := fun b hm =>
      beq_iff_eq.mp (List.all_eq_true.mp hall b (List.mem_of_mem_take hm))
    obtain ⟨m₁, hskip, hbyte⟩ := skipLeading_uniform hb outside
    have hend : intOf s.length - (0 + ((intOf s.length).toNat : Int)) - 1 = -1 := by omega
    have hd : checkedInt (intOf s.length - (0 + ((intOf s.length).toNat : Int)) - 1) =
        some (-1) := by
      rw [hend]
      rfl
    refine ⟨_, trim_kept hskip (by omega) hd, ?_⟩
    rw [trimText, if_pos hall]
    exact ⟨hs, fun i hi => (congrFun hbyte i).trans (Cells.ofString_byte s outside hi)⟩
  · have hb : ∃ b ∈ s, b ≠ chr := by simpa using hall
    obtain ⟨m, he, hh, _⟩ := (trims_iff hs outside).mpr ((trimWorks_short hlen).mpr hb)
    exact ⟨m, he, by rw [trimText, if_neg hall]; exact hh⟩

def trimString (chr : UInt8) (s : CString) : Option CString :=
  (trim chr s.length (.ofString s fun _ => 0)).map fun m => m.text (s.length + 1)

theorem trimString_short (hs : 0 ∉ s) (hlen : s.length < 2 ^ 31 - 1) :
    trimString chr s = some (trimText chr s) := by
  obtain ⟨m, he, hh⟩ := trim_short chr hs hlen fun _ => 0
  have hle : (trimText chr s).length ≤ s.length := by
    unfold trimText
    split
    · exact Nat.le_refl _
    · exact Nat.le_trans (List.rdropWhile_prefix _ _).length_le (List.length_dropWhile_le _ _)
  rw [trimString, he, Option.map_some, hh.text (Nat.lt_succ_of_le hle)]

end Bounds

end Aiqb
