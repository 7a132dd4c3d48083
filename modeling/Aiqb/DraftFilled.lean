import Aiqb.ParserFrame

namespace Aiqb
set_option autoImplicit true

theorem succ_index {P : Nat → Prop} {i : UInt16} (h : P (i.toNat + 1)) (h0 : P 0) :
    P (i + 1).toNat := by
  rw [UInt16.toNat_add, UInt16.toNat_one]
  by_cases hi : i.toNat + 1 < 2 ^ 16
  · rw [Nat.mod_eq_of_lt hi]
    exact h
  · have hlt := i.toNat_lt
    have hwrap : (i.toNat + 1) % 2 ^ 16 = 0 := by omega
    rw [hwrap]
    exact h0

def ProblemSlot.position (p : ProblemT) : ProblemSlot → Nat
  | .type => 0
  | .optm => 1
  | .rows => 2
  | .sizeX => 3
  | .sizeY => 4
  | .cvSize => 5
  | .testSize => 6
  | .stateSize => 7
  | .cvData i => 8 + i.toNat
  | .testData i => 8 + p.cvSize.toNat + i.toNat
  | .data i => 8 + p.cvSize.toNat + p.testSize.toNat + i.toNat
  | .state i => 8 + p.cvSize.toNat + p.testSize.toNat + p.points.toNat + i.toNat

def ProblemSlot.Announced (p : ProblemT) : ProblemSlot → Prop
  | .cvData i => i < p.cvSize
  | .testData i => i < p.testSize
  | .data i => i < p.points
  | .state i => i < p.stateSize
  | _ => True

def ProblemSlot.isHeader : ProblemSlot → Bool
  | .cvData _ | .testData _ | .data _ | .state _ => false
  | _ => true

/-- Every slot of the problem was assigned since `reg:problem`. -/
def ProblemDraft.Complete (d : ProblemDraft) : Prop :=
  ∀ slot : ProblemSlot, slot.Announced d.val → d.assigned slot

def AnswerSlot.position : AnswerSlot → Nat
  | .problem => 0
  | .sizeX => 1
  | .sizeY => 2
  | .data i => 3 + i.toNat

def AnswerSlot.Announced (a : AnswerT) : AnswerSlot → Prop
  | .data i => i < a.sizeX + a.sizeY
  | _ => True

def AnswerDraft.Complete (d : AnswerDraft) : Prop :=
  ∀ slot : AnswerSlot, slot.Announced d.val → d.assigned slot

theorem ProblemSlot.position_inj {p : ProblemT} {slot slot' : ProblemSlot}
    (ha : slot.Announced p) (ha' : slot'.Announced p)
    (he : slot.position p = slot'.position p) : slot = slot' := by
  cases slot <;> cases slot' <;>
    simp only [position, Announced, UInt64.lt_iff_toNat_lt] at ha ha' he <;>
    first
    | rfl
    | omega
    | (congr 1; exact UInt64.toNat_inj.mp (by omega))

theorem ProblemSlot.header_of_position {p : ProblemT} {slot : ProblemSlot}
    (h : slot.position p < 8) : slot.isHeader := by
  cases slot <;> simp only [position] at h <;> first | rfl | omega

theorem ProblemSlot.position_header {p p' : ProblemT} {slot : ProblemSlot} (h : slot.isHeader) :
    slot.position p' = slot.position p := by
  cases slot <;> first | rfl | cases h

theorem ProblemSlot.announced_header {p : ProblemT} {slot : ProblemSlot} (h : slot.isHeader) :
    slot.Announced p := by
  cases slot <;> trivial

theorem ProblemSlot.position_same {p p' : ProblemT} (h : p.SameHeader p') (slot : ProblemSlot) :
    slot.position p' = slot.position p := by
  cases slot <;> simp only [position, h.cvSize, h.testSize, h.points]

theorem ProblemSlot.announced_same {p p' : ProblemT} (h : p.SameHeader p') (slot : ProblemSlot) :
    slot.Announced p' ↔ slot.Announced p := by
  cases slot <;> simp only [Announced, h.cvSize, h.testSize, h.points, h.stateSize]

structure ProblemT.Bounded (p : ProblemT) : Prop where
  cvSize : p.cvSize.toNat < 2 ^ 31
  testSize : p.testSize.toNat < 2 ^ 31
  stateSize : p.stateSize.toNat < 2 ^ 31
  points : p.points.toNat < 2 ^ 64 - 2 ^ 60

theorem ProblemT.Bounded.total_toNat {d : ProblemDraft} (h : d.val.Bounded) :
    d.total.toNat = 8 + d.val.cvSize.toNat + d.val.testSize.toNat + d.val.points.toNat +
      d.val.stateSize.toNat := by
  obtain ⟨hc, ht, hs, hp⟩ := h
  have h8 : (8 : UInt64).toNat = 8 := rfl
  simp only [ProblemDraft.total, UInt64.toNat_add, h8]
  omega

/-- The first `i` tokens of the message are in their slots, and the sizes among them belong to
arrays that could be allocated. -/
structure ProblemDraft.Filled (d : ProblemDraft) (i : Nat) : Prop where
  assigned : ∀ slot : ProblemSlot, slot.Announced d.val → slot.position d.val < i →
    d.assigned slot
  points : 5 ≤ i → (d.val.points * 8).toNat < 2 ^ 63
  cvSize : 6 ≤ i → d.val.cvSize.toNat < 2 ^ 31
  testSize : 7 ≤ i → d.val.testSize.toNat < 2 ^ 31
  stateSize : 8 ≤ i → d.val.stateSize.toNat < 2 ^ 31

namespace ProblemDraft

variable {d d' : ProblemDraft} {i : Nat} {slot : ProblemSlot}

theorem filled_zero (d : ProblemDraft) : d.Filled 0 :=
  ⟨fun _ _ h => absurd h (Nat.not_lt_zero _), fun h => absurd h (by decide),
    fun h => absurd h (by decide), fun h => absurd h (by decide), fun h => absurd h (by decide)⟩

theorem Filled.bounded (h : d.Filled i) (hi : 8 ≤ i) : d.val.Bounded where
  cvSize := h.cvSize (by omega)
  testSize := h.testSize (by omega)
  stateSize := h.stateSize hi
  points := by
    have hp := h.points (by omega)
    rw [UInt64.toNat_mul, show (8 : UInt64).toNat = 8 from rfl] at hp
    have hlt := d.val.points.toNat_lt
    omega

theorem Filled.total_toNat (h : d.Filled i) (hi : 8 ≤ i) :
    d.total.toNat = 8 + d.val.cvSize.toNat + d.val.testSize.toNat + d.val.points.toNat +
      d.val.stateSize.toNat := (h.bounded hi).total_toNat

theorem Filled.complete (h : d.Filled i) (hi : 8 ≤ i) (ht : d.total.toNat = i) : d.Complete := by
  intro slot ha
  apply h.assigned slot ha
  rw [← ht, h.total_toNat hi]
  cases slot <;>
    simp only [ProblemSlot.position, ProblemSlot.Announced, UInt64.lt_iff_toNat_lt] at ha ⊢ <;>
    omega

theorem Filled.same (h : d.Filled i) (hs : d.val.SameHeader d'.val)
    (ha : ∀ slot, d.assigned slot → d'.assigned slot) : d'.Filled i where
  assigned slot hann hlt := by
    apply ha
    apply h.assigned slot ((ProblemSlot.announced_same hs slot).mp hann)
    rwa [← ProblemSlot.position_same hs slot]
  points hi := hs.points ▸ h.points hi
  cvSize hi := hs.cvSize ▸ h.cvSize hi
  testSize hi := hs.testSize ▸ h.testSize hi
  stateSize hi := hs.stateSize ▸ h.stateSize hi

/-- An array element whose position comes next. -/
theorem Filled.element (h : d.Filled i) (hi : 8 ≤ i) (hann : slot.Announced d.val)
    (hp : slot.position d.val = i) (hs : d.val.SameHeader d'.val)
    (ha : d'.assigned = Function.update d.assigned slot true) : d'.Filled (i + 1) := by
  have hmono : ∀ slot', d.assigned slot' → d'.assigned slot' := by
    intro slot' h'
    rw [ha]
    by_cases he : slot' = slot
    · subst he
      exact Function.update_self _ _ _
    · exact (Function.update_of_ne he _ _).trans h'
  have hold := h.same hs hmono
  refine ⟨?_, fun _ => hold.points (by omega), fun _ => hold.cvSize (by omega),
    fun _ => hold.testSize (by omega), fun _ => hold.stateSize hi⟩
  intro slot' hann' hlt
  by_cases he : slot' = slot
  · rw [he, ha]
    exact Function.update_self _ _ _
  · have hne : slot'.position d'.val ≠ i := by
      intro hpe
      rw [ProblemSlot.position_same hs] at hpe
      exact he (ProblemSlot.position_inj ((ProblemSlot.announced_same hs slot').mp hann') hann
        (hpe.trans hp.symm))
    exact hold.assigned slot' hann' (by omega)

theorem Filled.header (h : d.Filled i) (slot : ProblemSlot) (hi : i ≤ 7) (hh : slot.isHeader)
    (hp : slot.position d.val = i)
    (hassigned : ∀ slot' : ProblemSlot, slot'.isHeader →
      d'.assigned slot' = Function.update d.assigned slot true slot')
    (hpt : 4 ≤ i → (d'.val.points * 8).toNat < 2 ^ 63)
    (hc : 5 ≤ i → d'.val.cvSize.toNat < 2 ^ 31)
    (ht : 6 ≤ i → d'.val.testSize.toNat < 2 ^ 31)
    (hs : 7 ≤ i → d'.val.stateSize.toNat < 2 ^ 31) : d'.Filled (i + 1) := by
  refine ⟨?_, fun h5 => hpt (by omega), fun h6 => hc (by omega), fun h7 => ht (by omega),
    fun h8 => hs (by omega)⟩
  intro slot' _ hlt
  have hh' : slot'.isHeader := ProblemSlot.header_of_position (p := d'.val) (by omega)
  rw [hassigned slot' hh']
  by_cases he : slot' = slot
  · subst he
    exact Function.update_self _ _ _
  · rw [Function.update_of_ne he]
    have hpos : slot'.position d'.val = slot'.position d.val := ProblemSlot.position_header hh'
    apply h.assigned slot' (ProblemSlot.announced_header hh')
    have hne : slot'.position d.val ≠ i := by
      intro hpe
      exact he (ProblemSlot.position_inj (ProblemSlot.announced_header hh')
        (ProblemSlot.announced_header hh) (hpe.trans hp.symm))
    omega

theorem Filled.header_early (h : d.Filled i) (slot : ProblemSlot) (hi : i ≤ 3) (hh : slot.isHeader)
    (hp : slot.position d.val = i)
    (hassigned : ∀ slot' : ProblemSlot, slot'.isHeader →
      d'.assigned slot' = Function.update d.assigned slot true slot') : d'.Filled (i + 1) := by
  apply h.header slot (by omega) hh hp hassigned
  · intro h4
    omega
  · intro h5
    omega
  · intro h6
    omega
  · intro h7
    omega

theorem filled_succ_index {i : UInt16} (h : d.Filled (i.toNat + 1)) : d.Filled (i + 1).toNat :=
  succ_index h (filled_zero d)

end ProblemDraft

theorem AnswerSlot.position_inj {slot slot' : AnswerSlot} (he : slot.position = slot'.position) :
    slot = slot' := by
  cases slot <;> cases slot' <;> simp only [position] at he <;>
    first
    | rfl
    | omega
    | (congr 1; exact UInt64.toNat_inj.mp (by omega))

structure AnswerDraft.Filled (d : AnswerDraft) (i : Nat) : Prop where
  assigned : ∀ slot : AnswerSlot, slot.Announced d.val → slot.position < i → d.assigned slot
  size : 3 ≤ i → ((d.val.sizeX + d.val.sizeY) * 8).toNat < 2 ^ 63

namespace AnswerDraft

variable {d d' : AnswerDraft} {i : Nat} {slot : AnswerSlot}

theorem filled_zero (d : AnswerDraft) : d.Filled 0 :=
  ⟨fun _ _ h => absurd h (Nat.not_lt_zero _), fun h => absurd h (by decide)⟩

theorem Filled.total_toNat (h : d.Filled i) (hi : 3 ≤ i) :
    d.total.toNat = 3 + (d.val.sizeX + d.val.sizeY).toNat := by
  have hs := h.size hi
  have hlt := (d.val.sizeX + d.val.sizeY).toNat_lt
  have h8 : (8 : UInt64).toNat = 8 := rfl
  have h3 : (3 : UInt64).toNat = 3 := rfl
  rw [UInt64.toNat_mul, h8] at hs
  have hassoc : d.total = 3 + (d.val.sizeX + d.val.sizeY) := UInt64.add_assoc _ _ _
  rw [hassoc, UInt64.toNat_add, h3]
  omega

theorem Filled.complete (h : d.Filled i) (hi : 3 ≤ i) (ht : d.total.toNat = i) : d.Complete := by
  intro slot ha
  apply h.assigned slot ha
  rw [← ht, h.total_toNat hi]
  cases slot <;>
    simp only [AnswerSlot.position, AnswerSlot.Announced, UInt64.lt_iff_toNat_lt] at ha ⊢ <;>
    omega

theorem Filled.next (h : d.Filled i) (slot : AnswerSlot) (hp : slot.position = i)
    (hann : ∀ slot' : AnswerSlot, slot'.position < i + 1 → slot'.Announced d'.val →
      slot'.Announced d.val)
    (ha : ∀ slot' : AnswerSlot, slot'.position < i + 1 →
      d'.assigned slot' = Function.update d.assigned slot true slot')
    (hs : 2 ≤ i → ((d'.val.sizeX + d'.val.sizeY) * 8).toNat < 2 ^ 63) : d'.Filled (i + 1) := by
  refine ⟨?_, fun h3 => hs (by omega)⟩
  intro slot' hann' hlt
  rw [ha slot' hlt]
  by_cases he : slot' = slot
  · subst he
    exact Function.update_self _ _ _
  · have hne : slot'.position ≠ i := fun hpe => he (AnswerSlot.position_inj (hpe.trans hp.symm))
    exact (Function.update_of_ne he _ _).trans (h.assigned slot' (hann slot' hlt hann') (by omega))

theorem filled_succ_index {i : UInt16} (h : d.Filled (i.toNat + 1)) : d.Filled (i + 1).toNat :=
  succ_index h (filled_zero d)

end AnswerDraft

end Aiqb
