import Aiqb.DraftFilled

namespace Aiqb
set_option autoImplicit true

variable {W : Type} {env : Env W} {d d' : ProblemDraft} {i v : UInt64}

theorem storeElement_spec {a : Option Block} {put : Block → ProblemT}
    (h : storeElement a put slot i v d = some d') :
    ∃ b b', a = some b ∧ b.store i v = some b' ∧ d' = d.assign slot (put b') := by
  simp only [storeElement, Option.bind_eq_bind, Option.bind_eq_some_iff, Option.some.injEq] at h
  obtain ⟨b, hb, b', hb', hd⟩ := h
  exact ⟨b, b', hb, hb', hd.symm⟩

def ProblemT.InCvData (p : ProblemT) (i : UInt64) : Prop := i > 7 ∧ i < 8 + p.cvSize

def ProblemT.InTestData (p : ProblemT) (i : UInt64) : Prop :=
  i > 7 + p.cvSize ∧ i < 8 + p.cvSize + p.testSize

def ProblemT.InData (p : ProblemT) (i : UInt64) : Prop :=
  i > 7 + p.cvSize + p.testSize ∧ i < 8 + p.cvSize + p.testSize + p.points

def ProblemT.InState (p : ProblemT) (i : UInt64) : Prop :=
  i > 7 + p.cvSize + p.testSize + p.points ∧
    i < 8 + p.cvSize + p.testSize + p.points + p.stateSize

instance (p : ProblemT) (i : UInt64) : Decidable (p.InCvData i) :=
  inferInstanceAs (Decidable (_ ∧ _))

instance (p : ProblemT) (i : UInt64) : Decidable (p.InTestData i) :=
  inferInstanceAs (Decidable (_ ∧ _))

instance (p : ProblemT) (i : UInt64) : Decidable (p.InData i) :=
  inferInstanceAs (Decidable (_ ∧ _))

instance (p : ProblemT) (i : UInt64) : Decidable (p.InState i) :=
  inferInstanceAs (Decidable (_ ∧ _))

theorem storeIndex_eq (i v : UInt64) (d : ProblemDraft) :
    storeIndex i v d =
      (if i > 7 ∧ i < 8 + d.val.cvSize then storeCvData (i - 8) v d else some d).bind fun d =>
        if i > 7 + d.val.cvSize ∧ i < 8 + d.val.cvSize + d.val.testSize then
          storeTestData (i - 8 - d.val.cvSize) v d
        else some d := by
  unfold storeIndex
  split <;> rfl

theorem storePoint_eq (i v : UInt64) (d : ProblemDraft) :
    storePoint i v d =
      (if i > 7 + d.val.cvSize + d.val.testSize ∧
          i < 8 + d.val.cvSize + d.val.testSize + d.val.points then
        storeData (i - 8 - d.val.cvSize - d.val.testSize) v d
      else some d).bind fun d =>
        if i > 7 + d.val.cvSize + d.val.testSize + d.val.points ∧
            i < 8 + d.val.cvSize + d.val.testSize + d.val.points + d.val.stateSize then
          storeState (i - 8 - d.val.cvSize - d.val.testSize - d.val.points) v d
        else some d := by
  unfold storePoint
  split <;> rfl

/-- What the stores keep, an integer keeps that is stored in the index sections. -/
theorem storeIndex_rule {P : ProblemDraft → Prop} (hd : P d) (h : storeIndex i v d = some d')
    (cvData : ∀ j d d', P d → storeCvData j v d = some d' → P d')
    (testData : ∀ j d d', P d → storeTestData j v d = some d' → P d') : P d' := by
  rw [storeIndex_eq] at h
  obtain ⟨m, hm, h⟩ := Option.bind_eq_some_iff.mp h
  have hcv : P m := by
    split at hm
    · exact cvData _ d m hd hm
    · cases hm
      exact hd
  split at h
  · exact testData _ m d' hcv h
  · cases h
    exact hcv

theorem storePoint_rule {P : ProblemDraft → Prop} (hd : P d) (h : storePoint i v d = some d')
    (data : ∀ j d d', P d → storeData j v d = some d' → P d')
    (state : ∀ j d d', P d → storeState j v d = some d' → P d') : P d' := by
  rw [storePoint_eq] at h
  obtain ⟨m, hm, h⟩ := Option.bind_eq_some_iff.mp h
  have hdata : P m := by
    split at hm
    · exact data _ d m hd hm
    · cases hm
      exact hd
  split at h
  · exact state _ m d' hdata h
  · cases h
    exact hdata

/-- What an array store leaves as it is, and what it assigns. -/
structure Stored (d : ProblemDraft) (slot : ProblemSlot) (d' : ProblemDraft) : Prop where
  header : d.val.SameHeader d'.val
  assigned : d'.assigned = Function.update d.assigned slot true

theorem storeCvData_stored (h : storeCvData i v d = some d') : Stored d (.cvData i) d' := by
  obtain ⟨b, b', _, _, rfl⟩ := storeElement_spec h
  exact ⟨⟨rfl, rfl, rfl, rfl, rfl, rfl, rfl, rfl⟩, rfl⟩

theorem storeTestData_stored (h : storeTestData i v d = some d') : Stored d (.testData i) d' := by
  obtain ⟨b, b', _, _, rfl⟩ := storeElement_spec h
  exact ⟨⟨rfl, rfl, rfl, rfl, rfl, rfl, rfl, rfl⟩, rfl⟩

theorem storeData_stored (h : storeData i v d = some d') : Stored d (.data i) d' := by
  obtain ⟨b, b', _, _, rfl⟩ := storeElement_spec h
  exact ⟨⟨rfl, rfl, rfl, rfl, rfl, rfl, rfl, rfl⟩, rfl⟩

theorem storeState_stored (h : storeState i v d = some d') : Stored d (.state i) d' := by
  obtain ⟨b, b', _, _, rfl⟩ := storeElement_spec h
  exact ⟨⟨rfl, rfl, rfl, rfl, rfl, rfl, rfl, rfl⟩, rfl⟩

theorem Stored.filled (h : Stored d slot d') (hf : d.Filled n) : d'.Filled n := by
  apply hf.same h.header
  intro slot' h'
  rw [h.assigned]
  by_cases he : slot' = slot
  · subst he
    exact Function.update_self _ _ _
  · exact (Function.update_of_ne he _ _).trans h'

theorem Stored.filled_succ (h : Stored d slot d') (hf : d.Filled n) (hn : 8 ≤ n)
    (hann : slot.Announced d.val) (hp : slot.position d.val = n) : d'.Filled (n + 1) :=
  hf.element hn hann hp h.header h.assigned

theorem storeIndex_cases (h : storeIndex i v d = some d') :
    d' = d ∨ Stored d (.cvData (i - 8)) d' ∨ Stored d (.testData (i - 8 - d.val.cvSize)) d' ∨
      ∃ m, Stored d (.cvData (i - 8)) m ∧ Stored m (.testData (i - 8 - d.val.cvSize)) d' := by
  simp only [storeIndex, Option.bind_eq_bind] at h
  split at h
  · obtain ⟨m, hm, h⟩ := Option.bind_eq_some_iff.mp h
    have hs := storeCvData_stored hm
    split at h
    · rw [hs.header.cvSize] at h
      exact .inr (.inr (.inr ⟨m, hs, storeTestData_stored h⟩))
    · cases h
      exact .inr (.inl hs)
  · rw [Option.bind_some] at h
    split at h
    · exact .inr (.inr (.inl (storeTestData_stored h)))
    · cases h
      exact .inl rfl

theorem storeIndex_filled (h : storeIndex i v d = some d') (hf : d.Filled n) : d'.Filled n := by
  rcases storeIndex_cases h with rfl | hs | hs | ⟨m, hs, hs'⟩
  · exact hf
  · exact hs.filled hf
  · exact hs.filled hf
  · exact hs'.filled (hs.filled hf)

section Ranges

variable {i : UInt16} {p : ProblemT}

theorem toNat_extend (i : UInt16) : i.toUInt64.toNat = i.toNat := UInt16.toNat_toUInt64 i

theorem toNat_sub {a b : UInt64} (h : b.toNat ≤ a.toNat) : (a - b).toNat = a.toNat - b.toNat :=
  UInt64.toNat_sub_of_le a b (UInt64.le_iff_toNat_le.mpr h)

theorem toNat_sub_header (h : 8 ≤ i.toNat) : (i.toUInt64 - 8).toNat = i.toNat - 8 := by
  have h8 : (8 : UInt64).toNat = 8 := rfl
  rw [toNat_sub (by rw [toNat_extend, h8]; exact h), toNat_extend, h8]

theorem toNat_sub_cvData (h : 8 + d.val.cvSize.toNat ≤ i.toNat) :
    (i.toUInt64 - 8 - d.val.cvSize).toNat = i.toNat - 8 - d.val.cvSize.toNat := by
  have h' := toNat_sub_header (i := i) (by omega)
  rw [toNat_sub (by omega), h']

theorem toNat_sub_testData (h : 8 + d.val.cvSize.toNat + d.val.testSize.toNat ≤ i.toNat) :
    (i.toUInt64 - 8 - d.val.cvSize - d.val.testSize).toNat =
      i.toNat - 8 - d.val.cvSize.toNat - d.val.testSize.toNat := by
  have h' := toNat_sub_cvData (d := d) (i := i) (by omega)
  rw [toNat_sub (by omega), h']

theorem toNat_sub_data
    (h : 8 + d.val.cvSize.toNat + d.val.testSize.toNat + d.val.points.toNat ≤ i.toNat) :
    (i.toUInt64 - 8 - d.val.cvSize - d.val.testSize - d.val.points).toNat =
      i.toNat - 8 - d.val.cvSize.toNat - d.val.testSize.toNat - d.val.points.toNat := by
  have h' := toNat_sub_testData (d := d) (i := i) (by omega)
  rw [toNat_sub (by omega), h']

theorem ProblemT.Bounded.inCvData_iff (hb : p.Bounded) :
    p.InCvData i.toUInt64 ↔ 8 ≤ i.toNat ∧ i.toNat < 8 + p.cvSize.toNat := by
  obtain ⟨hc, ht, hs, hp⟩ := hb
  simp only [ProblemT.InCvData, gt_iff_lt, UInt64.lt_iff_toNat_lt, UInt64.toNat_add, toNat_extend,
    show (7 : UInt64).toNat = 7 from rfl, show (8 : UInt64).toNat = 8 from rfl]
  omega

theorem ProblemT.Bounded.inTestData_iff (hb : p.Bounded) :
    p.InTestData i.toUInt64 ↔
      8 + p.cvSize.toNat ≤ i.toNat ∧ i.toNat < 8 + p.cvSize.toNat + p.testSize.toNat := by
  obtain ⟨hc, ht, hs, hp⟩ := hb
  simp only [ProblemT.InTestData, gt_iff_lt, UInt64.lt_iff_toNat_lt, UInt64.toNat_add,
    toNat_extend, show (7 : UInt64).toNat = 7 from rfl, show (8 : UInt64).toNat = 8 from rfl]
  omega

theorem ProblemT.Bounded.inData_iff (hb : p.Bounded) :
    p.InData i.toUInt64 ↔ 8 + p.cvSize.toNat + p.testSize.toNat ≤ i.toNat ∧
      i.toNat < 8 + p.cvSize.toNat + p.testSize.toNat + p.points.toNat := by
  obtain ⟨hc, ht, hs, hp⟩ := hb
  simp only [ProblemT.InData, gt_iff_lt, UInt64.lt_iff_toNat_lt, UInt64.toNat_add, toNat_extend,
    show (7 : UInt64).toNat = 7 from rfl, show (8 : UInt64).toNat = 8 from rfl]
  omega

theorem ProblemT.Bounded.inState_iff (hb : p.Bounded) :
    p.InState i.toUInt64 ↔
      8 + p.cvSize.toNat + p.testSize.toNat + p.points.toNat ≤ i.toNat ∧
      i.toNat < 8 + p.cvSize.toNat + p.testSize.toNat + p.points.toNat + p.stateSize.toNat := by
  obtain ⟨hc, ht, hs, hp⟩ := hb
  simp only [ProblemT.InState, gt_iff_lt, UInt64.lt_iff_toNat_lt, UInt64.toNat_add, toNat_extend,
    show (7 : UInt64).toNat = 7 from rfl, show (8 : UInt64).toNat = 8 from rfl]
  omega

theorem storeIndex_cvData (hb : d.val.Bounded) (hi : 8 ≤ i.toNat)
    (hlt : i.toNat < 8 + d.val.cvSize.toNat) :
    storeIndex i.toUInt64 v d = storeCvData (i.toUInt64 - 8) v d := by
  have hin : d.val.InCvData i.toUInt64 := hb.inCvData_iff.mpr ⟨hi, hlt⟩
  have hnot : ¬ d.val.InTestData i.toUInt64 := by
    rw [hb.inTestData_iff]
    omega
  unfold ProblemT.InCvData at hin
  unfold ProblemT.InTestData at hnot
  rw [storeIndex_eq, if_pos hin]
  cases hs : storeCvData (i.toUInt64 - 8) v d with
  | none => rfl
  | some d' =>
    have hh := (storeCvData_stored hs).header
    rw [Option.bind_some, hh.cvSize, hh.testSize, if_neg hnot]

theorem storeIndex_testData (hb : d.val.Bounded) (hi : 8 + d.val.cvSize.toNat ≤ i.toNat)
    (hlt : i.toNat < 8 + d.val.cvSize.toNat + d.val.testSize.toNat) :
    storeIndex i.toUInt64 v d = storeTestData (i.toUInt64 - 8 - d.val.cvSize) v d := by
  have hin : d.val.InTestData i.toUInt64 := hb.inTestData_iff.mpr ⟨hi, hlt⟩
  have hnot : ¬ d.val.InCvData i.toUInt64 := by
    rw [hb.inCvData_iff]
    omega
  unfold ProblemT.InTestData at hin
  unfold ProblemT.InCvData at hnot
  rw [storeIndex_eq, if_neg hnot, Option.bind_some, if_pos hin]

theorem storePoint_data (hb : d.val.Bounded)
    (hi : 8 + d.val.cvSize.toNat + d.val.testSize.toNat ≤ i.toNat)
    (hlt : i.toNat < 8 + d.val.cvSize.toNat + d.val.testSize.toNat + d.val.points.toNat) :
    storePoint i.toUInt64 v d =
      storeData (i.toUInt64 - 8 - d.val.cvSize - d.val.testSize) v d := by
  have hin : d.val.InData i.toUInt64 := hb.inData_iff.mpr ⟨hi, hlt⟩
  have hnot : ¬ d.val.InState i.toUInt64 := by
    rw [hb.inState_iff]
    omega
  unfold ProblemT.InData at hin
  unfold ProblemT.InState at hnot
  rw [storePoint_eq, if_pos hin]
  cases hs : storeData (i.toUInt64 - 8 - d.val.cvSize - d.val.testSize) v d with
  | none => rfl
  | some d' =>
    have hh := (storeData_stored hs).header
    rw [Option.bind_some, hh.cvSize, hh.testSize, hh.points, hh.stateSize, if_neg hnot]

theorem storePoint_state (hb : d.val.Bounded)
    (hi : 8 + d.val.cvSize.toNat + d.val.testSize.toNat + d.val.points.toNat ≤ i.toNat)
    (hlt : i.toNat < 8 + d.val.cvSize.toNat + d.val.testSize.toNat + d.val.points.toNat +
      d.val.stateSize.toNat) :
    storePoint i.toUInt64 v d =
      storeState (i.toUInt64 - 8 - d.val.cvSize - d.val.testSize - d.val.points) v d := by
  have hin : d.val.InState i.toUInt64 := hb.inState_iff.mpr ⟨hi, hlt⟩
  have hnot : ¬ d.val.InData i.toUInt64 := by
    rw [hb.inData_iff]
    omega
  unfold ProblemT.InState at hin
  unfold ProblemT.InData at hnot
  rw [storePoint_eq, if_neg hnot, Option.bind_some, if_pos hin]

theorem storeIndex_filled_succ (hf : d.Filled i.toNat) (hi : 8 ≤ i.toNat)
    (hlt : i.toNat < 8 + d.val.cvSize.toNat + d.val.testSize.toNat)
    (h : storeIndex i.toUInt64 v d = some d') : d'.Filled (i.toNat + 1) := by
  by_cases hc : i.toNat < 8 + d.val.cvSize.toNat
  · rw [storeIndex_cvData (hf.bounded hi) hi hc] at h
    have hsub := toNat_sub_header hi
    apply (storeCvData_stored h).filled_succ hf hi
    · apply UInt64.lt_iff_toNat_lt.mpr
      omega
    · rw [ProblemSlot.position, hsub]
      omega
  · rw [storeIndex_testData (hf.bounded hi) (by omega) hlt] at h
    have hsub := toNat_sub_cvData (d := d) (i := i) (by omega)
    apply (storeTestData_stored h).filled_succ hf hi
    · apply UInt64.lt_iff_toNat_lt.mpr
      omega
    · rw [ProblemSlot.position, hsub]
      omega

theorem storePoint_filled_succ (hf : d.Filled i.toNat)
    (hi : 8 + d.val.cvSize.toNat + d.val.testSize.toNat ≤ i.toNat)
    (hlt : i.toNat < 8 + d.val.cvSize.toNat + d.val.testSize.toNat + d.val.points.toNat +
      d.val.stateSize.toNat)
    (h : storePoint i.toUInt64 v d = some d') : d'.Filled (i.toNat + 1) := by
  by_cases hp : i.toNat < 8 + d.val.cvSize.toNat + d.val.testSize.toNat + d.val.points.toNat
  · rw [storePoint_data (hf.bounded (by omega)) hi hp] at h
    have hsub := toNat_sub_testData hi
    apply (storeData_stored h).filled_succ hf (by omega)
    · apply UInt64.lt_iff_toNat_lt.mpr
      omega
    · rw [ProblemSlot.position, hsub]
      omega
  · rw [storePoint_state (hf.bounded (by omega)) (by omega) hlt] at h
    have hsub := toNat_sub_data (d := d) (i := i) (by omega)
    apply (storeState_stored h).filled_succ hf (by omega)
    · apply UInt64.lt_iff_toNat_lt.mpr
      omega
    · rw [ProblemSlot.position, hsub]
      omega

end Ranges

theorem atoi_bounds (s : CString) : -2 ^ 31 ≤ atoi s ∧ atoi s < 2 ^ 31 := by
  have hle := Int.le_bmod (x := strtol s) (m := 2 ^ 32) (by decide)
  have hlt := Int.bmod_lt (x := strtol s) (m := 2 ^ 32) (by decide)
  exact ⟨hle, hlt⟩

theorem atoul_bounds (s : CString) :
    (atoul s).toNat < 2 ^ 31 ∨ 2 ^ 64 - 2 ^ 31 ≤ (atoul s).toNat := by
  obtain ⟨hle, hlt⟩ := atoi_bounds s
  have hmod : (atoul s).toNat = (atoi s % 2 ^ 64).toNat := by
    rw [atoul, UInt64.ofInt, UInt64.toNat_ofNat']
    omega
  omega

/-- malloc refuses a block that does not fit a `ptrdiff_t`. -/
def Env.MallocBounded (env : Env W) : Prop :=
  ∀ w n b w', env.malloc w n = (some b, w') → n.toNat < 2 ^ 63

theorem allocArray_ok {put : Option Block → δ} (h : allocArray env w n put fs = (.ok x, w')) :
    ∃ b, env.malloc w (n * 8) = (b, w') ∧ ¬ (n > 0 ∧ b.isNone) ∧ x = put b := by
  unfold allocArray at h
  split at h
  next b w₁ hb =>
  split at h
  · cases h
  · next hok =>
    cases h
    exact ⟨b, hb, hok, rfl⟩

theorem Env.MallocBounded.granted (hm : env.MallocBounded) {n : UInt64}
    (hb : env.malloc w (n * 8) = (b, w')) (hok : ¬ (n > 0 ∧ b.isNone)) :
    (n * 8).toNat < 2 ^ 63 := by
  cases b with
  | some b => exact hm w (n * 8) b w' hb
  | none =>
    have h0 : ¬ n > 0 := fun h => hok ⟨h, rfl⟩
    have hn : n.toNat = 0 := Nat.eq_zero_of_not_pos fun h => h0 (UInt64.lt_iff_toNat_lt.mpr h)
    rw [UInt64.toNat_mul, hn]
    decide

theorem atoul_granted (h : (atoul token * 8).toNat < 2 ^ 63) : (atoul token).toNat < 2 ^ 31 := by
  have hb := atoul_bounds token
  have hlt := (atoul token).toNat_lt
  rw [UInt64.toNat_mul, show (8 : UInt64).toNat = 8 from rfl] at h
  omega

theorem renew_header (d : ProblemDraft) {fresh : ProblemSlot → Bool}
    (hf : ∀ slot, fresh slot → slot.isHeader = false) {slot : ProblemSlot} (hh : slot.isHeader) :
    (d.renew fresh).assigned slot = d.assigned slot := by
  have hn : fresh slot = false := by
    cases hs : fresh slot with
    | false => rfl
    | true =>
      rw [hf slot hs] at hh
      cases hh
  simp only [ProblemDraft.renew, hn, Bool.not_false, Bool.true_and]

theorem arraySlots_notHeader : ∀ fresh ∈ [ProblemSlot.isData, ProblemSlot.isCvData,
    ProblemSlot.isTestData, ProblemSlot.isState], ∀ slot, fresh slot → slot.isHeader = false := by
  simp only [List.forall_mem_cons, List.not_mem_nil, false_imp_iff, implies_true, and_true]
  refine ⟨?_, ?_, ?_, ?_⟩ <;> rintro (_ | _) hs <;> first | rfl | cases hs

theorem assignHeader_filled {index : UInt16} (hm : env.MallocBounded)
    (hf : d.Filled index.toNat) (hn : index.toNat ≤ 7)
    (h : assignHeader env w index (atoul token) d = (.ok d', w')) :
    d'.Filled (index.toNat + 1) := by
  have harr := arraySlots_notHeader
  unfold assignHeader at h
  split at h
  · next hi =>
    cases h
    rw [hi] at hf ⊢
    exact hf.header_early .type (by decide) rfl rfl fun _ _ => rfl
  · next hi =>
    cases h
    rw [hi] at hf ⊢
    exact hf.header_early .optm (by decide) rfl rfl fun _ _ => rfl
  · next hi =>
    cases h
    rw [hi] at hf ⊢
    exact hf.header_early .rows (by decide) rfl rfl fun _ _ => rfl
  · next hi =>
    cases h
    rw [hi] at hf ⊢
    exact hf.header_early .sizeX (by decide) rfl rfl fun _ _ => rfl
  · next hi =>
    obtain ⟨b, hb, hok, rfl⟩ := allocArray_ok h
    rw [hi] at hf ⊢
    exact hf.header .sizeY (by decide) rfl rfl
      (fun slot' hh => renew_header _ (harr _ (by simp)) hh) (fun _ => hm.granted hb hok)
      (fun h => absurd h (by decide)) (fun h => absurd h (by decide))
      (fun h => absurd h (by decide))
  · next hi =>
    obtain ⟨b, hb, hok, rfl⟩ := allocArray_ok h
    rw [hi] at hf ⊢
    exact hf.header .cvSize (by decide) rfl rfl
      (fun slot' hh => renew_header _ (harr _ (by simp)) hh) (fun _ => hf.points (by decide))
      (fun _ => atoul_granted (hm.granted hb hok)) (fun h => absurd h (by decide))
      (fun h => absurd h (by decide))
  · next hi =>
    obtain ⟨b, hb, hok, rfl⟩ := allocArray_ok h
    rw [hi] at hf ⊢
    exact hf.header .testSize (by decide) rfl rfl
      (fun slot' hh => renew_header _ (harr _ (by simp)) hh) (fun _ => hf.points (by decide))
      (fun _ => hf.cvSize (by decide)) (fun _ => atoul_granted (hm.granted hb hok))
      (fun h => absurd h (by decide))
  · next hi =>
    obtain ⟨b, hb, hok, rfl⟩ := allocArray_ok h
    rw [hi] at hf ⊢
    exact hf.header .stateSize (by decide) rfl rfl
      (fun slot' hh => renew_header _ (harr _ (by simp)) hh) (fun _ => hf.points (by decide))
      (fun _ => hf.cvSize (by decide)) (fun _ => hf.testSize (by decide))
      (fun _ => atoul_granted (hm.granted hb hok))
  · next h0 h1 h2 h3 h4 h5 h6 h7 =>
    simp only [imp_false] at h0 h1 h2 h3 h4 h5 h6 h7
    omega

theorem assignHeader_ge {index : UInt16} (hi : 8 ≤ index.toNat) :
    assignHeader env w index v d = (.ok d, w) := by
  unfold assignHeader
  split <;> first | omega | rfl

section Answers

variable {index : UInt16} {a a' : AnswerDraft}

theorem AnswerSlot.announced_number {x y : AnswerT} {slot : AnswerSlot} (h : slot.position < 3)
    (_ : slot.Announced x) : slot.Announced y := by
  cases slot with
  | data i =>
    simp only [position] at h
    omega
  | _ => trivial

theorem AnswerSlot.renew_number (d : AnswerDraft) {slot : AnswerSlot} (h : slot.position < 3) :
    (d.renew AnswerSlot.isData).assigned slot = d.assigned slot := by
  cases slot with
  | data i =>
    simp only [position] at h
    omega
  | _ => rfl

theorem assignAnswer_filled (hm : env.MallocBounded) (hf : a.Filled index.toNat)
    (hn : index.toNat ≤ 2) (h : assignAnswer env w index v a = some (.ok a', w')) :
    a'.Filled (index.toNat + 1) := by
  unfold assignAnswer at h
  split at h
  · next hi =>
    obtain ⟨o, _, h⟩ := Option.map_eq_some_iff.mp h
    rw [hi] at hf ⊢
    cases o with
    | none => cases h
    | some p =>
      cases h
      exact hf.next .problem rfl
        (fun slot' hp => AnswerSlot.announced_number (by omega)) (fun _ _ => rfl)
        (fun h => absurd h (by decide))
  · next hi =>
    cases h
    rw [hi] at hf ⊢
    exact hf.next .sizeX rfl
      (fun slot' hp => AnswerSlot.announced_number (by omega)) (fun _ _ => rfl)
      (fun h => absurd h (by decide))
  · next hi =>
    split at h
    next r w₁ hr =>
    cases r with
    | error fs => cases h
    | ok d =>
      cases h
      obtain ⟨b, hb, hok, rfl⟩ := allocArray_ok hr
      rw [hi] at hf ⊢
      exact hf.next .sizeY rfl
        (fun slot' hp => AnswerSlot.announced_number (by omega))
        (fun slot' hp => AnswerSlot.renew_number _ (by omega))
        (fun _ => hm.granted hb hok)
  · next h0 h1 h2 =>
    simp only [imp_false] at h0 h1 h2
    omega

theorem storeOutput_filled (hf : a.Filled index.toNat) (hi : 3 ≤ index.toNat)
    (hlt : index.toNat < 3 + (a.val.sizeX + a.val.sizeY).toNat)
    (h : storeOutput index.toUInt64 v a = some a') : a'.Filled (index.toNat + 1) := by
  have ht := hf.total_toNat hi
  have hext := toNat_extend index
  have h2 : (2 : UInt64).toNat = 2 := rfl
  have hin : index.toUInt64 > 2 ∧ index.toUInt64 < 3 + a.val.sizeX + a.val.sizeY := by
    constructor
    · apply UInt64.lt_iff_toNat_lt.mpr
      rw [hext, h2]
      exact hi
    · apply UInt64.lt_iff_toNat_lt.mpr
      rw [hext]
      exact ht ▸ hlt
  simp only [storeOutput, if_pos hin, Option.bind_eq_bind, Option.bind_eq_some_iff,
    Option.some.injEq] at h
  obtain ⟨b, _, b', _, rfl⟩ := h
  have hpos : (AnswerSlot.data (index.toUInt64 - 3)).position = index.toNat := by
    have h3 : (3 : UInt64).toNat = 3 := rfl
    rw [AnswerSlot.position, toNat_sub (by rw [hext, h3]; exact hi), hext, h3]
    omega
  exact hf.next _ hpos (fun _ _ h => h) (fun _ _ => rfl) (fun _ => hf.size hi)

end Answers

end Aiqb
