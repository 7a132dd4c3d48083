import Aiqb.DraftSteps
import Aiqb.ProblemReplies

namespace Aiqb
set_option autoImplicit true

def ProblemT.field (p : ProblemT) : ProblemSlot → UInt64
  | .type => p.type.toUInt64
  | .optm => p.optm.toUInt64
  | .rows => p.rows
  | .sizeX => p.sizeX
  | .sizeY => p.sizeY
  | .cvSize => p.cvSize
  | .testSize => p.testSize
  | .stateSize => p.stateSize
  | _ => 0

def ProblemT.set (p : ProblemT) (v : UInt64) : ProblemSlot → ProblemT
  | .type => { p with type := v.toUInt32 }
  | .optm => { p with optm := v.toUInt32 }
  | .rows => { p with rows := v }
  | .sizeX => { p with sizeX := v }
  | .sizeY => { p with sizeY := v }
  | .cvSize => { p with cvSize := v }
  | .testSize => { p with testSize := v }
  | .stateSize => { p with stateSize := v }
  | _ => p

theorem ProblemT.set_field (p p' : ProblemT) (v : UInt64) (slot r : ProblemSlot) :
    (p'.set v slot).field r = (p.set v slot).field r ∨
      r ≠ slot ∧ (p.set v slot).field r = p.field r ∧ (p'.set v slot).field r = p'.field r := by
  by_cases hr : r = slot
  · subst hr
    cases r <;> exact .inl rfl
  · refine .inr ⟨hr, ?_⟩
    cases slot <;> cases r <;> first | exact (hr rfl).elim | exact ⟨rfl, rfl⟩

def AnswerT.field (a : AnswerT) : AnswerSlot → UInt64
  | .sizeX => a.sizeX
  | .sizeY => a.sizeY
  | _ => 0

def AnswerT.set (a : AnswerT) (v : UInt64) : AnswerSlot → AnswerT
  | .sizeX => { a with sizeX := v }
  | .sizeY => { a with sizeY := v }
  | _ => a

/-- Each of the fields was assigned, or came with the same content in two runs. -/
def Known (assigned : σ → Bool) (field field' : σ → UInt64) (slots : List σ) : Prop :=
  ∀ slot ∈ slots, assigned slot ∨ field slot = field' slot

/-- A test of the fields reads what is known, or fails in both runs. -/
def Settled (assigned : σ → Bool) (field field' : σ → UInt64) (slots : List σ)
    (test test' : Prop) : Prop :=
  Known assigned field field' slots ∨ ¬ test ∧ ¬ test'

/-- What is assigned is the same in two runs. -/
def AssignedAlike (assigned : σ → Bool) (field field' : σ → UInt64) : Prop :=
  ∀ slot, assigned slot → field' slot = field slot

theorem AssignedAlike.update [DecidableEq σ] {assigned : σ → Bool} {slot : σ}
    (h : AssignedAlike assigned field field')
    (hassign : ∀ r, new' r = new r ∨ r ≠ slot ∧ new r = field r ∧ new' r = field' r) :
    AssignedAlike (Function.update assigned slot true) new new' := by
  intro r hr
  rcases hassign r with he | ⟨hne, hn, hn'⟩
  · exact he
  · rw [Function.update_of_ne hne] at hr
    exact hn'.trans ((h r hr).trans hn.symm)

theorem AssignedAlike.renew {assigned : σ → Bool} (h : AssignedAlike assigned field field')
    (fresh : σ → Bool) :
    AssignedAlike (fun slot => !fresh slot && assigned slot) field field' := by
  intro slot hs
  exact h slot (Bool.and_eq_true _ _ ▸ hs).2

theorem Known.same (h : Known assigned field field' slots)
    (hs : AssignedAlike assigned field field') (hm : slot ∈ slots) : field' slot = field slot := by
  rcases h slot hm with ha | he
  · exact hs slot ha
  · exact he.symm

theorem Settled.alike (h : Settled assigned field field' slots test test')
    (hs : AssignedAlike assigned field field')
    (hread : (∀ slot ∈ slots, field' slot = field slot) → (test ↔ test')) :
    (test ↔ test') ∧ (test → ∀ slot ∈ slots, field' slot = field slot) := by
  rcases h with hknown | ⟨hno, hno'⟩
  · have hsame : ∀ slot ∈ slots, field' slot = field slot := fun _ hm => hknown.same hs hm
    exact ⟨hread hsame, fun _ => hsame⟩
  · exact ⟨iff_of_false hno hno', fun htest => (hno htest).elim⟩

/-- The two drafts of a message that is read twice: what was assigned is the same, and the arrays
have the same sizes. -/
structure ProblemDraft.Twin (d d' : ProblemDraft) : Prop where
  assigned : d'.assigned = d.assigned
  field : AssignedAlike d.assigned d.val.field d'.val.field
  cvData : d'.val.cvData.map Block.bytes = d.val.cvData.map Block.bytes
  testData : d'.val.testData.map Block.bytes = d.val.testData.map Block.bytes
  data : d'.val.data.map Block.bytes = d.val.data.map Block.bytes
  state : d'.val.state.map Block.bytes = d.val.state.map Block.bytes

structure AnswerDraft.Twin (a a' : AnswerDraft) : Prop where
  assigned : a'.assigned = a.assigned
  field : AssignedAlike a.assigned a.val.field a'.val.field
  data : a'.val.data.map Block.bytes = a.val.data.map Block.bytes

theorem ProblemDraft.Twin.fresh (ptr ptr' : Ptr) (p p' : ProblemT) :
    ProblemDraft.Twin
      ⟨ptr, { p with cvData := none, testData := none, data := none, state := none },
        fun _ => false⟩
      ⟨ptr', { p' with cvData := none, testData := none, data := none, state := none },
        fun _ => false⟩ :=
  ⟨rfl, fun _ h => (Bool.false_ne_true h).elim, rfl, rfl, rfl, rfl⟩

theorem AnswerDraft.Twin.fresh (ptr ptr' : Ptr) (a a' : AnswerT) :
    AnswerDraft.Twin ⟨ptr, { a with data := none }, fun _ => false⟩
      ⟨ptr', { a' with data := none }, fun _ => false⟩ :=
  ⟨rfl, fun _ h => (Bool.false_ne_true h).elim, rfl⟩

/-- What two runs of the C library do alike. The contents of fresh memory and the addresses may
differ. -/
structure Library.Alike (lib lib' : Library) : Prop where
  atof : lib'.atof = lib.atof
  malloc : ∀ n, (lib'.malloc n).map Block.bytes = (lib.malloc n).map Block.bytes
  mallocProblem : lib'.mallocProblem.isSome = lib.mallocProblem.isSome
  mallocAnswer : lib'.mallocAnswer.isSome = lib.mallocAnswer.isSome
  granted : lib'.granted = lib.granted
  time : lib'.time = lib.time

inductive Outcomes (E : ε → ε → Prop) (R : α → α → Prop) : Except ε α → Except ε α → Prop
  | error (h : E e e') : Outcomes E R (.error e) (.error e')
  | ok (h : R a a') : Outcomes E R (.ok a) (.ok a')

section Allocation

variable {t : Tree} {lib lib' : Library} {w w' : Daemon}

theorem allocArray_fst {put : Option Block → δ} {fs : List Freed} (n : UInt64) :
    (allocArray (daemonEnv t lib) w n put fs).1 =
      if n > 0 ∧ (lib.malloc (n * 8)).isNone then .error fs
      else .ok (put (lib.malloc (n * 8))) := by
  unfold allocArray
  exact apply_ite Prod.fst _ _ _

theorem allocArray_alike {R : δ → δ → Prop} {put put' : Option Block → δ} {fs fs' : List Freed}
    (hlib : lib.Alike lib') (n : UInt64)
    (hput : ∀ b b', b'.map Block.bytes = b.map Block.bytes → R (put b) (put' b')) :
    Outcomes (fun _ _ => True) R (allocArray (daemonEnv t lib) w n put fs).1
      (allocArray (daemonEnv t lib') w' n put' fs').1 := by
  have hbytes := hlib.malloc (n * 8)
  have hnone : (lib'.malloc (n * 8)).isNone = (lib.malloc (n * 8)).isNone := by
    rw [← Option.isNone_map (f := Block.bytes), hbytes, Option.isNone_map]
  rw [allocArray_fst, allocArray_fst, hnone]
  by_cases hfail : n > 0 ∧ (lib.malloc (n * 8)).isNone
  · rw [if_pos hfail, if_pos hfail]
    exact .error trivial
  · rw [if_neg hfail, if_neg hfail]
    exact .ok (hput _ _ hbytes)

theorem ProblemDraft.Twin.renew {d d' : ProblemDraft} (h : d.Twin d')
    (fresh : ProblemSlot → Bool) :
    (d.renew fresh).Twin (d'.renew fresh) :=
  { h with
    assigned := by simp only [ProblemDraft.renew, h.assigned]
    field := h.field.renew fresh }

theorem ProblemDraft.Twin.assign {d d' : ProblemDraft} {p p' : ProblemT} {slot : ProblemSlot}
    (h : d.Twin d')
    (field : ∀ r, p'.field r = p.field r ∨
      r ≠ slot ∧ p.field r = d.val.field r ∧ p'.field r = d'.val.field r)
    (cvData : p'.cvData.map Block.bytes = p.cvData.map Block.bytes)
    (testData : p'.testData.map Block.bytes = p.testData.map Block.bytes)
    (data : p'.data.map Block.bytes = p.data.map Block.bytes)
    (state : p'.state.map Block.bytes = p.state.map Block.bytes) :
    (d.assign slot p).Twin (d'.assign slot p') :=
  ⟨by simp only [ProblemDraft.assign, h.assigned], h.field.update field, cvData, testData, data,
    state⟩

theorem assignHeader_twin {d d' : ProblemDraft} (t : Tree) (w w' : Daemon)
    (hlib : lib.Alike lib') (h : d.Twin d') (index : UInt16) (v : UInt64)
    (hasked : index.toNat = 4 →
      Known d.assigned d.val.field d'.val.field [.rows, .sizeX]) :
    Outcomes (fun _ _ => True) ProblemDraft.Twin
      (assignHeader (daemonEnv t lib) w index v d).1
      (assignHeader (daemonEnv t lib') w' index v d').1 := by
  have hfield := ProblemT.set_field d.val d'.val v
  unfold assignHeader
  generalize index.toNat = n at hasked
  rcases n with _ | _ | _ | _ | _ | _ | _ | _ | n
  · exact .ok (h.assign (hfield .type) h.cvData h.testData h.data h.state)
  · exact .ok (h.assign (hfield .optm) h.cvData h.testData h.data h.state)
  · exact .ok (h.assign (hfield .rows) h.cvData h.testData h.data h.state)
  · exact .ok (h.assign (hfield .sizeX) h.cvData h.testData h.data h.state)
  · have hk := hasked rfl
    have hrows : d'.val.rows = d.val.rows := hk.same h.field (.head _)
    have hsizeX : d'.val.sizeX = d.val.sizeX := hk.same h.field (.tail _ (.head _))
    have hn : d'.val.rows * (d'.val.sizeX + v) = d.val.rows * (d.val.sizeX + v) := by
      rw [hrows, hsizeX]
    dsimp only
    rw [hn]
    apply allocArray_alike hlib
    intro b b' hb
    apply ProblemDraft.Twin.renew
    refine h.assign ?_ h.cvData h.testData hb h.state
    exact hfield .sizeY
  · apply allocArray_alike hlib
    intro b b' hb
    apply ProblemDraft.Twin.renew
    refine h.assign ?_ hb h.testData h.data h.state
    exact hfield .cvSize
  · apply allocArray_alike hlib
    intro b b' hb
    apply ProblemDraft.Twin.renew
    refine h.assign ?_ h.cvData hb h.data h.state
    exact hfield .testSize
  · apply allocArray_alike hlib
    intro b b' hb
    apply ProblemDraft.Twin.renew
    refine h.assign ?_ h.cvData h.testData h.data hb
    exact hfield .stateSize
  · exact .ok h

end Allocation

section Stores

variable {d d' : ProblemDraft} {i v : UInt64} {slot : ProblemSlot}

theorem Block.store_alike {b b' : Block} (h : b'.bytes = b.bytes) (i v : UInt64) :
    Option.Rel (fun c c' => c'.bytes = c.bytes) (b.store i v) (b'.store i v) := by
  have hlen : b'.length = b.length := by rw [Block.length, Block.length, h]
  unfold Block.store
  rw [hlen]
  split
  · exact .some h
  · exact .none

theorem ProblemT.SameHeader.field {p p' : ProblemT} (h : p.SameHeader p') (slot : ProblemSlot) :
    p'.field slot = p.field slot := by
  cases slot with
  | type => exact congrArg UInt32.toUInt64 h.type
  | optm => exact congrArg UInt32.toUInt64 h.optm
  | rows => exact h.rows
  | sizeX => exact h.sizeX
  | sizeY => exact h.sizeY
  | cvSize => exact h.cvSize
  | testSize => exact h.testSize
  | stateSize => exact h.stateSize
  | _ => rfl

structure TwinStores (d d' m m' : ProblemDraft) : Prop where
  twin : m.Twin m'
  left : d.val.SameHeader m.val
  right : d'.val.SameHeader m'.val

theorem storeElement_twin {a a' : Option Block} {put put' : Block → ProblemT}
    (ha : a'.map Block.bytes = a.map Block.bytes)
    (hput : ∀ b b', b'.bytes = b.bytes →
      TwinStores d d' (d.assign slot (put b)) (d'.assign slot (put' b'))) :
    Option.Rel (TwinStores d d') (storeElement a put slot i v d)
      (storeElement a' put' slot i v d') := by
  simp only [storeElement, Option.bind_eq_bind]
  cases a with
  | none =>
    rw [Option.map_eq_none_iff.mp ha]
    exact .none
  | some b =>
    obtain ⟨b', rfl, hb⟩ := Option.map_eq_some_iff.mp ha
    rw [Option.bind_some, Option.bind_some]
    apply optionRel_bind (Block.store_alike hb i v)
    exact fun c c' hc => .some (hput c c' hc)

theorem ProblemT.field_element {p : ProblemT} {slot : ProblemSlot} (h : slot.isHeader = false) :
    p.field slot = 0 := by
  cases slot with
  | cvData i => rfl
  | testData i => rfl
  | data i => rfl
  | state i => rfl
  | _ => cases h

theorem ProblemDraft.Twin.store {p p' : ProblemT} (h : d.Twin d') (hslot : slot.isHeader = false)
    (hp : d.val.SameHeader p) (hp' : d'.val.SameHeader p')
    (cvData : p'.cvData.map Block.bytes = p.cvData.map Block.bytes)
    (testData : p'.testData.map Block.bytes = p.testData.map Block.bytes)
    (data : p'.data.map Block.bytes = p.data.map Block.bytes)
    (state : p'.state.map Block.bytes = p.state.map Block.bytes) :
    TwinStores d d' (d.assign slot p) (d'.assign slot p') := by
  refine ⟨h.assign ?_ cvData testData data state, hp, hp'⟩
  intro r
  by_cases hr : r = slot
  · subst hr
    exact .inl ((ProblemT.field_element hslot).trans (ProblemT.field_element hslot).symm)
  · exact .inr ⟨hr, hp.field r, hp'.field r⟩

theorem storeCvData_twin (h : d.Twin d') (i v : UInt64) :
    Option.Rel (TwinStores d d') (storeCvData i v d) (storeCvData i v d') := by
  apply storeElement_twin h.cvData
  intro b b' hb
  exact h.store rfl ⟨rfl, rfl, rfl, rfl, rfl, rfl, rfl, rfl⟩
    ⟨rfl, rfl, rfl, rfl, rfl, rfl, rfl, rfl⟩
    (congrArg some hb) h.testData h.data h.state

theorem storeTestData_twin (h : d.Twin d') (i v : UInt64) :
    Option.Rel (TwinStores d d') (storeTestData i v d) (storeTestData i v d') := by
  apply storeElement_twin h.testData
  intro b b' hb
  exact h.store rfl ⟨rfl, rfl, rfl, rfl, rfl, rfl, rfl, rfl⟩
    ⟨rfl, rfl, rfl, rfl, rfl, rfl, rfl, rfl⟩
    h.cvData (congrArg some hb) h.data h.state

theorem storeData_twin (h : d.Twin d') (i v : UInt64) :
    Option.Rel (TwinStores d d') (storeData i v d) (storeData i v d') := by
  apply storeElement_twin h.data
  intro b b' hb
  exact h.store rfl ⟨rfl, rfl, rfl, rfl, rfl, rfl, rfl, rfl⟩
    ⟨rfl, rfl, rfl, rfl, rfl, rfl, rfl, rfl⟩
    h.cvData h.testData (congrArg some hb) h.state

theorem storeState_twin (h : d.Twin d') (i v : UInt64) :
    Option.Rel (TwinStores d d') (storeState i v d) (storeState i v d') := by
  apply storeElement_twin h.state
  intro b b' hb
  exact h.store rfl ⟨rfl, rfl, rfl, rfl, rfl, rfl, rfl, rfl⟩
    ⟨rfl, rfl, rfl, rfl, rfl, rfl, rfl, rfl⟩
    h.cvData h.testData h.data (congrArg some hb)

theorem TwinStores.store_if {test test' : Prop} [Decidable test] [Decidable test']
    {store store' : Option ProblemDraft} (h : d.Twin d') (htest : test ↔ test')
    (hstore : test → Option.Rel (TwinStores d d') store store') :
    Option.Rel (TwinStores d d') (if test then store else some d)
      (if test' then store' else some d') := by
  by_cases ht : test
  · rw [if_pos ht, if_pos (htest.mp ht)]
    exact hstore ht
  · rw [if_neg ht, if_neg (mt htest.mpr ht)]
    exact .some ⟨h, .refl _, .refl _⟩

theorem TwinStores.trans (h : TwinStores d d' m m') (h' : TwinStores m m' n n') :
    TwinStores d d' n n' :=
  ⟨h'.twin, h.left.trans h'.left, h.right.trans h'.right⟩

structure ProblemDraft.IndexSettled (d d' : ProblemDraft) (i : UInt64) : Prop where
  cvData : Settled d.assigned d.val.field d'.val.field [.cvSize]
    (d.val.InCvData i) (d'.val.InCvData i)
  testData : Settled d.assigned d.val.field d'.val.field [.cvSize, .testSize]
    (d.val.InTestData i) (d'.val.InTestData i)

def headerSlot (index : UInt16) : Option ProblemSlot :=
  match index.toNat with
  | 0 => some .type
  | 1 => some .optm
  | 2 => some .rows
  | 3 => some .sizeX
  | 4 => some .sizeY
  | 5 => some .cvSize
  | 6 => some .testSize
  | 7 => some .stateSize
  | _ => none

def ProblemDraft.numbered (d : ProblemDraft) (index : UInt16) (v : UInt64) : ProblemDraft :=
  match headerSlot index with
  | some slot => d.assign slot (d.val.set v slot)
  | none => d

structure ProblemDraft.SameNumbers (d m : ProblemDraft) : Prop where
  header : d.val.SameHeader m.val
  assigned : ∀ slot, slot.isHeader → m.assigned slot = d.assigned slot

theorem ProblemDraft.SameNumbers.refl (d : ProblemDraft) : d.SameNumbers d :=
  ⟨.refl _, fun _ _ => rfl⟩

theorem allocArray_numbered {W : Type} {env : Env W} {w : W} {n : UInt64} {fs : List Freed}
    {m : ProblemDraft} {put : Option Block → ProblemDraft}
    (h : (allocArray env w n put fs).1 = .ok m) (hput : ∀ b, d.SameNumbers (put b)) :
    d.SameNumbers m := by
  generalize hx : allocArray env w n put fs = x at h
  obtain ⟨r, w'⟩ := x
  dsimp only at h
  subst h
  obtain ⟨b, _, _, rfl⟩ := allocArray_ok hx
  exact hput b

theorem ProblemDraft.SameNumbers.renewed {q : ProblemT} {fresh : ProblemSlot → Bool}
    (hf : ∀ slot, fresh slot → slot.isHeader = false) (hq : p.SameHeader q) :
    (d.assign slot p).SameNumbers ((d.assign slot q).renew fresh) :=
  ⟨hq, fun _ hh => renew_header _ hf hh⟩

theorem assignHeader_numbered {W : Type} {env : Env W} {w : W} {index : UInt16} {m : ProblemDraft}
    (h : (assignHeader env w index v d).1 = .ok m) : (d.numbered index v).SameNumbers m := by
  have harr := arraySlots_notHeader
  unfold ProblemDraft.numbered headerSlot
  unfold assignHeader at h
  generalize index.toNat = n at h
  rcases n with _ | _ | _ | _ | _ | _ | _ | _ | n
  · cases h
    exact .refl _
  · cases h
    exact .refl _
  · cases h
    exact .refl _
  · cases h
    exact .refl _
  · apply allocArray_numbered h
    exact fun b => .renewed (harr _ (by simp)) ⟨rfl, rfl, rfl, rfl, rfl, rfl, rfl, rfl⟩
  · apply allocArray_numbered h
    exact fun b => .renewed (harr _ (by simp)) ⟨rfl, rfl, rfl, rfl, rfl, rfl, rfl, rfl⟩
  · apply allocArray_numbered h
    exact fun b => .renewed (harr _ (by simp)) ⟨rfl, rfl, rfl, rfl, rfl, rfl, rfl, rfl⟩
  · apply allocArray_numbered h
    exact fun b => .renewed (harr _ (by simp)) ⟨rfl, rfl, rfl, rfl, rfl, rfl, rfl, rfl⟩
  · cases h
    exact .refl _

theorem ProblemDraft.IndexSettled.congr {m m' : ProblemDraft} (h : d.IndexSettled d' i)
    (hm : d.SameNumbers m) (hm' : d'.SameNumbers m') : m.IndexSettled m' i := by
  have hcv : m.val.cvSize = d.val.cvSize := hm.header.cvSize
  have hcv' : m'.val.cvSize = d'.val.cvSize := hm'.header.cvSize
  have htest : m.val.testSize = d.val.testSize := hm.header.testSize
  have htest' : m'.val.testSize = d'.val.testSize := hm'.header.testSize
  obtain ⟨hcvData, htestData⟩ := h
  have hknown : ∀ slots : List ProblemSlot, (∀ slot ∈ slots, slot.isHeader) →
      Known d.assigned d.val.field d'.val.field slots →
      Known m.assigned m.val.field m'.val.field slots := by
    intro slots hs hk slot hmem
    rw [hm.assigned slot (hs slot hmem), hm.header.field, hm'.header.field]
    exact hk slot hmem
  constructor
  · unfold ProblemT.InCvData at hcvData ⊢
    rw [hcv, hcv']
    exact hcvData.imp_left (hknown _ (by decide))
  · unfold ProblemT.InTestData at htestData ⊢
    rw [hcv, hcv', htest, htest']
    exact htestData.imp_left (hknown _ (by decide))

def sizeSlots : List ProblemSlot := [.cvSize, .testSize, .rows, .sizeX, .sizeY, .stateSize]

structure ProblemDraft.PointSettled (d d' : ProblemDraft) (index : UInt16) : Prop where
  data : Settled d.assigned d.val.field d'.val.field [.cvSize, .testSize, .rows, .sizeX, .sizeY]
    (d.val.InData index.toUInt64) (d'.val.InData index.toUInt64)
  state : Settled d.assigned d.val.field d'.val.field sizeSlots
    (d.val.InState index.toUInt64) (d'.val.InState index.toUInt64)
  total : Settled d.assigned d.val.field d'.val.field sizeSlots
    ((index + 1).toUInt64 = d.total) ((index + 1).toUInt64 = d'.total)

theorem storeIndex_twin (h : d.Twin d') (hs : d.IndexSettled d' i) (v : UInt64) :
    Option.Rel (TwinStores d d') (storeIndex i v d) (storeIndex i v d') := by
  have hcv := hs.cvData.alike h.field fun hsame => by
    have hsize : d'.val.cvSize = d.val.cvSize := hsame .cvSize (by decide)
    rw [ProblemT.InCvData, ProblemT.InCvData, hsize]
  have htest := hs.testData.alike h.field fun hsame => by
    have hcvSize : d'.val.cvSize = d.val.cvSize := hsame .cvSize (by decide)
    have htestSize : d'.val.testSize = d.val.testSize := hsame .testSize (by decide)
    rw [ProblemT.InTestData, ProblemT.InTestData, hcvSize, htestSize]
  rw [storeIndex_eq, storeIndex_eq]
  apply optionRel_bind (R := TwinStores d d')
  · exact TwinStores.store_if h hcv.1 fun _ => storeCvData_twin h (i - 8) v
  · intro m m' hm
    rw [hm.left.cvSize, hm.left.testSize, hm.right.cvSize, hm.right.testSize]
    apply optionRel_imp (R := TwinStores m m') _ fun n n' hn => hm.trans hn
    apply TwinStores.store_if hm.twin htest.1
    intro hin
    have hcvSize : d'.val.cvSize = d.val.cvSize := htest.2 hin .cvSize (by decide)
    rw [hcvSize]
    exact storeTestData_twin hm.twin _ v

theorem dataSizes_same (hsame : ∀ slot ∈ [ProblemSlot.cvSize, .testSize, .rows, .sizeX, .sizeY],
    d'.val.field slot = d.val.field slot) :
    d'.val.cvSize = d.val.cvSize ∧ d'.val.testSize = d.val.testSize ∧
      d'.val.points = d.val.points := by
  have hrows : d'.val.rows = d.val.rows := hsame .rows (by decide)
  have hsizeX : d'.val.sizeX = d.val.sizeX := hsame .sizeX (by decide)
  have hsizeY : d'.val.sizeY = d.val.sizeY := hsame .sizeY (by decide)
  refine ⟨hsame .cvSize (by decide), hsame .testSize (by decide), ?_⟩
  rw [ProblemT.points, ProblemT.points, hrows, hsizeX, hsizeY]

theorem sizes_same (hsame : ∀ slot ∈ sizeSlots, d'.val.field slot = d.val.field slot) :
    d'.val.cvSize = d.val.cvSize ∧ d'.val.testSize = d.val.testSize ∧
      d'.val.points = d.val.points ∧ d'.val.stateSize = d.val.stateSize := by
  have hsub : ∀ slot ∈ [ProblemSlot.cvSize, .testSize, .rows, .sizeX, .sizeY],
      slot ∈ sizeSlots := by decide
  obtain ⟨hcvSize, htestSize, hpoints⟩ := dataSizes_same fun slot hm => hsame slot (hsub slot hm)
  exact ⟨hcvSize, htestSize, hpoints, hsame .stateSize (by decide)⟩

theorem storePoint_twin {index : UInt16} (h : d.Twin d') (hs : d.PointSettled d' index)
    (v : UInt64) :
    Option.Rel (TwinStores d d') (storePoint index.toUInt64 v d)
      (storePoint index.toUInt64 v d') := by
  have hdata := hs.data.alike h.field fun hsame => by
    obtain ⟨hcvSize, htestSize, hpoints⟩ := dataSizes_same hsame
    rw [ProblemT.InData, ProblemT.InData, hcvSize, htestSize, hpoints]
  have hstate := hs.state.alike h.field fun hsame => by
    obtain ⟨hcvSize, htestSize, hpoints, hstateSize⟩ := sizes_same hsame
    rw [ProblemT.InState, ProblemT.InState, hcvSize, htestSize, hpoints, hstateSize]
  rw [storePoint_eq, storePoint_eq]
  apply optionRel_bind (R := TwinStores d d')
  · apply TwinStores.store_if h hdata.1
    intro hin
    obtain ⟨hcvSize, htestSize, _⟩ := dataSizes_same (hdata.2 hin)
    rw [hcvSize, htestSize]
    exact storeData_twin h _ v
  · intro m m' hm
    rw [hm.left.cvSize, hm.left.testSize, hm.left.points, hm.left.stateSize, hm.right.cvSize,
      hm.right.testSize, hm.right.points, hm.right.stateSize]
    apply optionRel_imp (R := TwinStores m m') _ fun n n' hn => hm.trans hn
    apply TwinStores.store_if hm.twin hstate.1
    intro hin
    obtain ⟨hcvSize, htestSize, hpoints, _⟩ := sizes_same (hstate.2 hin)
    rw [hcvSize, htestSize, hpoints]
    exact storeState_twin hm.twin _ v

end Stores

section Answers

variable {d d' : AnswerDraft} {v : UInt64}

theorem AnswerT.set_field (a a' : AnswerT) (v : UInt64) (slot r : AnswerSlot) :
    (a'.set v slot).field r = (a.set v slot).field r ∨
      r ≠ slot ∧ (a.set v slot).field r = a.field r ∧ (a'.set v slot).field r = a'.field r := by
  by_cases hr : r = slot
  · subst hr
    cases r <;> exact .inl rfl
  · refine .inr ⟨hr, ?_⟩
    cases slot <;> cases r <;> first | exact (hr rfl).elim | exact ⟨rfl, rfl⟩

theorem AnswerDraft.Twin.renew (h : d.Twin d') (fresh : AnswerSlot → Bool) :
    (d.renew fresh).Twin (d'.renew fresh) :=
  { h with
    assigned := by simp only [AnswerDraft.renew, h.assigned]
    field := h.field.renew fresh }

theorem AnswerDraft.Twin.assign {a a' : AnswerT} {slot : AnswerSlot} (h : d.Twin d')
    (field : ∀ r, a'.field r = a.field r ∨
      r ≠ slot ∧ a.field r = d.val.field r ∧ a'.field r = d'.val.field r)
    (data : a'.data.map Block.bytes = a.data.map Block.bytes) :
    (d.assign slot a).Twin (d'.assign slot a') :=
  ⟨by simp only [AnswerDraft.assign, h.assigned], h.field.update field, data⟩

theorem Outcomes.mapError {R : α → α → Prop} {x x' : Except (List Freed) α} (r : Reply)
    (h : Outcomes (fun _ _ => True) R x x') :
    Outcomes (fun e e' => e'.1 = e.1) R (x.mapError (r, ·)) (x'.mapError (r, ·)) := by
  cases h with
  | error => exact .error rfl
  | ok h => exact .ok h

theorem assignAnswer_twin {lib lib' : Library} {w w' : Daemon} (t : Tree)
    (hlib : lib.Alike lib') (h : d.Twin d') (hside : w'.store.side = w.store.side)
    (index : UInt16) (v : UInt64)
    (hasked : index.toNat = 2 → Known d.assigned d.val.field d'.val.field [.sizeX]) :
    Option.Rel (fun x x' => Outcomes (fun e e' => e'.1 = e.1) AnswerDraft.Twin x.1 x'.1)
      (assignAnswer (daemonEnv t lib) w index v d)
      (assignAnswer (daemonEnv t lib') w' index v d') := by
  have hfield := AnswerT.set_field d.val d'.val v
  have hfind : (daemonEnv t lib').findDb w' v = (daemonEnv t lib).findDb w v := by
    simp only [daemonEnv, hside]
  unfold assignAnswer
  generalize index.toNat = n at hasked
  rcases n with _ | _ | _ | n
  · dsimp only
    rw [hfind]
    cases (daemonEnv t lib).findDb w v with
    | none => exact .none
    | some problem =>
      cases problem with
      | none => exact .some (.error rfl)
      | some p => exact .some (.ok (h.assign (hfield .problem) h.data))
  · exact .some (.ok (h.assign (hfield .sizeX) h.data))
  · have hsizeX : d'.val.sizeX = d.val.sizeX := (hasked rfl).same h.field (.head _)
    have hn : d'.val.sizeX + v = d.val.sizeX + v := by rw [hsizeX]
    dsimp only
    rw [hn]
    apply Option.Rel.some
    apply Outcomes.mapError
    apply allocArray_alike hlib
    intro b b' hb
    apply AnswerDraft.Twin.renew
    exact h.assign (hfield .sizeY) hb
  · exact .some (.ok h)

def AnswerT.InOutputs (a : AnswerT) (i : UInt64) : Prop := i > 2 ∧ i < 3 + a.sizeX + a.sizeY

instance (a : AnswerT) (i : UInt64) : Decidable (a.InOutputs i) :=
  inferInstanceAs (Decidable (_ ∧ _))

structure AnswerDraft.OutputSettled (d d' : AnswerDraft) (index : UInt16) : Prop where
  data : Settled d.assigned d.val.field d'.val.field [.sizeX, .sizeY]
    (d.val.InOutputs index.toUInt64) (d'.val.InOutputs index.toUInt64)
  total : Settled d.assigned d.val.field d'.val.field [.sizeX, .sizeY]
    ((index + 1).toUInt64 = d.total) ((index + 1).toUInt64 = d'.total)
  id : (index + 1).toUInt64 = d.total → d'.val.id = d.val.id

structure TwinOutputs (d d' m m' : AnswerDraft) : Prop where
  twin : m.Twin m'
  left : m.val.id = d.val.id ∧ m.total = d.total
  right : m'.val.id = d'.val.id ∧ m'.total = d'.total

theorem storeOutput_twin {index : UInt16} (h : d.Twin d') (hs : d.OutputSettled d' index)
    (v : UInt64) :
    Option.Rel (TwinOutputs d d') (storeOutput index.toUInt64 v d)
      (storeOutput index.toUInt64 v d') := by
  have hdata := hs.data.alike h.field fun hsame => by
    have hsizeX : d'.val.sizeX = d.val.sizeX := hsame .sizeX (by decide)
    have hsizeY : d'.val.sizeY = d.val.sizeY := hsame .sizeY (by decide)
    rw [AnswerT.InOutputs, AnswerT.InOutputs, hsizeX, hsizeY]
  have hread := h.data
  simp only [storeOutput, Option.bind_eq_bind]
  by_cases hin : d.val.InOutputs index.toUInt64
  · rw [if_pos (show _ ∧ _ from hin), if_pos (show _ ∧ _ from hdata.1.mp hin)]
    cases hb : d.val.data with
    | none =>
      rw [hb, Option.map_none, Option.map_eq_none_iff] at hread
      rw [hread]
      exact .none
    | some b =>
      rw [hb] at hread
      obtain ⟨b', hb', hbytes⟩ := Option.map_eq_some_iff.mp hread
      rw [hb', Option.bind_some, Option.bind_some]
      apply optionRel_bind (Block.store_alike hbytes _ v)
      intro c c' hc
      refine .some ⟨h.assign ?_ (congrArg some hc), ⟨rfl, rfl⟩, rfl, rfl⟩
      intro r
      by_cases hr : r = .data (index.toUInt64 - 3)
      · exact .inl (by rw [hr]; rfl)
      · refine .inr ⟨hr, ?_⟩
        cases r <;> exact ⟨rfl, rfl⟩
  · rw [if_neg (show ¬ (_ ∧ _) from hin), if_neg (show ¬ (_ ∧ _) from mt hdata.1.mpr hin)]
    exact .some ⟨h, ⟨rfl, rfl⟩, rfl, rfl⟩

end Answers

end Aiqb
