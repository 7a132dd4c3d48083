import Aiqb.Phases
import Aiqb.ProblemApart

namespace Aiqb
set_option autoImplicit true

/-- The life of a problem, which goes round through `waiting`. -/
inductive Phase where
  | registering | waiting | held | marked | queued | started | solved | returning
  deriving DecidableEq

/-- The statuses that an atom of the phase can have. -/
def Phase.allows : Phase → UInt8 → Prop
  | registering, s => s = statusNew
  | waiting, s | held, s => s = statusNew ∨ s = statusSolved
  | marked, s | queued, s | started, s => s = statusInProgress
  | solved, s | returning, s => s = statusSolved

def Phase.inQueue : Phase → Bool
  | queued | started | solved => true
  | _ => false

def Dispatcher.list : Dispatcher → Phase → List Ptr
  | holding p, .held | marked p, .marked | queued p, .queued => [p]
  | _, _ => []

/-- The places in the queue that the dispatcher counts on. -/
def Dispatcher.pending : Dispatcher → Nat
  | ready | holding _ | marked _ => 1
  | idle | queued _ => 0

/-- The atoms that were loaded, and the first address that is given out after them. -/
structure Origin where
  loaded : List Ptr
  next : Nat
  lt_next : ∀ p ∈ loaded, p < next

def Origin.Stored (o : Origin) (size : Nat) (p : Ptr) : Prop :=
  p ∈ o.loaded ∨ o.next ≤ p ∧ p < size

namespace ProblemBook

def list (b : ProblemBook) : Phase → List Ptr
  | .registering => b.registering
  | .waiting => b.problems
  | .held => b.dispatcher.list .held
  | .marked => b.dispatcher.list .marked
  | .queued => b.dispatcher.list .queued
  | .started => b.started
  | .solved => b.solved
  | .returning => b.returning.reduceOption

/-- Every atom is in one phase, and its status and its ring are those of the phase. -/
structure Located (o : Origin) (b : ProblemBook) (phase : Ptr → Option Phase) : Prop where
  placed : Placed b.list phase
  stored : ∀ p, (phase p).isSome ↔ o.Stored b.size p
  grown : o.next ≤ b.size
  atom : ∀ p k, phase p = some k → ∃ a, b.val p = some a ∧ k.allows a.header.status
  queueNodup : b.problemQueue.Nodup
  queue : ∀ p, p ∈ b.problemQueue ↔ ∃ k, phase p = some k ∧ k.inQueue

/-- No two atoms have the same id, and the next id is larger than all of them. -/
structure Numbered (b : ProblemBook) : Prop where
  unique : ∀ p q a c, b.val p = some a → b.val q = some c → a.header.id = c.header.id → p = q
  below : ∀ p a, b.val p = some a → a.header.id.toNat < b.autoIncrement.toNat

/-- What holds of the problems between any two steps. -/
structure Sound (o : Origin) (b : ProblemBook) : Prop where
  located : ∃ phase, b.Located o phase
  numbered : b.Numbered
  returned : none ∉ b.returning
  room : b.problemQueue.length + b.dispatcher.pending ≤ b.limit.toNat

section Moves

variable {o : Origin} {b b' : ProblemBook} {phase : Ptr → Option Phase} {p : Ptr} {j k : Phase}

theorem Located.val_of_mem (h : b.Located o phase) (hp : p ∈ b.list k) :
    ∃ a, b.val p = some a ∧ k.allows a.header.status := h.atom p k ((h.placed.mem k p).mp hp)

/-- An atom goes from one phase to another, and everything else stays. -/
theorem Located.moved (h : b.Located o phase) (hp : p ∈ b.list j) (hjk : j ≠ k)
    (hfrom : b'.list j = (b.list j).erase p) (hto : b'.list k = b.list k ++ [p])
    (hsame : ∀ i, i ≠ j → i ≠ k → b'.list i = b.list i) (hsize : b'.size = b.size)
    (hval : ∃ a, b'.val p = some a ∧ k.allows a.header.status)
    (hother : ∀ q, q ≠ p → b'.val q = b.val q) (hnodup : b'.problemQueue.Nodup)
    (hqueue : ∀ q, q ∈ b'.problemQueue ↔ if q = p then k.inQueue = true else q ∈ b.problemQueue) :
    b'.Located o (Function.update phase p (some k)) where
  placed := h.placed.move hp hjk hfrom hto hsame
  stored q := by
    rw [hsize, ← h.stored]
    by_cases hq : q = p
    · subst hq
      rw [Function.update_self, (h.placed.mem j q).mp hp]
      simp
    · rw [Function.update_of_ne hq]
  grown := hsize ▸ h.grown
  atom q i hq := by
    by_cases he : q = p
    · subst he
      rw [Function.update_self, Option.some.injEq] at hq
      exact hq ▸ hval
    · rw [Function.update_of_ne he] at hq
      rw [hother q he]
      exact h.atom q i hq
  queueNodup := hnodup
  queue q := by
    rw [hqueue]
    by_cases he : q = p
    · subst he
      simp only [if_true, Function.update_self, Option.some.injEq, exists_eq_left']
    · rw [if_neg he, Function.update_of_ne he]
      exact h.queue q

theorem Located.mem_queue (h : b.Located o phase) (hp : p ∈ b.list j) :
    p ∈ b.problemQueue ↔ j.inQueue := by
  rw [h.queue, (h.placed.mem j p).mp hp]
  simp only [Option.some.injEq, exists_eq_left']

theorem Located.stays (h : b.Located o phase) (hp : p ∈ b.list j) (hjk : j ≠ k)
    (hin : j.inQueue = k.inQueue) (hfrom : b'.list j = (b.list j).erase p)
    (hto : b'.list k = b.list k ++ [p])
    (hsame : ∀ i, i ≠ j → i ≠ k → b'.list i = b.list i) (hsize : b'.size = b.size)
    (hval : ∃ a, b'.val p = some a ∧ k.allows a.header.status)
    (hother : ∀ q, q ≠ p → b'.val q = b.val q) (hqueue : b'.problemQueue = b.problemQueue) :
    b'.Located o (Function.update phase p (some k)) := by
  apply h.moved hp hjk hfrom hto hsame hsize hval hother (hqueue ▸ h.queueNodup)
  intro q
  rw [hqueue]
  split
  · next hq => rw [hq, h.mem_queue hp, hin]
  · exact Iff.rfl

theorem Numbered.same (h : b.Numbered) (hauto : b'.autoIncrement = b.autoIncrement)
    (hids : ∀ p a', b'.val p = some a' → ∃ a, b.val p = some a ∧ a'.header.id = a.header.id) :
    b'.Numbered where
  unique p q a c hp hq he := by
    obtain ⟨a', ha', ida⟩ := hids p a hp
    obtain ⟨c', hc', idc⟩ := hids q c hq
    exact h.unique p q a' c' ha' hc' (ida ▸ idc ▸ he)
  below p a hp := by
    obtain ⟨a', ha', ida⟩ := hids p a hp
    rw [hauto, ida]
    exact h.below p a' ha'

theorem Numbered.same_val (h : b.Numbered) (hauto : b'.autoIncrement = b.autoIncrement)
    (hval : b'.val = b.val) : b'.Numbered :=
  h.same hauto fun _ a' ha => ⟨a', hval ▸ ha, rfl⟩

theorem setStatus_same {a : FsdbT} (ha : b.val p = some a) (status : UInt8) (q : Ptr) (a' : FsdbT)
    (hq : b.setStatus p status a q = some a') :
    ∃ a, b.val q = some a ∧ a' = { a with header.status := a'.header.status } := by
  by_cases he : q = p
  · subst he
    rw [setStatus_self, Option.some.injEq] at hq
    exact ⟨a, ha, hq ▸ rfl⟩
  · rw [setStatus_other status he] at hq
    exact ⟨a', hq, rfl⟩

theorem setStatus_ids {a : FsdbT} (ha : b.val p = some a) (status : UInt8) (q : Ptr) (a' : FsdbT)
    (hq : b.setStatus p status a q = some a') :
    ∃ a, b.val q = some a ∧ a'.header.id = a.header.id := by
  obtain ⟨c, hc, hsame⟩ := setStatus_same ha status q a' hq
  exact ⟨c, hc, hsame ▸ rfl⟩

theorem Numbered.lookup (h : b.Numbered) {a : FsdbT} (ha : b.val p = some a)
    (hp : p ∈ b.problemQueue) :
    lookupDb b.val b.problemQueue (some (.byId a.header.id)) = some p := by
  have hmatch : (b.val p).any (Query.byId a.header.id).matches := by
    rw [ha, Option.any_some]
    exact beq_self_eq_true a.header.id
  cases hf : lookupDb b.val b.problemQueue (some (.byId a.header.id)) with
  | none => exact absurd hmatch (List.find?_eq_none.mp hf p hp)
  | some q =>
    have hq := List.find?_some hf
    obtain ⟨c, hc, hid⟩ := (Option.any_eq_true _ _).mp hq
    rw [h.unique p q a c ha hc (beq_iff_eq.mp hid)]

end Moves

section Steps

variable {o : Origin} {b b' : ProblemBook} {phase : Ptr → Option Phase} {p : Ptr}

theorem Located.fresh (h : b.Located o phase) : phase b.size = none := by
  rw [← Option.not_isSome_iff_eq_none, h.stored]
  rintro (hl | hr)
  · exact Nat.lt_irrefl _ (Nat.lt_of_lt_of_le (o.lt_next _ hl) h.grown)
  · exact Nat.lt_irrefl _ hr.2

theorem stored_succ (o : Origin) {n : Nat} (hn : o.next ≤ n) (q : Ptr) :
    o.Stored (n + 1) q ↔ q = n ∨ o.Stored n q := by
  have hle (x : Nat) : x < n + 1 ↔ x = n ∨ x < n := by omega
  simp only [Origin.Stored, hle]
  constructor
  · rintro (h | ⟨hq, rfl | h⟩)
    · exact .inr (.inl h)
    · exact .inl rfl
    · exact .inr (.inr ⟨hq, h⟩)
  · rintro (rfl | h | h)
    · exact .inr ⟨hn, .inl rfl⟩
    · exact .inl h
    · exact .inr ⟨h.1, .inr h.2⟩

theorem Located.register (h : b.Located o phase) (time : UInt64) :
    (b.register time).Located o (Function.update phase b.size (some .registering)) where
  placed := by
    apply h.placed.enter h.fresh rfl
    intro i hi
    cases i <;> first | rfl | exact absurd rfl hi
  stored q := by
    have hsize : (b.register time).size = b.size + 1 := rfl
    rw [hsize, stored_succ o h.grown, ← h.stored]
    by_cases hq : q = b.size
    · rw [hq, Function.update_self]
      simp
    · rw [Function.update_of_ne hq, or_iff_right hq]
  grown := Nat.le_succ_of_le h.grown
  atom q k hq := by
    by_cases he : q = b.size
    · rw [he, Function.update_self, Option.some.injEq] at hq
      exact ⟨registeredAtom b.databaseDir b.autoIncrement time, he ▸ Function.update_self _ _ _,
        hq ▸ rfl⟩
    · rw [Function.update_of_ne he] at hq
      obtain ⟨a, ha, hst⟩ := h.atom q k hq
      exact ⟨a, (Function.update_of_ne he _ _).trans ha, hst⟩
  queueNodup := h.queueNodup
  queue q := by
    by_cases he : q = b.size
    · rw [he, Function.update_self]
      refine iff_of_false ?_ ?_
      · intro hq
        obtain ⟨k, hk, _⟩ := (h.queue b.size).mp hq
        rw [h.fresh] at hk
        cases hk
      · rintro ⟨k, hk, hin⟩
        rw [← Option.some.inj hk] at hin
        cases hin
    · rw [Function.update_of_ne he]
      exact h.queue q

theorem Numbered.register (h : b.Numbered) (hid : b.autoIncrement.toNat < 2 ^ 64 - 1)
    (time : UInt64) : (b.register time).Numbered := by
  have hnew : (b.register time).val b.size =
      some (registeredAtom b.databaseDir b.autoIncrement time) := Function.update_self _ _ _
  have hold (q : Ptr) (hq : q ≠ b.size) : (b.register time).val q = b.val q :=
    Function.update_of_ne hq _ _
  have hauto : (b.register time).autoIncrement.toNat = b.autoIncrement.toNat + 1 := by
    have hadd : (b.autoIncrement + 1).toNat = b.autoIncrement.toNat + 1 := by
      rw [UInt64.toNat_add, UInt64.toNat_one]
      omega
    exact hadd
  have hne (q : Ptr) (a : FsdbT) (hq : b.val q = some a) : a.header.id ≠ b.autoIncrement := by
    intro he
    have hlt := h.below q a hq
    rw [he] at hlt
    exact Nat.lt_irrefl _ hlt
  constructor
  · intro p q a c hp hq he
    by_cases hps : p = b.size
    · rw [hps, hnew, Option.some.injEq] at hp
      by_cases hqs : q = b.size
      · rw [hps, hqs]
      · rw [hold q hqs] at hq
        exact absurd (he.symm.trans (hp ▸ rfl)) (hne q c hq)
    · rw [hold p hps] at hp
      by_cases hqs : q = b.size
      · rw [hqs, hnew, Option.some.injEq] at hq
        exact absurd (he.trans (hq ▸ rfl)) (hne p a hp)
      · rw [hold q hqs] at hq
        exact h.unique p q a c hp hq he
  · intro p a hp
    rw [hauto]
    by_cases hps : p = b.size
    · rw [hps, hnew, Option.some.injEq] at hp
      have hid' : a.header.id = b.autoIncrement := hp ▸ rfl
      rw [hid']
      exact Nat.lt_succ_self _
    · rw [hold p hps] at hp
      exact Nat.lt_succ_of_lt (h.below p a hp)

theorem Sound.register (h : b.Sound o) (hid : b.autoIncrement.toNat < 2 ^ 64 - 1) (time : UInt64) :
    (b.register time).Sound o := by
  obtain ⟨phase, hloc⟩ := h.located
  exact ⟨⟨_, hloc.register time⟩, h.numbered.register hid time, h.returned, h.room⟩

theorem Sound.insert (h : b.Sound o) (hs : b.insert p = some b') : b'.Sound o := by
  obtain ⟨phase, hloc⟩ := h.located
  unfold ProblemBook.insert at hs
  split at hs
  · next hp =>
    cases hs
    obtain ⟨a, ha, hst⟩ := hloc.val_of_mem (k := .registering) hp
    refine ⟨⟨_, hloc.stays (j := .registering) (k := .waiting) hp (by decide) rfl rfl rfl ?_ rfl
      ⟨a, ha, .inl hst⟩ (fun _ _ => rfl) rfl⟩, h.numbered.same_val rfl rfl, h.returned, h.room⟩
    intro i hi hi'
    cases i <;> first | rfl | exact absurd rfl hi | exact absurd rfl hi'
  · cases hs

theorem Sound.markSolved (h : b.Sound o) (hs : b.markSolved p = some b') : b'.Sound o := by
  obtain ⟨phase, hloc⟩ := h.located
  unfold ProblemBook.markSolved at hs
  split at hs
  · next hp =>
    obtain ⟨a, ha, rfl⟩ := Option.map_eq_some_iff.mp hs
    refine ⟨⟨_, hloc.stays (j := .started) (k := .solved) hp (by decide) rfl rfl rfl ?_ rfl
      ⟨_, b.setStatus_self p statusSolved a, rfl⟩ (fun _ hq => setStatus_other statusSolved hq)
      rfl⟩, h.numbered.same rfl (setStatus_ids ha statusSolved), h.returned, h.room⟩
    intro i hi hi'
    cases i <;> first | rfl | exact absurd rfl hi | exact absurd rfl hi'
  · cases hs

/-- The lookup of a completion finds the atom that the solver was given. -/
theorem Sound.lookup (h : b.Sound o) (hp : p ∈ b.solved) :
    ∃ a, b.val p = some a ∧ p ∈ b.problemQueue ∧
      lookupDb b.val b.problemQueue (some (.byId a.header.id)) = some p := by
  obtain ⟨phase, hloc⟩ := h.located
  obtain ⟨a, ha, _⟩ := hloc.val_of_mem (k := .solved) hp
  have hq := (hloc.mem_queue (j := .solved) hp).mpr rfl
  exact ⟨a, ha, hq, h.numbered.lookup ha hq⟩

theorem Sound.takeSolved (h : b.Sound o) (hs : b.takeSolved p = some b') : b'.Sound o := by
  obtain ⟨phase, hloc⟩ := h.located
  unfold ProblemBook.takeSolved at hs
  split at hs
  · next hp =>
    obtain ⟨a, ha, hq, hlook⟩ := h.lookup hp
    rw [ha, Option.map_some, hlook, Option.some.injEq] at hs
    subst hs
    obtain ⟨_, ha', hst⟩ := hloc.val_of_mem (k := .solved) hp
    refine ⟨⟨_, hloc.moved (j := .solved) (k := .returning) hp (by decide) rfl ?_ ?_ rfl
      ⟨_, ha', hst⟩ (fun _ _ => rfl) (hloc.queueNodup.erase p) ?_⟩, h.numbered.same_val rfl rfl,
      ?_, ?_⟩
    · exact List.reduceOption_append _ _
    · intro i hi hi'
      cases i <;> first | rfl | exact absurd rfl hi | exact absurd rfl hi'
    · intro q
      split
      · next he => exact iff_of_false (he ▸ hloc.queueNodup.not_mem_erase) (by decide)
      · next he => exact List.mem_erase_of_ne he
    · intro hn
      rcases List.mem_append.mp hn with hn | hn
      · exact h.returned hn
      · cases List.mem_singleton.mp hn
    · exact Nat.le_trans (Nat.add_le_add_right (List.length_erase_le) _) h.room
  · cases hs

theorem Sound.giveBack {atom : Option Ptr} (h : b.Sound o) (hs : b.giveBack atom = some b') :
    b'.Sound o := by
  obtain ⟨phase, hloc⟩ := h.located
  unfold ProblemBook.giveBack at hs
  split at hs
  · next hp =>
    cases hs
    cases atom with
    | none => exact absurd hp h.returned
    | some p =>
      have hmem : p ∈ b.list .returning := List.reduceOption_mem_iff.mpr hp
      obtain ⟨a, ha, hst⟩ := hloc.val_of_mem hmem
      refine ⟨⟨_, hloc.stays (j := .returning) (k := .waiting) hmem (by decide) rfl ?_ rfl ?_ rfl
        ⟨a, ha, .inr hst⟩ (fun _ _ => rfl) rfl⟩, h.numbered.same_val rfl rfl, ?_, h.room⟩
      · exact reduceOption_erase _ _
      · intro i hi hi'
        cases i <;> first | rfl | exact absurd rfl hi | exact absurd rfl hi'
      · exact fun hn => h.returned (List.mem_of_mem_erase hn)
  · cases hs

theorem Located.same (h : b.Located o phase) (hlist : ∀ i, b'.list i = b.list i)
    (hsize : b'.size = b.size) (hval : b'.val = b.val)
    (hqueue : b'.problemQueue = b.problemQueue) : b'.Located o phase where
  placed := by rw [funext hlist]; exact h.placed
  stored p := hsize ▸ h.stored p
  grown := hsize ▸ h.grown
  atom p k hk := hval ▸ h.atom p k hk
  queueNodup := hqueue ▸ h.queueNodup
  queue p := hqueue ▸ h.queue p

theorem Sound.dispatch (h : b.Sound o) (hs : b.dispatch = some b') : b'.Sound o := by
  obtain ⟨phase, hloc⟩ := h.located
  have hroom := h.room
  unfold ProblemBook.dispatch at hs
  cases hd : b.dispatcher with
  | idle =>
    rw [hd] at hroom
    simp only [hd] at hs
    split at hs
    · next hlt =>
      cases hs
      refine ⟨⟨phase, hloc.same ?_ rfl rfl rfl⟩, h.numbered.same_val rfl rfl, h.returned, ?_⟩
      · intro i
        cases i <;> first | rfl | simp only [list, hd, Dispatcher.list]
      · rw [UInt64.lt_iff_toNat_lt, UInt64.toNat_ofNat', UInt32.toNat_toUInt64] at hlt
        have hlim := b.limit.toNat_lt
        simp only [Dispatcher.pending] at hroom ⊢
        omega
    · cases hs
      exact h
  | ready =>
    rw [hd] at hroom
    simp only [hd] at hs
    cases hb : b.problems with
    | nil =>
      simp only [hb] at hs
      cases hs
      refine ⟨⟨phase, hloc.same ?_ rfl rfl rfl⟩, h.numbered.same_val rfl rfl, h.returned,
        Nat.le_of_succ_le hroom⟩
      intro i
      cases i <;> first | rfl | simp only [list, hb, hd, Dispatcher.list]
    | cons p rest =>
      simp only [hb] at hs
      cases hs
      have hp : p ∈ b.list .waiting := by
        rw [list, hb]
        exact List.mem_cons_self
      obtain ⟨a, ha, hst⟩ := hloc.val_of_mem hp
      refine ⟨⟨_, hloc.stays (k := .held) hp (by decide) rfl ?_ ?_ ?_ rfl ⟨a, ha, hst⟩
        (fun _ _ => rfl) rfl⟩, h.numbered.same_val rfl rfl, h.returned, hroom⟩
      · simp only [list, hb, List.erase_cons_head]
      · simp only [list, hd, Dispatcher.list, List.nil_append]
      · intro i hi hi'
        cases i <;> first | rfl | exact absurd rfl hi | exact absurd rfl hi' |
          simp only [list, hd, Dispatcher.list]
  | holding p =>
    rw [hd] at hroom
    have hp : p ∈ b.list .held := by
      simp only [list, hd, Dispatcher.list, List.mem_singleton]
    obtain ⟨a, ha, hst⟩ := hloc.val_of_mem hp
    have hheld : (b.list .held).erase p = [] := by
      simp only [list, hd, Dispatcher.list, List.erase_cons_head]
    simp only [hd, ha, Option.map_some, Option.some.injEq] at hs
    subst hs
    split
    · refine ⟨⟨_, hloc.stays (j := .held) (k := .marked) hp (by decide) rfl hheld.symm ?_ ?_ rfl
        ⟨_, b.setStatus_self p statusInProgress a, rfl⟩
        (fun _ hq => setStatus_other statusInProgress hq) rfl⟩,
        h.numbered.same rfl (setStatus_ids ha statusInProgress), h.returned, hroom⟩
      · simp only [list, hd, Dispatcher.list, List.nil_append]
      · intro i hi hi'
        cases i <;> first | rfl | exact absurd rfl hi | exact absurd rfl hi' |
          simp only [list, hd, Dispatcher.list]
    · refine ⟨⟨_, hloc.stays (j := .held) (k := .waiting) hp (by decide) rfl hheld.symm rfl ?_ rfl
        ⟨a, ha, hst⟩ (fun _ _ => rfl) rfl⟩, h.numbered.same_val rfl rfl, h.returned,
        Nat.le_of_succ_le hroom⟩
      intro i hi hi'
      cases i <;> first | rfl | exact absurd rfl hi | exact absurd rfl hi' |
        simp only [list, hd, Dispatcher.list]
  | marked p =>
    rw [hd] at hroom
    have hp : p ∈ b.list .marked := by
      simp only [list, hd, Dispatcher.list, List.mem_singleton]
    obtain ⟨a, ha, hst⟩ := hloc.val_of_mem hp
    have hmarked : (b.list .marked).erase p = [] := by
      simp only [list, hd, Dispatcher.list, List.erase_cons_head]
    have hq : p ∉ b.problemQueue := fun hin => absurd ((hloc.mem_queue hp).mp hin) (by decide)
    simp only [hd] at hs
    cases hs
    refine ⟨⟨_, hloc.moved (j := .marked) (k := .queued) hp (by decide) hmarked.symm ?_ ?_ rfl
      ⟨a, ha, hst⟩ (fun _ _ => rfl) ?_ ?_⟩, h.numbered.same_val rfl rfl, h.returned, ?_⟩
    · simp only [list, hd, Dispatcher.list, List.nil_append]
    · intro i hi hi'
      cases i <;> first | rfl | exact absurd rfl hi | exact absurd rfl hi' |
        simp only [list, hd, Dispatcher.list]
    · rw [List.nodup_append_comm]
      exact List.nodup_cons.mpr ⟨hq, hloc.queueNodup⟩
    · intro q
      rw [List.mem_append, List.mem_singleton]
      split
      · next he => exact iff_of_true (.inr he) rfl
      · next he => exact ⟨fun hor => hor.resolve_right he, .inl⟩
    · simp only [List.length_append, List.length_singleton, Dispatcher.pending] at hroom ⊢
      exact hroom
  | queued p =>
    rw [hd] at hroom
    have hp : p ∈ b.list .queued := by
      simp only [list, hd, Dispatcher.list, List.mem_singleton]
    obtain ⟨a, ha, hst⟩ := hloc.val_of_mem hp
    have hqueued : (b.list .queued).erase p = [] := by
      simp only [list, hd, Dispatcher.list, List.erase_cons_head]
    simp only [hd] at hs
    cases hs
    refine ⟨⟨_, hloc.stays (j := .queued) (k := .started) hp (by decide) rfl hqueued.symm rfl ?_ rfl
      ⟨a, ha, hst⟩ (fun _ _ => rfl) rfl⟩, h.numbered.same_val rfl rfl, h.returned, hroom⟩
    intro i hi hi'
    cases i <;> first | rfl | exact absurd rfl hi | exact absurd rfl hi' |
      simp only [list, hd, Dispatcher.list]

/-- Every step keeps the problems in order, as long as there are ids. -/
theorem Sound.step (h : b.Sound o) (e : ProblemEvent)
    (hid : ∀ time, e = .register time → b.autoIncrement.toNat < 2 ^ 64 - 1)
    (hs : b.step e = some b') : b'.Sound o := by
  cases e with
  | register time =>
    cases hs
    exact h.register (hid time rfl) time
  | insert p => exact h.insert hs
  | dispatch => exact h.dispatch hs
  | markSolved p => exact h.markSolved hs
  | takeSolved p => exact h.takeSolved hs
  | giveBack atom => exact h.giveBack hs

end Steps

section Places

variable {o : Origin} {b : ProblemBook} {phase : Ptr → Option Phase} {p : Ptr}

theorem held_eq (b : ProblemBook) :
    b.held = [Phase.held, .marked, .registering, .returning].flatMap b.list := by
  simp only [held, List.flatMap_cons, List.flatMap_nil, List.append_nil, list]
  cases b.dispatcher <;> simp only [Dispatcher.held, Dispatcher.list, List.nil_append,
    List.append_assoc]

theorem Located.mem_held (h : b.Located o phase) :
    p ∈ b.held ↔ ∃ k ∈ [Phase.held, .marked, .registering, .returning], phase p = some k := by
  rw [held_eq, h.placed.mem_flatMap]

theorem Located.mem_problems (h : b.Located o phase) : p ∈ b.problems ↔ phase p = some .waiting :=
  h.placed.mem .waiting p

theorem Located.mem_places (h : b.Located o phase) : p ∈ b.places ↔ (phase p).isSome := by
  rw [places, List.mem_append, List.mem_append, h.mem_problems, h.queue, h.mem_held,
    Option.isSome_iff_exists]
  constructor
  · rintro ((h | ⟨k, h, _⟩) | ⟨k, _, h⟩) <;> exact ⟨_, h⟩
  · rintro ⟨k, h⟩
    cases k with
    | waiting => exact .inl (.inl h)
    | queued => exact .inl (.inr ⟨_, h, rfl⟩)
    | started => exact .inl (.inr ⟨_, h, rfl⟩)
    | solved => exact .inl (.inr ⟨_, h, rfl⟩)
    | _ => exact .inr ⟨_, by decide, h⟩

theorem Located.problems_queue (h : b.Located o phase) (hp : p ∈ b.problems)
    (hq : p ∈ b.problemQueue) : False := by
  obtain ⟨k, hk, hin⟩ := (h.queue p).mp hq
  rw [h.mem_problems.mp hp, Option.some.injEq] at hk
  subst hk
  cases hin

theorem Located.not_held (h : b.Located o phase) (hp : p ∈ b.problems ++ b.problemQueue) :
    p ∉ b.held := by
  intro hh
  obtain ⟨k, hmem, hphase⟩ := h.mem_held.mp hh
  rcases List.mem_append.mp hp with hp | hp
  · rw [h.mem_problems.mp hp, Option.some.injEq] at hphase
    subst hphase
    exact absurd hmem (by decide)
  · obtain ⟨k', hk', hin⟩ := (h.queue p).mp hp
    rw [hk', Option.some.injEq] at hphase
    subst hphase
    revert hin hmem
    cases k' <;> decide

theorem Sound.apart (h : b.Sound o) : b.Apart := by
  obtain ⟨phase, hloc⟩ := h.located
  constructor
  · rw [places, List.nodup_append', List.nodup_append']
    refine ⟨⟨hloc.placed.nodup .waiting, hloc.queueNodup, ?_⟩, ?_, ?_⟩
    · exact fun p hp hq => hloc.problems_queue hp hq
    · rw [held_eq]
      exact hloc.placed.flatMap_nodup (by decide)
    · exact fun p hp => hloc.not_held hp
  · intro p hp
    obtain ⟨k, hk⟩ := Option.isSome_iff_exists.mp (hloc.mem_places.mp hp)
    obtain ⟨a, ha, _⟩ := hloc.atom p k hk
    exact ⟨a, ha⟩

end Places

end ProblemBook

end Aiqb
