import Aiqb.AnswerLists
import Aiqb.Emitted
import Aiqb.RingLists
import Mathlib.Data.List.Find

namespace Aiqb
set_option autoImplicit true

def settledId (ids : List Nat) (id : Nat) : Nat :=
  if id = 0 then ids.max?.elim 1 (· + 1) else id

/-- A queue of answers as a list of nodes with ids; id 0 asks for the first node. -/
def queueSpec : ListSpec Nat UInt64 where
  settle := settledId
  cond id := if id = 0 then none else some (· == id.toNat)

def queueOps : RingOps AnswerT UInt64 := ⟨insertQueue, extractQueue⟩

def AnswerT.number (a : AnswerT) : Nat := a.id.toNat

def IdLeft (ids : List Nat) (id : Nat) : Prop := id = 0 → ∀ i ∈ ids, i < 2 ^ 64 - 1

theorem one_le_settledId (ids : List Nat) (id : Nat) : 1 ≤ settledId ids id := by
  unfold settledId
  split
  · cases ids.max? with
    | none => exact Nat.le_refl 1
    | some m => exact Nat.succ_le_succ (Nat.zero_le m)
  · next h0 => exact Nat.one_le_iff_ne_zero.mpr h0

theorem lastId_max {ids : List UInt64} (hne : ids ≠ []) (hpos : ∀ i ∈ ids, 1 ≤ i.toNat) :
    (ids.map UInt64.toNat).max? = some (lastId ids).toNat :=
  foldl_lastId_max hne hpos

theorem nextId_toNat {ids : List UInt64} (hroom : ∀ i ∈ ids, i.toNat < 2 ^ 64 - 1)
    (hpos : ∀ i ∈ ids, 1 ≤ i.toNat) :
    (nextId ids).toNat = (ids.map UInt64.toNat).max?.elim 1 (· + 1) := by
  unfold nextId
  split
  · next hnil => rw [hnil]; rfl
  · next hne =>
    rw [lastId_max hne hpos, Option.elim_some, UInt64.toNat_add]
    have hle : (lastId ids).toNat ≤ 2 ^ 64 - 2 :=
      lastId_le (fun i hi => Nat.le_sub_one_of_lt (hroom i hi)) (by decide)
    apply Nat.mod_eq_of_lt
    change (lastId ids).toNat + 1 < 2 ^ 64
    omega

theorem assignedId_toNat {ids : List UInt64} {id : UInt64}
    (hroom : IdLeft (ids.map UInt64.toNat) id.toNat) (hpos : ∀ i ∈ ids, 1 ≤ i.toNat) :
    (assignedId ids id).toNat = settledId (ids.map UInt64.toNat) id.toNat := by
  unfold assignedId settledId
  by_cases h0 : id = 0
  · have hz : id.toNat = 0 := congrArg UInt64.toNat h0
    rw [if_pos h0, if_pos hz]
    apply nextId_toNat _ hpos
    intro i hi
    exact hroom hz _ (List.mem_map_of_mem hi)
  · have hz : id.toNat ≠ 0 := fun hz => h0 (UInt64.toNat_inj.mp hz)
    rw [if_neg h0, if_neg hz]

theorem idsOf_toNat (h : Heap AnswerT) (xs : List Ptr) :
    (idsOf h.valOf xs).map UInt64.toNat = (h.vals xs).map AnswerT.number := by
  rw [idsOf, List.map_map]
  rfl

theorem lookupId_pick (val : Ptr → Option AnswerT) (xs : List Ptr) (id : UInt64) :
    lookupId val xs id = pick (fun p => (val p).map AnswerT.number) xs (queueSpec.cond id) := by
  by_cases h0 : id = 0
  · simp only [lookupId, queueSpec, if_pos h0, pick]
  · simp only [lookupId, queueSpec, if_neg h0, pick]
    apply List.find?_congr
    intro p _
    cases val p with
    | none => rfl
    | some a =>
      rw [Option.any_some, Option.map_some, Option.any_some, AnswerT.number, Bool.eq_iff_iff,
        beq_iff_eq, beq_iff_eq, UInt64.toNat_inj, eq_comm]

/-- The operations on a queue are those on the list of its nodes and their ids. -/
theorem queueOps_implement : queueOps.Implement queueSpec AnswerT.number IdLeft where
  skip _ _ := rfl
  insert {h head xs p a} hr hp hv hj hok := by
    obtain ⟨h', head', he, hr', _, hv', hsame⟩ := insertQueue_spec hr hp hv
    refine ⟨h', head', _, he, hr', hv', hsame, ?_⟩
    have hpos : ∀ i ∈ idsOf h.valOf xs, 1 ≤ i.toNat := by
      intro i hi
      have hn : i.toNat ∈ (h.vals xs).map AnswerT.number := by
        rw [← idsOf_toNat]
        exact List.mem_map_of_mem hi
      obtain ⟨ids, id, he⟩ := hj _ hn
      rw [he]
      exact one_le_settledId ids id
    rw [← idsOf_toNat] at hok ⊢
    exact assignedId_toNat hok hpos
  extract_none hr hpick := extractQueue_none hr ((lookupId_pick _ _ _).trans hpick)
  extract_some hr hpick := by
    obtain ⟨h', head', he, hr', _, hv', hsame⟩ :=
      extractQueue_some hr ((lookupId_pick _ _ _).trans hpick)
    exact ⟨h', head', he, hr', hv', hsame⟩

structure QueueReads (s : RingState κ AnswerT) (b : ListFamily κ Nat) (i : κ) : Prop where
  find : ∀ id, findQueue s.heap (s.head i) id = some (b.found queueSpec i id)
  extract_none : ∀ id, b.found queueSpec i id = none →
    extractQueue s.heap (s.head i) id = some (s.heap, s.head i, none)
  count : countQueue s.heap (s.head i) = some (UInt64.ofNat (b.list i).length)
  lastId : ∀ d, s.head i = some d →
    ∃ m, lastIdQueue s.heap d = some m ∧ (b.vals i).max? = some m.toNat
  positive : ∀ n ∈ b.vals i, 1 ≤ n

theorem RingState.StandsFor.queueReads {s : RingState κ AnswerT}
    (hs : s.StandsFor AnswerT.number b) (hj : b.Joined queueSpec) (i : κ) :
    QueueReads s b i := by
  have hr := hs.rings.ring i
  have hpos : ∀ n ∈ b.vals i, 1 ≤ n := by
    intro n hn
    obtain ⟨ids, id, rfl⟩ := hj.vals hn
    exact one_le_settledId ids id
  have hids : (idsOf s.heap.valOf (b.list i)).map UInt64.toNat = b.vals i := by
    rw [idsOf_toNat, hs.vals_eq]
  refine ⟨?_, ?_, countQueue_spec hr, ?_, hpos⟩
  · intro id
    rw [findQueue_spec hr, lookupId_pick, hs.found_eq]
  · intro id hf
    apply extractQueue_none hr
    rw [lookupId_pick, hs.found_eq, hf]
  · intro d hd
    rw [hd] at hr
    refine ⟨_, lastIdQueue_spec hr, ?_⟩
    rw [← hids]
    apply lastId_max
    · intro hnil
      have hlen := hr.vals_length
      rw [idsOf, List.map_eq_nil_iff] at hnil
      obtain ⟨ys, hys⟩ := hr.head_some
      rw [Heap.vals, hnil, hys] at hlen
      cases hlen
    · intro j hj'
      apply hpos
      rw [← hids]
      exact List.mem_map_of_mem hj'

/-- The queues are lists, whatever is put into them and taken out of them. -/
theorem answer_queues_are_lists [DecidableEq κ] (h : Heap AnswerT)
    (es : List (ListEvent κ UInt64))
    (hok : StepsMeet (RingState.step queueOps) (RingState.Allows AnswerT.number IdLeft)
      (.start h) es) :
    ∃ s b, Run (RingState.step queueOps) (.start h) es s ∧
      Run (ListFamily.step queueSpec) (.start fun p => (h.valOf p).map AnswerT.number) es b ∧
      s.StandsFor AnswerT.number b ∧ ∀ i, QueueReads s b i := by
  obtain ⟨s, b, hs, hb, hst, hj⟩ := queueOps_implement.run h hok
  exact ⟨s, b, hs, hb, hst, hst.queueReads hj⟩

instance (ids : List Nat) (id : Nat) : Decidable (IdLeft ids id) :=
  inferInstanceAs (Decidable (_ → _))

def Heap.threeAnswers : Heap AnswerT :=
  ((Heap.empty.alloc ⟨0, 1, 1, 0, none, none⟩).alloc ⟨0, 1, 1, 0, none, none⟩).alloc
    ⟨7, 1, 1, 0, none, none⟩

def threeAnswersMoved : List (ListEvent Bool UInt64) :=
  [.insert false (some 0), .insert false (some 1), .insert false (some 2), .extract false 2,
    .insert true (some 1), .extract false 0]

theorem answer_queues_are_lists_three :
    ∃ s b, Run (RingState.step queueOps) (.start Heap.threeAnswers) threeAnswersMoved s ∧
      Run (ListFamily.step queueSpec)
        (.start fun p => (Heap.threeAnswers.valOf p).map AnswerT.number) threeAnswersMoved b ∧
      s.StandsFor AnswerT.number b ∧ ∀ i, QueueReads s b i := by
  have hpasses : passes (ListFamily.step queueSpec) (fun b e => decide (b.Allows IdLeft e))
      (.start fun p => (Heap.threeAnswers.valOf p).map AnswerT.number) threeAnswersMoved := by
    decide +kernel
  apply answer_queues_are_lists
  apply queueOps_implement.steps_meet (.start _ _) fun i p hp => (List.not_mem_nil hp).elim
  exact .of_passes (fun _ _ => of_decide_eq_true) hpasses

end Aiqb
