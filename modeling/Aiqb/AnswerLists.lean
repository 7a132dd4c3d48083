import Aiqb.Answer

namespace Aiqb
set_option autoImplicit true

def idsOf (val : Ptr → Option AnswerT) (xs : List Ptr) : List UInt64 :=
  (xs.filterMap val).map AnswerT.id

theorem idsOf_congr {val val' : Ptr → Option AnswerT} (hv : ∀ p ∈ xs, val' p = val p) :
    idsOf val' xs = idsOf val xs := by
  unfold idsOf
  rw [List.filterMap_congr hv]

theorem idsOf_update {val : Ptr → Option AnswerT} (hp : p ∉ xs) (o : Option AnswerT) :
    idsOf (Function.update val p o) xs = idsOf val xs :=
  idsOf_congr fun q hq => Function.update_of_ne (fun he : q = p => hp (he ▸ hq)) _ _

def lastId (ids : List UInt64) : UInt64 :=
  ids.foldl (fun lastId id => if lastId > id then lastId else id) 1

/-- The id that the next answer without one gets at the tail of a list. -/
def nextId (ids : List UInt64) : UInt64 := if ids = [] then 1 else lastId ids + 1

def assignedId (ids : List UInt64) (id : UInt64) : UInt64 := if id = 0 then nextId ids else id

/-- The node that a lookup by id finds in a list; id 0 stands for the first one. -/
def lookupId (val : Ptr → Option AnswerT) (xs : List Ptr) (id : UInt64) : Option Ptr :=
  if id = 0 then xs.head? else xs.find? fun p => (val p).any fun a => id == a.id

theorem lookupId_mem {id : UInt64} (hl : lookupId val xs id = some p) : p ∈ xs := by
  unfold lookupId at hl
  split at hl
  · exact List.mem_of_mem_head? hl
  · exact List.mem_of_find?_eq_some hl

@[simp] theorem lookupId_nil (val : Ptr → Option AnswerT) (id : UInt64) :
    lookupId val [] id = none := by
  unfold lookupId
  split <;> rfl

theorem lookupId_first {val : Ptr → Option AnswerT} {k : UInt64} (hv : val p = some a)
    (hid : k ≠ 0 → a.id = k) (hzero : k = 0 → ahead = [])
    (hother : ∀ q ∈ ahead, ∀ c, val q = some c → c.id ≠ k) :
    lookupId val (ahead ++ p :: behind) k = some p := by
  by_cases h0 : k = 0
  · rw [hzero h0, lookupId, if_pos h0]
    rfl
  · have hnone : ahead.find? (fun p => (val p).any fun c => k == c.id) = none := by
      apply List.find?_eq_none.mpr
      intro q hq hany
      cases hc : val q with
      | none =>
        rw [hc] at hany
        cases hany
      | some c =>
        rw [hc, Option.any_some, beq_iff_eq] at hany
        exact hother q hq c hc hany.symm
    have hself : (p :: behind).find? (fun p => (val p).any fun c => k == c.id) = some p := by
      simp [hv, hid h0]
    rw [lookupId, if_neg h0, List.find?_append, hnone, hself]
    rfl

theorem le_lastId (hi : i ∈ ids) : i.toNat ≤ (lastId ids).toNat := (foldl_lastId ids 1).2 i hi

theorem lastId_le {ids : List UInt64} (hb : ∀ i ∈ ids, i.toNat ≤ n) (hn : 1 ≤ n) :
    (lastId ids).toNat ≤ n :=
  foldl_lastId_le hb hn

section Queues

variable {h : Heap AnswerT} {queue : Option Ptr} {xs : List Ptr} {id : UInt64}

theorem lastIdQueue_spec (hr : Ring h (some q) xs) :
    lastIdQueue h q = some (lastId (idsOf h.valOf xs)) := by
  rw [lastIdQueue, hr.fold, lastId, idsOf, List.foldl_map]
  rfl

theorem findQueue_spec (hr : Ring h queue xs) :
    findQueue h queue id = some (lookupId h.valOf xs id) := by
  cases queue with
  | none =>
    rw [hr.head_none, lookupId_nil]
    rfl
  | some q =>
    simp only [findQueue, lookupId, hr.search]
    rw [← hr.head_eq]
    split <;> rfl

theorem countQueue_spec (hr : Ring h queue xs) :
    countQueue h queue = some (UInt64.ofNat xs.length) := by
  cases queue with
  | none =>
    rw [hr.head_none]
    rfl
  | some q => rw [countQueue, hr.count]

theorem numberAnswer_spec (hv : h.valOf p = some a) (ids : List UInt64) :
    ∃ h', numberAnswer h p (some (nextId ids)) = some h' ∧ h'.size = h.size ∧
      h'.valOf = Function.update h.valOf p (some { a with id := assignedId ids a.id }) ∧
      h'.nextOf = h.nextOf ∧ h'.prevOf = h.prevOf := by
  have hlt : a.id < 1 ↔ a.id = 0 := by
    rw [UInt64.lt_iff_toNat_lt, ← UInt64.toNat_inj]
    exact Nat.lt_one_iff
  by_cases h0 : a.id = 0
  · obtain ⟨h', e', hs, hv', hn, hp⟩ :=
      Heap.setVal_spec (Heap.live_of_val hv) { a with id := nextId ids }
    refine ⟨h', ?_, hs, ?_, hn, hp⟩
    · simp only [numberAnswer, hv, Option.bind_eq_bind, Option.bind_some, if_pos (hlt.mpr h0), e']
    · rw [hv', assignedId, if_pos h0]
  · refine ⟨h, ?_, rfl, ?_, rfl, rfl⟩
    · simp only [numberAnswer, hv, Option.bind_eq_bind, Option.bind_some, hlt, if_neg h0]
    · rw [assignedId, if_neg h0, eq_comm, Function.update_eq_self_iff, hv]

theorem insertQueue_spec (hr : Ring h queue xs) (hp : p ∉ xs) (hv : h.valOf p = some a) :
    ∃ h' queue', insertQueue h queue (some p) = some (h', queue') ∧
      Ring h' queue' (xs ++ [p]) ∧ h'.size = h.size ∧
      h'.valOf =
        Function.update h.valOf p (some { a with id := assignedId (idsOf h.valOf xs) a.id }) ∧
      h.SameLinks h' (xs ++ [p]) := by
  obtain ⟨h₁, e₁, s₁, v₁, n₁, p₁⟩ := numberAnswer_spec hv (idsOf h.valOf xs)
  have hl₁ : h₁.Live p := Heap.live_of_val (by rw [v₁, Function.update_self])
  obtain ⟨h₂, queue', e₂, hr₂, s₂, v₂, same⟩ := (hr.of_same_links n₁ p₁).insertTail hl₁ hp
  refine ⟨h₂, queue', ?_, hr₂, s₂.trans s₁, v₂.trans v₁, ?_⟩
  · cases queue with
    | none =>
      rw [hr.head_none] at e₁
      have he : numberAnswer h p (some 1) = some h₁ := e₁
      simp only [insertQueue, he, Option.bind_eq_bind, Option.bind_some, e₂]
    | some q =>
      have hid : (lastIdQueue h q).map (· + 1) = some (nextId (idsOf h.valOf xs)) := by
        rw [lastIdQueue_spec hr, Option.map_some, nextId, if_neg]
        intro hnil
        have hlen := hr.vals_length
        rw [idsOf, List.map_eq_nil_iff] at hnil
        rw [Heap.vals, hnil] at hlen
        rw [List.eq_nil_of_length_eq_zero hlen.symm] at hr
        cases hr.head_eq
      simp only [insertQueue, hid, e₁, Option.bind_eq_bind, Option.bind_some, e₂]
  · intro r hr'
    obtain ⟨hn, hpv⟩ := same r hr'
    exact ⟨hn.trans (congrFun n₁ r), hpv.trans (congrFun p₁ r)⟩

theorem extractQueue_none (hr : Ring h queue xs) (hl : lookupId h.valOf xs id = none) :
    extractQueue h queue id = some (h, queue, none) := by
  simp only [extractQueue, findQueue_spec hr, hl, Option.bind_eq_bind, Option.bind_some]

theorem extractQueue_some (hr : Ring h queue xs) (hl : lookupId h.valOf xs id = some p) :
    ∃ h' queue', extractQueue h queue id = some (h', queue', some p) ∧
      Ring h' queue' (xs.erase p) ∧ h'.size = h.size ∧ h'.valOf = h.valOf ∧
      h.SameLinks h' xs := by
  obtain ⟨h', queue', he, hr', hs, hv, hsame⟩ := hr.unlink (lookupId_mem hl)
  refine ⟨h', queue', ?_, hr', hs, hv, hsame⟩
  simp only [extractQueue, findQueue_spec hr, hl, Option.bind_eq_bind, Option.bind_some, he]

end Queues

end Aiqb
