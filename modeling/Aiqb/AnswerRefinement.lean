import Aiqb.AnswerBook
import Mathlib.Data.List.Find

namespace Aiqb
set_option autoImplicit true

theorem lookupId_congr {val val' : Ptr → Option AnswerT}
    (hv : ∀ p ∈ xs, (val' p).map AnswerT.id = (val p).map AnswerT.id)
    (id : UInt64) : lookupId val' xs id = lookupId val xs id := by
  unfold lookupId
  split
  · rfl
  · apply List.find?_congr
    intro p hp
    have hid := hv p hp
    have hany (o : Option AnswerT) : (o.any fun a => id == a.id) =
        (o.map AnswerT.id).any fun i => id == i := by cases o <;> rfl
    rw [hany, hany, hid]

namespace Represents

variable {s : AnswerSide} {b : AnswerBook}

theorem live (hr : Represents s b) (hv : b.val p = some a) : s.heap.Live p :=
  Heap.live_of_val (by rw [hr.val, hv])

theorem size_fresh (hr : Represents s b) : b.size ∉ b.answers ∧ b.size ∉ b.answerQueue := by
  rw [← hr.size]
  exact ⟨fun hm => s.heap.size_not_live (hr.holds.answers.live hm),
    fun hm => s.heap.size_not_live (hr.holds.answerQueue.live hm)⟩

/-- What a registration does, whatever the id of the answer is. -/
theorem join (hr : Represents s b) (a : AnswerT) :
    ∃ s', aiqbdRegisterAnswer { s with heap := s.heap.alloc a } s.heap.size =
      some (s', assignedId (idsOf b.val b.answers) a.id) ∧ Represents s' (b.join a) := by
  obtain ⟨hpx, hpy⟩ := hr.size_fresh
  have hv₀ : (s.heap.alloc a).valOf = Function.update b.val b.size (some a) := by
    rw [Heap.alloc_valOf, hr.val, hr.size]
  have hp₀ : (s.heap.alloc a).valOf b.size = some a := by rw [hv₀, Function.update_self]
  have hids : idsOf (s.heap.alloc a).valOf b.answers = idsOf b.val b.answers := by
    rw [hv₀, idsOf_update hpx]
  obtain ⟨h₂, queue, e₂, hx₂, s₂, v₂, same⟩ := aiqbdRegisterAnswer_spec
    (s := { s with heap := s.heap.alloc a }) (hr.holds.answers.alloc a) hpx hp₀
  rw [hids] at e₂ v₂
  have hy₁ := hr.holds.answerQueue.alloc a
  refine ⟨{ s with heap := h₂, answers := queue }, ?_, ⟨⟨hx₂, ?_, ?_⟩, ?_, ?_, hr.limit,
    hr.solvers⟩⟩
  · rw [hr.size]
    exact e₂
  · apply hy₁.frame_disjoint same
    intro q hq hm
    rcases List.mem_append.mp hm with hm | hm
    · exact hr.holds.disjoint hm hq
    · exact hpy (List.mem_singleton.mp hm ▸ hq)
  · intro q hm hq
    rcases List.mem_append.mp hm with hm | hm
    · exact hr.holds.disjoint hm hq
    · exact hpy (List.mem_singleton.mp hm ▸ hq)
  · rw [v₂, hv₀, Function.update_idem]
    rfl
  · rw [s₂]
    exact congrArg (· + 1) hr.size

theorem register (hr : Represents s b) (a : AnswerT) :
    ∃ s', answerStep s (.register a) = some s' ∧ Represents s' (b.register a) := by
  obtain ⟨s', he, hr'⟩ := hr.join { a with id := 0 }
  exact ⟨s', by rw [answerStep, he, Option.map_some], hr'⟩

theorem dispatch (hr : Represents s b) :
    Option.Rel Represents (dispatchAnswer s) b.dispatch := by
  have hcount := countQueue_spec hr.holds.answerQueue
  have hlim : s.answerQueueSize.toUInt64 = b.limit.toUInt64 := by rw [hr.limit]
  unfold dispatchAnswer AnswerBook.dispatch
  simp only [hcount, Option.bind_eq_bind, Option.bind_some]
  by_cases hroom : UInt64.ofNat b.answerQueue.length < b.limit.toUInt64
  · rw [if_pos hroom, if_pos (hlim ▸ hroom)]
    have hlook : lookupId s.heap.valOf b.answers 0 = b.answers.head? := rfl
    cases hb : b.answers with
    | nil =>
      rw [hb] at hlook
      have hx : Ring s.heap s.answers [] := hb ▸ hr.holds.answers
      rw [extractQueue_none hx hlook]
      exact .some hr
    | cons p rest =>
      rw [hb] at hlook
      have hx : Ring s.heap s.answers (p :: rest) := hb ▸ hr.holds.answers
      have hdisj : List.Disjoint (p :: rest) b.answerQueue := hb ▸ hr.holds.disjoint
      have hpr : p ∉ rest := (List.nodup_cons.mp hx.nodup).1
      have hpq : p ∉ b.answerQueue := hdisj List.mem_cons_self
      obtain ⟨h₁, queue, e₁, hx₁, s₁, v₁, same₁⟩ := extractQueue_some hx hlook
      rw [List.erase_cons_head] at hx₁
      have hy₁ := hr.holds.answerQueue.frame_disjoint same₁ hdisj.symm
      obtain ⟨a, ha⟩ := Heap.live_iff_val.mp (hx.live List.mem_cons_self)
      have ha₁ : h₁.valOf p = some a := by rw [v₁, ha]
      have hba : b.val p = some a := by rw [← hr.val, ha]
      simp only [e₁, Option.bind_some, ha₁, hba, Option.map_some]
      by_cases hst : a.status = statusNew
      · obtain ⟨h₂, e₂, s₂, v₂, n₂, p₂⟩ := Heap.setVal_spec (Heap.live_of_val ha₁)
          { a with status := statusInProgress }
        have ha₂ : h₂.valOf p = some { a with status := statusInProgress } := by
          rw [v₂, Function.update_self]
        obtain ⟨h₃, queue', e₃, hy₃, s₃, v₃, same₃⟩ :=
          insertQueue_spec (hy₁.of_same_links n₂ p₂) hpq ha₂
        have hx₃ : Ring h₃ queue rest := by
          apply (hx₁.of_same_links n₂ p₂).frame_disjoint same₃
          intro q hq hm
          rcases List.mem_append.mp hm with hm | hm
          · exact hdisj (List.mem_cons_of_mem _ hq) hm
          · exact hpr (List.mem_singleton.mp hm ▸ hq)
        simp only [if_pos hst, e₂, Option.bind_some, e₃]
        refine .some ⟨⟨hx₃, hy₃, ?_⟩, ?_, ?_, hr.limit, ?_⟩
        · intro q hq hm
          rcases List.mem_append.mp hm with hm | hm
          · exact hdisj (List.mem_cons_of_mem _ hq) hm
          · exact hpr (List.mem_singleton.mp hm ▸ hq)
        · dsimp only
          rw [v₃, v₂, v₁, hr.val]
          rfl
        · exact (s₃.trans (s₂.trans s₁)).trans hr.size
        · exact congrArg (· ++ [p]) hr.solvers
      · obtain ⟨h₂, queue', e₂, hx₂, s₂, v₂, same₂⟩ := insertQueue_spec hx₁ hpr ha₁
        simp only [if_neg hst, e₂, Option.bind_some]
        refine .some ⟨⟨hx₂, ?_, ?_⟩, ?_, (s₂.trans s₁).trans hr.size, hr.limit, hr.solvers⟩
        · apply hy₁.frame_disjoint same₂
          intro q hq hm
          rcases List.mem_append.mp hm with hm | hm
          · exact hdisj (List.mem_cons_of_mem _ hm) hq
          · exact hpq (List.mem_singleton.mp hm ▸ hq)
        · intro q hm hq
          rcases List.mem_append.mp hm with hm | hm
          · exact hdisj (List.mem_cons_of_mem _ hm) hq
          · exact hpq (List.mem_singleton.mp hm ▸ hq)
        · dsimp only
          rw [v₂, v₁, hr.val]
          rfl
  · rw [if_neg hroom, if_neg (hlim ▸ hroom)]
    exact .some hr

/-- What the extraction of a solver thread finds, for a live answer. -/
theorem extractSolved (hr : Represents s b) (hv : b.val p = some a) :
    ∃ h₁, s.heap.setVal p { a with status := statusSolved } = some h₁ ∧
      Ring h₁ s.answers b.answers ∧ Ring h₁ s.answerQueue b.answerQueue ∧
      h₁.size = b.size ∧
      h₁.valOf = Function.update b.val p (some { a with status := statusSolved }) ∧
      Aiqb.extractSolved s p = extractQueue h₁ s.answerQueue a.id := by
  obtain ⟨h₁, e₁, s₁, v₁, n₁, p₁⟩ := Heap.setVal_spec (hr.live hv)
    { a with status := statusSolved }
  have ha : s.heap.valOf p = some a := by rw [hr.val, hv]
  refine ⟨h₁, e₁, hr.holds.answers.of_same_links n₁ p₁,
    hr.holds.answerQueue.of_same_links n₁ p₁, s₁.trans hr.size, by rw [v₁, hr.val], ?_⟩
  simp only [Aiqb.extractSolved, ha, Option.bind_eq_bind, Option.bind_some, e₁]

theorem complete (hr : Represents s b) (p : Ptr) :
    Option.Rel Represents (answerStep s (.complete p)) (b.complete p) := by
  simp only [answerStep, AnswerBook.complete, hr.solvers]
  by_cases hp : p ∈ b.solvers
  · rw [if_pos hp, if_pos hp]
    cases hv : b.val p with
    | none =>
      have hn : s.heap.valOf p = none := by rw [hr.val, hv]
      simp only [aiqbdHandlingAnswer, Aiqb.extractSolved, hn, Option.bind_eq_bind,
        Option.bind_none]
      exact .none
    | some a =>
      obtain ⟨h₁, e₁, hx₁, hy₁, s₁, v₁, hext⟩ := hr.extractSolved hv
      have hlook : lookupId h₁.valOf b.answerQueue a.id = lookupId b.val b.answerQueue a.id := by
        apply lookupId_congr
        intro q _
        rw [v₁]
        by_cases hq : q = p
        · subst hq
          rw [Function.update_self, hv]
          rfl
        · rw [Function.update_of_ne hq]
      simp only [aiqbdHandlingAnswer, hext, Option.bind_eq_bind, Option.bind_some]
      cases hq : lookupId b.val b.answerQueue a.id with
      | none =>
        simp only [extractQueue_none hy₁ (hlook.trans hq), Option.bind_some, insertQueue]
        exact .some ⟨⟨hx₁, hy₁, hr.holds.disjoint⟩, v₁, s₁, hr.limit, rfl⟩
      | some q =>
        have hmem := lookupId_mem hq
        obtain ⟨h₂, queue, e₂, hy₂, s₂, v₂, same₂⟩ := extractQueue_some hy₁ (hlook.trans hq)
        have hx₂ := hx₁.frame_disjoint same₂ hr.holds.disjoint
        have hqx : q ∉ b.answers := fun hm => hr.holds.disjoint hm hmem
        obtain ⟨c, hc⟩ := Heap.live_iff_val.mp (hy₁.live hmem)
        have hc₂ : h₂.valOf q = some c := by rw [v₂, hc]
        obtain ⟨h₃, queue', e₃, hx₃, s₃, v₃, same₃⟩ := insertQueue_spec hx₂ hqx hc₂
        have hcv : Function.update b.val p (some { a with status := statusSolved }) q = some c := by
          rw [← v₁, hc]
        simp only [e₂, e₃, Option.bind_some, hcv, Option.map_some]
        refine .some ⟨⟨hx₃, ?_, ?_⟩, ?_, (s₃.trans s₂).trans s₁, hr.limit, rfl⟩
        · apply hy₂.frame_disjoint same₃
          intro r hr' hm
          rcases List.mem_append.mp hm with hm | hm
          · exact hr.holds.disjoint hm (List.mem_of_mem_erase hr')
          · rw [List.mem_singleton.mp hm] at hr'
            exact hy₁.nodup.not_mem_erase hr'
        · intro r hm hr'
          rcases List.mem_append.mp hm with hm | hm
          · exact hr.holds.disjoint hm (List.mem_of_mem_erase hr')
          · rw [List.mem_singleton.mp hm] at hr'
            exact hy₁.nodup.not_mem_erase hr'
        · dsimp only
          rw [v₃, v₂, v₁]
          rfl
  · rw [if_neg hp, if_neg hp]
    exact .none

theorem delete (hr : Represents s b) (id : UInt64) :
    ∃ s', deleteAnswer s id = some (s', lookupId b.val b.answers id) ∧
      Represents s' (b.delete id) := by
  unfold deleteAnswer AnswerBook.delete
  cases hp : lookupId b.val b.answers id with
  | none =>
    have hl : lookupId s.heap.valOf b.answers id = none := by rw [hr.val, hp]
    simp only [extractQueue_none hr.holds.answers hl, Option.bind_eq_bind, Option.bind_some]
    exact ⟨_, rfl, hr⟩
  | some p =>
    have hl : lookupId s.heap.valOf b.answers id = some p := by rw [hr.val, hp]
    have hmem := lookupId_mem hl
    obtain ⟨h₁, queue, e₁, hx₁, s₁, v₁, same₁⟩ := extractQueue_some hr.holds.answers hl
    have hy₁ := hr.holds.answerQueue.frame_disjoint same₁ hr.holds.disjoint.symm
    have hlive : h₁.Live p := by
      rw [Heap.live_iff_val, v₁]
      exact Heap.live_iff_val.mp (hr.holds.answers.live hmem)
    obtain ⟨h₂, e₂, s₂, _, _, v₂⟩ := Heap.free_spec hlive
    simp only [e₁, Option.bind_eq_bind, Option.bind_some, e₂]
    refine ⟨_, rfl, ⟨hx₁.free e₂ hr.holds.answers.nodup.not_mem_erase,
      hy₁.free e₂ (hr.holds.disjoint hmem), ?_⟩, ?_, (s₂.trans s₁).trans hr.size, hr.limit,
      hr.solvers⟩
    · exact fun q hq hm => hr.holds.disjoint (List.mem_of_mem_erase hq) hm
    · rw [v₂, v₁, hr.val]

/-- The pointers and links of the daemon implement the book, step by step. -/
theorem step (hr : Represents s b) (e : AnswerEvent) :
    Option.Rel Represents (answerStep s e) (b.step e) := by
  cases e with
  | register a =>
    obtain ⟨s', he, hr'⟩ := hr.register a
    rw [he]
    exact .some hr'
  | dispatch => exact hr.dispatch
  | complete p => exact hr.complete p
  | delete id =>
    obtain ⟨s', he, hr'⟩ := hr.delete id
    rw [answerStep, he]
    exact .some hr'

end Represents

end Aiqb
