import Aiqb.AnswerLists

namespace Aiqb
set_option autoImplicit true

/-- The answer half of the daemon: the two queues of `_config`, and the answer that each running
solver thread was given. -/
structure AnswerSide where
  heap : Heap AnswerT
  answers : Option Ptr
  answerQueue : Option Ptr
  answerQueueSize : UInt32
  solvers : List Ptr

def AnswerSide.start (answerQueueSize : UInt32) : AnswerSide :=
  ⟨Heap.empty, none, none, answerQueueSize, []⟩

def aiqbdRegisterAnswer (s : AnswerSide) (answer : Ptr) : Option (AnswerSide × UInt64) := do
  let a ← s.heap.valOf answer
  let h ← s.heap.setVal answer { a with status := statusNew }
  let (h, answers) ← insertQueue h s.answers (some answer)
  let a ← h.valOf answer
  some ({ s with heap := h, answers := answers }, a.id)

/-- A registered answer is new, and the last one of its queue. -/
theorem aiqbdRegisterAnswer_spec {s : AnswerSide} (hr : Ring s.heap s.answers xs) (hp : p ∉ xs)
    (hv : s.heap.valOf p = some a) :
    ∃ h queue, aiqbdRegisterAnswer s p = some ({ s with heap := h, answers := queue },
        assignedId (idsOf s.heap.valOf xs) a.id) ∧
      Ring h queue (xs ++ [p]) ∧ h.size = s.heap.size ∧
      h.valOf = Function.update s.heap.valOf p
        (some { a with id := assignedId (idsOf s.heap.valOf xs) a.id, status := statusNew }) ∧
      s.heap.SameLinks h (xs ++ [p]) := by
  obtain ⟨h₁, e₁, s₁, v₁, n₁, p₁⟩ :=
    Heap.setVal_spec (Heap.live_of_val hv) { a with status := statusNew }
  have hp₁ : h₁.valOf p = some { a with status := statusNew } := by rw [v₁, Function.update_self]
  obtain ⟨h₂, queue, e₂, hr₂, s₂, v₂, same⟩ := insertQueue_spec (hr.of_same_links n₁ p₁) hp hp₁
  have hids : idsOf h₁.valOf xs = idsOf s.heap.valOf xs := by rw [v₁, idsOf_update hp]
  rw [hids] at v₂
  have hp₂ : h₂.valOf p = some { a with
      id := assignedId (idsOf s.heap.valOf xs) a.id, status := statusNew } := by
    rw [v₂, Function.update_self]
  refine ⟨h₂, queue, ?_, hr₂, s₂.trans s₁, ?_, ?_⟩
  · simp only [aiqbdRegisterAnswer, Option.bind_eq_bind]
    rw [hv, Option.bind_some, e₁, Option.bind_some, e₂, Option.bind_some, hp₂]
    rfl
  · rw [v₂, v₁, Function.update_idem]
  · intro r hr'
    obtain ⟨hn, hpv⟩ := same r hr'
    exact ⟨hn.trans (congrFun n₁ r), hpv.trans (congrFun p₁ r)⟩

/-- One turn of the main loop for the answers; creating the thread succeeds. -/
def dispatchAnswer (s : AnswerSide) : Option AnswerSide := do
  let count ← countQueue s.heap s.answerQueue
  if count < s.answerQueueSize.toUInt64 then
    let (h, answers, answer) ← extractQueue s.heap s.answers 0
    match answer with
    | none => some { s with heap := h, answers := answers }
    | some answer =>
      let a ← h.valOf answer
      if a.status = statusNew then
        let h ← h.setVal answer { a with status := statusInProgress }
        let (h, answerQueue) ← insertQueue h s.answerQueue (some answer)
        some { s with
          heap := h
          answers := answers
          answerQueue := answerQueue
          solvers := s.solvers ++ [answer] }
      else
        let (h, answers) ← insertQueue h answers (some answer)
        some { s with heap := h, answers := answers }
  else some s

/-- What a solver thread does up to its `_extract_queue`, which looks the answer up again. -/
def extractSolved (s : AnswerSide) (answer : Ptr) :
    Option (Heap AnswerT × Option Ptr × Option Ptr) := do
  let a ← s.heap.valOf answer
  let h ← s.heap.setVal answer { a with status := statusSolved }
  extractQueue h s.answerQueue a.id

def aiqbdHandlingAnswer (s : AnswerSide) (answer : Ptr) : Option AnswerSide := do
  let (h, answerQueue, answer) ← extractSolved s answer
  let (h, answers) ← insertQueue h s.answers answer
  some { s with heap := h, answers := answers, answerQueue := answerQueue }

def deleteAnswer (s : AnswerSide) (id : UInt64) : Option (AnswerSide × Option Ptr) := do
  let (h, answers, answer) ← extractQueue s.heap s.answers id
  match answer with
  | none => some ({ s with heap := h, answers := answers }, none)
  | some answer =>
    let h ← h.free answer
    some ({ s with heap := h, answers := answers }, some answer)

inductive AnswerEvent where
  | register (answer : AnswerT)
  | dispatch
  | complete (answer : Ptr)
  | delete (id : UInt64)

/-- One atomic step. There is none where the C code has no defined behaviour, as when a solver
writes to an answer that was freed. -/
def answerStep (s : AnswerSide) : AnswerEvent → Option AnswerSide
  | .register answer =>
    let s' := { s with heap := s.heap.alloc { answer with id := 0 } }
    (aiqbdRegisterAnswer s' s.heap.size).map Prod.fst
  | .dispatch => dispatchAnswer s
  | .complete answer =>
    if answer ∈ s.solvers then do
      let s' ← aiqbdHandlingAnswer s answer
      some { s' with solvers := s.solvers.erase answer }
    else none
  | .delete id => (deleteAnswer s id).map Prod.fst

structure AnswerSide.Holds (s : AnswerSide) (xs ys : List Ptr) : Prop where
  answers : Ring s.heap s.answers xs
  answerQueue : Ring s.heap s.answerQueue ys
  disjoint : List.Disjoint xs ys

end Aiqb
