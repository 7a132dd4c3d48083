import Aiqb.AnswerDaemon
import Aiqb.Runs

namespace Aiqb
set_option autoImplicit true

/-- The answers without their links: what each node carries, and the order they wait in. -/
structure AnswerBook where
  size : Nat
  val : Ptr → Option AnswerT
  answers : List Ptr
  answerQueue : List Ptr
  limit : UInt32
  solvers : List Ptr

namespace AnswerBook

def start (limit : UInt32) : AnswerBook := ⟨0, fun _ => none, [], [], limit, []⟩

def number (val : Ptr → Option AnswerT) (xs : List Ptr) (p : Ptr) (a : AnswerT) :
    Ptr → Option AnswerT :=
  Function.update val p (some { a with id := assignedId (idsOf val xs) a.id })

/-- A fresh answer joins the others, with an id of its own if it came without one. -/
def join (b : AnswerBook) (a : AnswerT) : AnswerBook :=
  { b with
    size := b.size + 1
    val := Function.update b.val b.size
      (some { a with id := assignedId (idsOf b.val b.answers) a.id, status := statusNew })
    answers := b.answers ++ [b.size] }

def register (b : AnswerBook) (a : AnswerT) : AnswerBook :=
  { b with
    size := b.size + 1
    val := Function.update b.val b.size
      (some { a with id := nextId (idsOf b.val b.answers), status := statusNew })
    answers := b.answers ++ [b.size] }

def dispatch (b : AnswerBook) : Option AnswerBook :=
  if UInt64.ofNat b.answerQueue.length < b.limit.toUInt64 then
    match b.answers with
    | [] => some b
    | p :: rest => (b.val p).map fun a =>
      if a.status = statusNew then
        let a := { a with status := statusInProgress }
        { b with
          val := number (Function.update b.val p (some a)) b.answerQueue p a
          answers := rest
          answerQueue := b.answerQueue ++ [p]
          solvers := b.solvers ++ [p] }
      else { b with val := number b.val rest p a, answers := rest ++ [p] }
  else some b

def complete (b : AnswerBook) (p : Ptr) : Option AnswerBook :=
  if p ∈ b.solvers then
    (b.val p).bind fun a =>
      let solved := Function.update b.val p (some { a with status := statusSolved })
      match lookupId b.val b.answerQueue a.id with
      | none => some { b with val := solved, solvers := b.solvers.erase p }
      | some q => (solved q).map fun c =>
        { b with
          val := number solved b.answers q c
          answers := b.answers ++ [q]
          answerQueue := b.answerQueue.erase q
          solvers := b.solvers.erase p }
  else none

def delete (b : AnswerBook) (id : UInt64) : AnswerBook :=
  match lookupId b.val b.answers id with
  | none => b
  | some p => { b with val := Function.update b.val p none, answers := b.answers.erase p }

def step (b : AnswerBook) : AnswerEvent → Option AnswerBook
  | .register a => some (b.register a)
  | .dispatch => b.dispatch
  | .complete p => b.complete p
  | .delete id => some (b.delete id)

end AnswerBook

/-- The daemon's memory stands for a book. -/
structure Represents (s : AnswerSide) (b : AnswerBook) : Prop where
  holds : s.Holds b.answers b.answerQueue
  val : s.heap.valOf = b.val
  size : s.heap.size = b.size
  limit : s.answerQueueSize = b.limit
  solvers : s.solvers = b.solvers

theorem represents_start (limit : UInt32) :
    Represents (.start limit) (.start limit) :=
  ⟨⟨.nil _, .nil _, fun _ h => nomatch h⟩, rfl, rfl, rfl, rfl⟩

end Aiqb
