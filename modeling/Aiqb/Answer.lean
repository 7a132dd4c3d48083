import Aiqb.RingWalks
import Aiqb.Memory

namespace Aiqb
set_option autoImplicit true

structure AnswerT where
  id : UInt64
  sizeX : UInt64
  sizeY : UInt64
  status : UInt8
  data : Option Block
  problem : Option Ptr

def lastIdQueue (h : Heap AnswerT) (queue : Ptr) : Option UInt64 :=
  h.fold (fun lastId answer => if lastId > answer.id then lastId else answer.id)
    queue h.size queue 1

/-- `if (answer->id < 1) answer->id = newId` -/
def numberAnswer (h : Heap AnswerT) (answer : Ptr) (newId : Option UInt64) :
    Option (Heap AnswerT) := do
  let a ← h.valOf answer
  if a.id < 1 then do
    let newId ← newId
    h.setVal answer { a with id := newId }
  else some h

def insertQueue (h : Heap AnswerT) (queue answer : Option Ptr) :
    Option (Heap AnswerT × Option Ptr) :=
  match answer with
  | none => some (h, queue)
  | some answer =>
    match queue with
    | none => do
      let h ← numberAnswer h answer (some 1)
      h.insertTail none answer
    | some q => do
      let h ← numberAnswer h answer ((lastIdQueue h q).map (· + 1))
      h.insertTail (some q) answer

def findQueue (h : Heap AnswerT) (queue : Option Ptr) (id : UInt64) : Option (Option Ptr) :=
  match queue with
  | none => some none
  | some q =>
    if id = 0 then some (some q)
    else h.search (fun answer => id == answer.id) q h.size q

/-- Returns the heap, the queue and the extracted answer. -/
def extractQueue (h : Heap AnswerT) (queue : Option Ptr) (id : UInt64) :
    Option (Heap AnswerT × Option Ptr × Option Ptr) := do
  match ← findQueue h queue id with
  | none => some (h, queue, none)
  | some answer =>
    let (h, queue) ← h.unlink queue answer
    some (h, queue, some answer)

def countQueue (h : Heap AnswerT) (queue : Option Ptr) : Option UInt64 :=
  match queue with
  | none => some 0
  | some q => h.fold (fun count _ => count + 1) q h.size q 0

end Aiqb
