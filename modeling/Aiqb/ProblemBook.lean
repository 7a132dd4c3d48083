import Aiqb.ProblemDaemon
import Aiqb.Runs

namespace Aiqb
set_option autoImplicit true

/-- The problems without their links: what each atom carries, and the order they wait in. -/
structure ProblemBook where
  size : Nat
  val : Ptr → Option FsdbT
  problems : List Ptr
  problemQueue : List Ptr
  limit : UInt32
  autoIncrement : UInt64
  databaseDir : CString
  dispatcher : Dispatcher
  registering : List Ptr
  started : List Ptr
  solved : List Ptr
  returning : List (Option Ptr)

namespace ProblemBook

def setStatus (b : ProblemBook) (p : Ptr) (status : UInt8) (a : FsdbT) : Ptr → Option FsdbT :=
  Function.update b.val p (some { a with header.status := status })

def register (b : ProblemBook) (time : UInt64) : ProblemBook :=
  { b with
    size := b.size + 1
    val := Function.update b.val b.size
      (some (registeredAtom b.databaseDir b.autoIncrement time))
    autoIncrement := b.autoIncrement + 1
    registering := b.registering ++ [b.size] }

def insert (b : ProblemBook) (p : Ptr) : Option ProblemBook :=
  if p ∈ b.registering then
    some { b with problems := b.problems ++ [p], registering := b.registering.erase p }
  else none

def dispatch (b : ProblemBook) : Option ProblemBook :=
  match b.dispatcher with
  | .idle =>
    if UInt64.ofNat b.problemQueue.length < b.limit.toUInt64 then
      some { b with dispatcher := .ready }
    else some b
  | .ready =>
    match b.problems with
    | [] => some { b with dispatcher := .idle }
    | p :: rest => some { b with problems := rest, dispatcher := .holding p }
  | .holding p => (b.val p).map fun a =>
    if a.header.status = statusNew then
      { b with val := b.setStatus p statusInProgress a, dispatcher := .marked p }
    else { b with problems := b.problems ++ [p], dispatcher := .idle }
  | .marked p => some { b with problemQueue := b.problemQueue ++ [p], dispatcher := .queued p }
  | .queued p => some { b with started := b.started ++ [p], dispatcher := .idle }

def markSolved (b : ProblemBook) (p : Ptr) : Option ProblemBook :=
  if p ∈ b.started then
    (b.val p).map fun a =>
      { b with
        val := b.setStatus p statusSolved a
        started := b.started.erase p
        solved := b.solved ++ [p] }
  else none

def takeSolved (b : ProblemBook) (p : Ptr) : Option ProblemBook :=
  if p ∈ b.solved then
    (b.val p).map fun a =>
      let atom := lookupDb b.val b.problemQueue (some (.byId a.header.id))
      { b with
        problemQueue := atom.elim b.problemQueue b.problemQueue.erase
        solved := b.solved.erase p
        returning := b.returning ++ [atom] }
  else none

def giveBack (b : ProblemBook) (atom : Option Ptr) : Option ProblemBook :=
  if atom ∈ b.returning then
    some { b with
      problems := b.problems ++ atom.toList
      returning := b.returning.erase atom }
  else none

def step (b : ProblemBook) : ProblemEvent → Option ProblemBook
  | .register time => some (b.register time)
  | .insert p => b.insert p
  | .dispatch => b.dispatch
  | .markSolved p => b.markSolved p
  | .takeSolved p => b.takeSolved p
  | .giveBack atom => b.giveBack atom

end ProblemBook

structure ProblemSide.Keeps (s : ProblemSide) (b : ProblemBook) : Prop where
  problems : Ring s.heap s.problems b.problems
  problemQueue : Ring s.heap s.problemQueue b.problemQueue
  disjoint : List.Disjoint b.problems b.problemQueue
  val : s.heap.valOf = b.val
  size : s.heap.size = b.size
  limit : s.problemQueueSize = b.limit
  autoIncrement : s.autoIncrement = b.autoIncrement
  databaseDir : s.databaseDir = b.databaseDir
  dispatcher : s.dispatcher = b.dispatcher
  registering : s.registering = b.registering
  started : s.started = b.started
  solved : s.solved = b.solved
  returning : s.returning = b.returning

def ProblemBook.HasRoom (b : ProblemBook) : Prop :=
  UInt64.ofNat b.problemQueue.length < b.limit.toUInt64

/-- The steps of the threads, one by one. -/
inductive ProblemBook.Moves (b : ProblemBook) : ProblemEvent → ProblemBook → Prop
  | register (time : UInt64) : b.Moves (.register time) (b.register time)
  | insert (hp : p ∈ b.registering) : b.Moves (.insert p)
      { b with problems := b.problems ++ [p], registering := b.registering.erase p }
  | full (hd : b.dispatcher = .idle) (hroom : ¬ b.HasRoom) : b.Moves .dispatch b
  | room (hd : b.dispatcher = .idle) (hroom : b.HasRoom) : b.Moves .dispatch
      { b with dispatcher := .ready }
  | nothing (hd : b.dispatcher = .ready) (hnil : b.problems = []) : b.Moves .dispatch
      { b with dispatcher := .idle }
  | take (hd : b.dispatcher = .ready) (hcons : b.problems = p :: rest) : b.Moves .dispatch
      { b with problems := rest, dispatcher := .holding p }
  | mark (hd : b.dispatcher = .holding p) (ha : b.val p = some a)
      (hnew : a.header.status = statusNew) : b.Moves .dispatch
      { b with val := b.setStatus p statusInProgress a, dispatcher := .marked p }
  | putBack (hd : b.dispatcher = .holding p) (ha : b.val p = some a)
      (hold : a.header.status ≠ statusNew) : b.Moves .dispatch
      { b with problems := b.problems ++ [p], dispatcher := .idle }
  | queue (hd : b.dispatcher = .marked p) : b.Moves .dispatch
      { b with problemQueue := b.problemQueue ++ [p], dispatcher := .queued p }
  | start (hd : b.dispatcher = .queued p) : b.Moves .dispatch
      { b with started := b.started ++ [p], dispatcher := .idle }
  | markSolved (hp : p ∈ b.started) (ha : b.val p = some a) : b.Moves (.markSolved p)
      { b with
        val := b.setStatus p statusSolved a
        started := b.started.erase p
        solved := b.solved ++ [p] }
  | takeSolved (hp : p ∈ b.solved) (ha : b.val p = some a)
      (hatom : atom = lookupDb b.val b.problemQueue (some (.byId a.header.id))) :
      b.Moves (.takeSolved p)
      { b with
        problemQueue := atom.elim b.problemQueue b.problemQueue.erase
        solved := b.solved.erase p
        returning := b.returning ++ [atom] }
  | giveBack (hatom : atom ∈ b.returning) : b.Moves (.giveBack atom)
      { b with
        problems := b.problems ++ atom.toList
        returning := b.returning.erase atom }

theorem ProblemBook.moves {b b' : ProblemBook} (hs : b.step e = some b') : b.Moves e b' := by
  cases e with
  | register time =>
    cases hs
    exact .register time
  | insert q =>
    obtain ⟨hq, hs⟩ := Option.ite_none_right_eq_some.mp hs
    cases hs
    exact .insert hq
  | dispatch =>
    simp only [step, dispatch] at hs
    split at hs
    · next hd =>
      split at hs
      · next hroom =>
        cases hs
        exact .room hd hroom
      · next hroom =>
        cases hs
        exact .full hd hroom
    · next hd =>
      split at hs
      · next hnil =>
        cases hs
        exact .nothing hd hnil
      · next hcons =>
        cases hs
        exact .take hd hcons
    · next hd =>
      obtain ⟨a, ha, rfl⟩ := Option.map_eq_some_iff.mp hs
      split
      · next hnew => exact .mark hd ha hnew
      · next hold => exact .putBack hd ha hold
    · next hd =>
      cases hs
      exact .queue hd
    · next hd =>
      cases hs
      exact .start hd
  | markSolved q =>
    simp only [step, ProblemBook.markSolved, Option.ite_none_right_eq_some] at hs
    obtain ⟨a, ha, rfl⟩ := Option.map_eq_some_iff.mp hs.2
    exact .markSolved hs.1 ha
  | takeSolved q =>
    simp only [step, ProblemBook.takeSolved, Option.ite_none_right_eq_some] at hs
    obtain ⟨a, ha, rfl⟩ := Option.map_eq_some_iff.mp hs.2
    exact .takeSolved hs.1 ha rfl
  | giveBack atom =>
    obtain ⟨hatom, hs⟩ := Option.ite_none_right_eq_some.mp hs
    cases hs
    exact .giveBack hatom

end Aiqb
