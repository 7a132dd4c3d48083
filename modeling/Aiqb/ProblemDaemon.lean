import Aiqb.Fsdb
import Aiqb.Paths

namespace Aiqb
set_option autoImplicit true

/-- Where the main loop is in its turn for the problems. -/
inductive Dispatcher where
  | idle
  | ready
  | holding (problem : Ptr)
  | marked (problem : Ptr)
  | queued (problem : Ptr)
  deriving DecidableEq

/-- The problem half of the daemon: the database of `_config`, and where its threads are. A client
thread is registering an atom until it inserts it. A solver thread was given an atom; it is started,
then it has marked the atom as solved, and then it returns what it extracted. -/
structure ProblemSide where
  heap : Heap FsdbT
  problems : Option Ptr
  problemQueue : Option Ptr
  problemQueueSize : UInt32
  autoIncrement : UInt64
  databaseDir : CString
  dispatcher : Dispatcher
  registering : List Ptr
  started : List Ptr
  solved : List Ptr
  returning : List (Option Ptr)

def ProblemSide.void (problemQueueSize : UInt32) (databaseDir : CString) : ProblemSide :=
  ⟨Heap.empty, none, none, problemQueueSize, 1, databaseDir, .idle, [], [], [], []⟩

/-- The atom that `_aiqbd_register_problem` fills in; its time is not set. -/
def registeredAtom (databaseDir : CString) (id time : UInt64) : FsdbT :=
  ⟨concatPath databaseDir (fileName id), ⟨id, 0, 0, time, statusNew⟩⟩

/-- `_aiqbd_register_problem` up to the insertion, when the file is written. -/
def registerAtom (s : ProblemSide) (time : UInt64) : ProblemSide :=
  { s with
    autoIncrement := s.autoIncrement + 1
    heap := s.heap.alloc (registeredAtom s.databaseDir s.autoIncrement time)
    registering := s.registering ++ [s.heap.size] }

def insertAtom (s : ProblemSide) (atom : Ptr) : Option ProblemSide :=
  if atom ∈ s.registering then do
    let (h, problems) ← insertDb s.heap s.problems (some atom)
    some { s with heap := h, problems := problems, registering := s.registering.erase atom }
  else none

/-- The next step of the main loop; creating a thread succeeds. -/
def dispatchProblem (s : ProblemSide) : Option ProblemSide :=
  match s.dispatcher with
  | .idle => do
    let count ← countDb s.heap s.problemQueue
    if count < s.problemQueueSize.toUInt64 then some { s with dispatcher := .ready } else some s
  | .ready => do
    let (h, problems, problem) ← extractDb s.heap s.problems none
    let s := { s with heap := h, problems := problems }
    match problem with
    | none => some { s with dispatcher := .idle }
    | some problem => some { s with dispatcher := .holding problem }
  | .holding problem => do
    let a ← s.heap.valOf problem
    if a.header.status = statusNew then
      let h ← s.heap.setVal problem { a with header.status := statusInProgress }
      some { s with heap := h, dispatcher := .marked problem }
    else
      let (h, problems) ← insertDb s.heap s.problems (some problem)
      some { s with heap := h, problems := problems, dispatcher := .idle }
  | .marked problem => do
    let (h, problemQueue) ← insertDb s.heap s.problemQueue (some problem)
    some { s with heap := h, problemQueue := problemQueue, dispatcher := .queued problem }
  | .queued problem => some { s with started := s.started ++ [problem], dispatcher := .idle }

def markSolved (s : ProblemSide) (problem : Ptr) : Option ProblemSide :=
  if problem ∈ s.started then do
    let a ← s.heap.valOf problem
    let h ← s.heap.setVal problem { a with header.status := statusSolved }
    some { s with
      heap := h
      started := s.started.erase problem
      solved := s.solved ++ [problem] }
  else none

/-- The extraction of `_aiqbd_handling_problem`, which looks its atom up by id. -/
def extractCompleted (s : ProblemSide) (problem : Ptr) :
    Option (Heap FsdbT × Option Ptr × Option Ptr) := do
  let a ← s.heap.valOf problem
  extractDb s.heap s.problemQueue (some (.byId a.header.id))

def takeSolved (s : ProblemSide) (problem : Ptr) : Option ProblemSide :=
  if problem ∈ s.solved then do
    let (h, problemQueue, atom) ← extractCompleted s problem
    some { s with
      heap := h
      problemQueue := problemQueue
      solved := s.solved.erase problem
      returning := s.returning ++ [atom] }
  else none

def giveBack (s : ProblemSide) (atom : Option Ptr) : Option ProblemSide :=
  if s.returning.contains atom then do
    let (h, problems) ← insertDb s.heap s.problems atom
    some { s with heap := h, problems := problems, returning := s.returning.erase atom }
  else none

inductive ProblemEvent where
  | register (time : UInt64)
  | insert (atom : Ptr)
  | dispatch
  | markSolved (problem : Ptr)
  | takeSolved (problem : Ptr)
  | giveBack (atom : Option Ptr)

def problemStep (s : ProblemSide) : ProblemEvent → Option ProblemSide
  | .register time => some (registerAtom s time)
  | .insert atom => insertAtom s atom
  | .dispatch => dispatchProblem s
  | .markSolved problem => markSolved s problem
  | .takeSolved problem => takeSolved s problem
  | .giveBack atom => giveBack s atom

def ProblemSide.Enabled (s : ProblemSide) : ProblemEvent → Prop
  | .register _ => True
  | .insert atom => atom ∈ s.registering
  | .dispatch => True
  | .markSolved problem => problem ∈ s.started
  | .takeSolved problem => problem ∈ s.solved
  | .giveBack atom => atom ∈ s.returning

def Dispatcher.held : Dispatcher → List Ptr
  | .holding problem => [problem]
  | .marked problem => [problem]
  | _ => []

/-- The atoms that a thread holds between an extraction or an allocation and an insertion. -/
def ProblemSide.held (s : ProblemSide) : List Ptr :=
  s.dispatcher.held ++ s.registering ++ s.returning.reduceOption

end Aiqb
