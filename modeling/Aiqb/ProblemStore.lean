import Aiqb.LoadDb
import Aiqb.ProblemDaemon

namespace Aiqb
set_option autoImplicit true

/-- The problem that `_aiqbd_register_problem` is called with, and what its allocations and
`_problem_pack` find in memory. -/
structure Registration where
  problem : ProblemT
  time : UInt64
  granted : Bool
  pack : PackEnv

/-- The arrays of the problem take less than half of the address space. -/
def Registration.InMemory (r : Registration) : Prop :=
  ∀ atoms, packAtoms r.problem = some atoms → atoms.length < 2 ^ 60

/-- The history of a problem: what it was registered with, what was written behind its metadata,
and whether the metadata was written again at its completion. -/
structure StoredProblem where
  id : UInt64
  parent : UInt64
  priority : UInt16
  completed : Bool
  body : List UInt8
  deriving DecidableEq

/-- The problems of the daemon with their files. The list `stored` has every problem that was
registered with success, over all restarts. -/
structure ProblemStore where
  side : ProblemSide
  files : Files
  cwd : Dir
  stored : List StoredProblem

def skipId (s : ProblemSide) : ProblemSide := { s with autoIncrement := s.autoIncrement + 1 }

/-- `_aiqbd_register_problem` up to the insertion, and the id it returns; `none` stands for -1. -/
def registerProblem (t : Tree) (s : ProblemStore) (r : Registration) :
    Option (ProblemStore × Option UInt64) :=
  let id := s.side.autoIncrement
  match t.dir s.cwd s.side.databaseDir with
  | none => some ({ s with side := skipId s.side }, none)
  | some d =>
    let refused := { s with side := skipId s.side, cwd := d }
    if !r.granted then some (refused, none)
    else
      let atom := registeredAtom s.side.databaseDir id r.time
      match problemPack r.pack r.problem (some atom.header) with
      | none => none
      | some .refused => some (refused, none)
      | some (.written bytes length) =>
        match t.create s.files d (fileName id) bytes with
        | none => some (refused, none)
        | some files =>
          if length = 0 then some ({ refused with files := files }, none)
          else
            some
              ({ side := registerAtom s.side r.time
                 files := files
                 cwd := d
                 stored := s.stored ++
                   [⟨id, atom.header.parent, atom.header.priority, false, bytes.drop 48⟩] },
                some id)

def StoredProblem.complete (id : UInt64) (r : StoredProblem) : StoredProblem :=
  if r.id = id then { r with completed := true } else r

/-- `_aiqbd_handling_problem` up to the extraction. -/
def handlingProblem (t : Tree) (s : ProblemStore) (problem : Ptr) (now : UInt64)
    (pad : MetadataPadding) : Option ProblemStore := do
  let side ← markSolved s.side problem
  let a ← side.heap.valOf problem
  match t.overwrite s.files s.cwd a.name (problemWriteMetadata now pad a.header) with
  | none => some { s with side := side }
  | some files =>
    some { s with
      side := side
      files := files
      stored := s.stored.map (StoredProblem.complete a.header.id) }

def ProblemStore.restarted (s : ProblemStore) (cwd : Dir) (problemQueueSize : UInt32)
    (heap : Heap FsdbT) (problems : Option Ptr) (last : UInt64) : ProblemStore :=
  { s with
    cwd := cwd
    side :=
      { heap := heap
        problems := problems
        problemQueue := none
        problemQueueSize := problemQueueSize
        autoIncrement := last + 1
        databaseDir := s.side.databaseDir
        dispatcher := .idle
        registering := []
        started := []
        solved := []
        returning := [] } }

def restart (t : Tree) (s : ProblemStore) (cwd : Dir) (problemQueueSize : UInt32)
    (entries : List DirEntry) : Option ProblemStore := do
  let (h, problems) ← loadDb t s.files cwd s.side.databaseDir entries
  let last ← lastIdDb h problems
  some (s.restarted cwd problemQueueSize h problems last)

/-- The atomic steps. A registration ends with `insert`, a turn of the main loop takes several
steps `dispatch`, and a completion goes on with `takeSolved` and `giveBack`. -/
inductive StoreEvent where
  | register (r : Registration)
  | insert (atom : Ptr)
  | dispatch
  | complete (problem : Ptr) (now : UInt64) (pad : MetadataPadding)
  | takeSolved (problem : Ptr)
  | giveBack (atom : Option Ptr)
  | restart (cwd : Dir) (problemQueueSize : UInt32) (entries : List DirEntry)

def ProblemStore.onSide (s : ProblemStore) (e : ProblemEvent) : Option ProblemStore :=
  (problemStep s.side e).map fun side => { s with side := side }

def storeStep (t : Tree) (s : ProblemStore) : StoreEvent → Option ProblemStore
  | .register r => (registerProblem t s r).map Prod.fst
  | .insert atom => s.onSide (.insert atom)
  | .dispatch => s.onSide .dispatch
  | .complete problem now pad => handlingProblem t s problem now pad
  | .takeSolved problem => s.onSide (.takeSolved problem)
  | .giveBack atom => s.onSide (.giveBack atom)
  | .restart cwd size entries => restart t s cwd size entries

/-- The directory of an absolute path, other than the root, has no file in it and no directory but
itself and its parent. -/
structure Tree.StartsEmpty (t : Tree) (files : Files) (path : CString) (d : Dir) : Prop where
  absolute : path.head? = some 47
  dir : t.dir t.root path = some d
  notRoot : d ≠ t.root
  sub : ∀ name, (t.sub d name).isSome → name = cstr "." ∨ name = cstr ".."
  files : ∀ name, files d name = none

def ProblemStore.start (files : Files) (cwd : Dir) (problemQueueSize : UInt32) (path : CString) :
    ProblemStore :=
  ⟨.void problemQueueSize path, files, cwd, []⟩

end Aiqb
