import Aiqb.LittleEndian
import Aiqb.Problem

namespace Aiqb
set_option autoImplicit true

open LittleEndian

/-- The metadata of a file; its prefix is always "AIQB". -/
structure FileHeader where
  id : UInt64
  parent : UInt64
  priority : UInt16
  time : UInt64
  status : UInt8
  deriving DecidableEq

/-- The bytes of the two unions that no field covers, as they happen to be in memory. -/
structure MetadataPadding where
  prefixEnd : Vector UInt8 4
  priorityEnd : Vector UInt8 6
  statusEnd : Vector UInt8 7

abbrev HeaderPadding := Vector UInt8 4

def magic : CString := cstr "AIQB"

/-- `union _file_header`, on a little-endian machine -/
def metadataBytes (h : FileHeader) (pad : MetadataPadding) : List UInt8 :=
  magic ++ pad.prefixEnd.toList ++ encode 8 h.id.toNat ++ encode 8 h.parent.toNat ++
    encode 2 h.priority.toNat ++ pad.priorityEnd.toList ++ encode 8 h.time.toNat ++
    encode 1 h.status.toNat ++ pad.statusEnd.toList

def headerBytes (p : ProblemT) (pad : HeaderPadding) : List UInt8 :=
  encode 2 p.type.toUInt16.toNat ++ encode 2 p.optm.toUInt16.toNat ++ pad.toList ++
    encode 8 p.rows.toNat ++ encode 4 p.sizeX.toUInt32.toNat ++ encode 4 p.sizeY.toUInt32.toNat ++
    encode 8 p.cvSize.toNat ++ encode 8 p.testSize.toNat ++ encode 8 p.stateSize.toNat

def atomBytes (v : UInt64) : List UInt8 := encode 8 v.toNat

def atomsBytes (vs : List UInt64) : List UInt8 := vs.flatMap atomBytes

/-- What `_problem_pack` does, if its reads of the arrays are defined: nothing, or a file. -/
inductive PackResult where
  | refused
  | written (bytes : List UInt8) (length : UInt64)
  deriving DecidableEq

structure PackEnv where
  now : UInt64
  metadataPadding : MetadataPadding
  headerPadding : HeaderPadding

def packMetadata (fileHeader : Option FileHeader) (now : UInt64) : FileHeader :=
  match fileHeader with
  | some h => { h with time := now }
  | none => ⟨0, 0, 0, now, 0⟩

/-- The atoms of the four sections, in the order of the loops. -/
def packAtoms (p : ProblemT) : Option (List UInt64) := do
  let cv ← readArray p.cvData p.cvSize.toNat
  let test ← readArray p.testData p.testSize.toNat
  let data ← readArray p.data p.points.toNat
  let state ← readArray p.state p.stateSize.toNat
  some (cv ++ test ++ data ++ state)

def problemPack (env : PackEnv) (p : ProblemT) (fileHeader : Option FileHeader) :
    Option PackResult :=
  if p.rows = 0 ∨ p.sizeX.toUInt32 = 0 ∨ p.data = none then some .refused
  else
    (packAtoms p).map fun atoms =>
      .written
        (metadataBytes (packMetadata fileHeader env.now) env.metadataPadding ++
          headerBytes p env.headerPadding ++ atomsBytes atoms)
        (48 + 8 * UInt64.ofNat atoms.length)

section Reading

/-- The open file, the atom it is read into, and `length`. -/
structure AtomReader where
  rest : List UInt8
  atom : List UInt8
  length : UInt64

/-- Read one atom; after a short read the rest of it is what it was. -/
def AtomReader.fread (r : AtomReader) : Nat × AtomReader :=
  let got := r.rest.take 8
  (got.length,
    { rest := r.rest.drop 8
      atom := got ++ r.atom.drop got.length
      length := r.length + UInt64.ofNat got.length })

def AtomReader.index (r : AtomReader) : UInt64 := UInt64.ofNat (decode r.atom)

/-- The loop over a section; `n` atoms are still to be read, and `c` were read. -/
def readAtoms : Nat → UInt64 → Option Block → AtomReader →
    Option (UInt64 × Option Block × AtomReader)
  | 0, c, a, r => some (c, a, r)
  | n + 1, c, a, r => do
    let (read, r) := r.fread
    let b ← (← a).store c r.index
    if read = 8 then readAtoms n (c + 1) (some b) r else some (c, some b, r)

inductive UnpackResult where
  | failed (freed : List (Option Block)) (p : ProblemT)
  | returned (length : UInt64) (p : ProblemT)

variable {W : Type}

structure UnpackEnv (W : Type) where
  malloc : W → UInt64 → Option Block × W
  atom : Vector UInt8 8
  length : UInt64

def unpackHeader (p : ProblemT) (bin : List UInt8) : ProblemT :=
  { p with
    type := UInt32.ofNat (field bin 0 2)
    optm := UInt32.ofNat (field bin 2 2)
    rows := UInt64.ofNat (field bin 8 8)
    sizeX := UInt64.ofNat (field bin 16 4)
    sizeY := UInt64.ofNat (field bin 20 4)
    cvSize := UInt64.ofNat (field bin 24 8)
    testSize := UInt64.ofNat (field bin 32 8)
    stateSize := UInt64.ofNat (field bin 40 8) }

/-- Allocate an array of `n` elements; without elements it keeps the pointer it had. -/
def unpackArray (env : UnpackEnv W) (w : W) (n : UInt64) (old : Option Block) :
    Option Block × W :=
  if n = 0 then (old, w) else env.malloc w (n * 8)

def unpackAlloc (env : UnpackEnv W) (w : W) (p : ProblemT) :
    Except (List (Option Block) × ProblemT) ProblemT :=
  let (data, w) := env.malloc w (p.points * 8)
  let p := { p with data := data }
  if data.isNone then .error ([], p)
  else
    let (cvData, w) := unpackArray env w p.cvSize p.cvData
    let p := { p with cvData := cvData }
    if p.cvSize ≠ 0 ∧ cvData.isNone then .error ([p.data], p)
    else
      let (testData, w) := unpackArray env w p.testSize p.testData
      let p := { p with testData := testData }
      if p.testSize ≠ 0 ∧ testData.isNone then .error ([p.data, p.cvData], p)
      else
        let (state, _) := unpackArray env w p.stateSize p.state
        let p := { p with state := state }
        if p.stateSize ≠ 0 ∧ state.isNone then .error ([p.data, p.cvData, p.testData], p)
        else .ok p

def unpackFailed (p : ProblemT) : UnpackResult :=
  .failed [p.cvData, p.testData, p.data, p.state] p

/-- The four loops. The second one is checked against `cv_size`. -/
def unpackSections (p : ProblemT) (r : AtomReader) : Option UnpackResult := do
  let (c, cvData, r) ← readAtoms p.cvSize.toNat 0 p.cvData r
  let p := { p with cvData := cvData }
  if c < p.cvSize then some (unpackFailed p)
  else
    let (c, testData, r) ← readAtoms p.testSize.toNat 0 p.testData r
    let p := { p with testData := testData }
    if c < p.cvSize then some (unpackFailed p)
    else
      let (c, data, r) ← readAtoms p.points.toNat 0 p.data r
      let p := { p with data := data }
      if c < p.points then some (unpackFailed p)
      else
        let (c, state, r) ← readAtoms p.stateSize.toNat 0 p.state r
        let p := { p with state := state }
        if c < p.stateSize then some (unpackFailed p)
        else some (.returned (r.length - 1) p)

/-- `_problem_unpack` of a file that could be opened. -/
def problemUnpack (env : UnpackEnv W) (w : W) (p : ProblemT) (file : List UInt8) :
    Option UnpackResult :=
  if (file.take 48).length ≠ 48 then some (.failed [] p)
  else
    let bin := (file.drop 48).take 48
    if bin.length ≠ 48 then some (.failed [] p)
    else
      match unpackAlloc env w (unpackHeader p bin) with
      | .error (freed, p) => some (.failed freed p)
      | .ok p => unpackSections p ⟨file.drop 96, env.atom.toList, env.length + 48⟩

end Reading

def problemReadMetadata (file : List UInt8) : Option FileHeader :=
  let bin := file.take 48
  if bin.length ≠ 48 then none
  else if bin.take 4 ≠ magic then none
  else
    some
      { id := UInt64.ofNat (field bin 8 8)
        parent := UInt64.ofNat (field bin 16 8)
        priority := UInt16.ofNat (field bin 24 2)
        time := UInt64.ofNat (field bin 32 8)
        status := UInt8.ofNat (field bin 40 1) }

/-- What `_problem_write_metadata` makes of a file. -/
def problemWriteMetadata (now : UInt64) (pad : MetadataPadding) (h : FileHeader)
    (file : List UInt8) : List UInt8 :=
  metadataBytes { h with time := now } pad ++ file.drop 48

end Aiqb
