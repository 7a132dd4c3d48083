import Aiqb.Memory

namespace Aiqb
set_option autoImplicit true

structure ProblemT where
  type : UInt32
  optm : UInt32
  rows : UInt64
  sizeX : UInt64
  sizeY : UInt64
  cvSize : UInt64
  testSize : UInt64
  stateSize : UInt64
  cvData : Option Block
  testData : Option Block
  data : Option Block
  state : Option Block

/-- The number of elements of `data`, as the code computes it. -/
def ProblemT.points (p : ProblemT) : UInt64 := p.rows * (p.sizeX + p.sizeY)

/-- The number of elements of the training data that the header announces. -/
def ProblemT.elements (p : ProblemT) : Nat := p.rows.toNat * (p.sizeX.toNat + p.sizeY.toNat)

def ProblemT.zero : ProblemT := ⟨0, 0, 0, 0, 0, 0, 0, 0, none, none, none, none⟩

structure ProblemT.SameHeader (p p' : ProblemT) : Prop where
  type : p'.type = p.type
  optm : p'.optm = p.optm
  rows : p'.rows = p.rows
  sizeX : p'.sizeX = p.sizeX
  sizeY : p'.sizeY = p.sizeY
  cvSize : p'.cvSize = p.cvSize
  testSize : p'.testSize = p.testSize
  stateSize : p'.stateSize = p.stateSize

theorem ProblemT.SameHeader.refl (p : ProblemT) : p.SameHeader p :=
  ⟨rfl, rfl, rfl, rfl, rfl, rfl, rfl, rfl⟩

theorem ProblemT.SameHeader.trans {p p' q : ProblemT} (h : p.SameHeader p')
    (h' : p'.SameHeader q) : p.SameHeader q :=
  ⟨h'.type.trans h.type, h'.optm.trans h.optm, h'.rows.trans h.rows, h'.sizeX.trans h.sizeX,
    h'.sizeY.trans h.sizeY, h'.cvSize.trans h.cvSize, h'.testSize.trans h.testSize,
    h'.stateSize.trans h.stateSize⟩

theorem ProblemT.SameHeader.points {p p' : ProblemT} (h : p.SameHeader p') :
    p'.points = p.points := by
  rw [ProblemT.points, h.rows, h.sizeX, h.sizeY]
  rfl

/-- What a problem contains, apart from where its arrays are stored. -/
structure Problem where
  type : UInt32
  optm : UInt32
  rows : UInt64
  sizeX : UInt64
  sizeY : UInt64
  cvData : List UInt64
  testData : List UInt64
  data : List UInt64
  state : List UInt64

structure ProblemT.Fits (p : ProblemT) (c : Problem) : Prop where
  type : p.type = c.type
  optm : p.optm = c.optm
  rows : p.rows = c.rows
  sizeX : p.sizeX = c.sizeX
  sizeY : p.sizeY = c.sizeY
  cvSize : p.cvSize.toNat = c.cvData.length
  testSize : p.testSize.toNat = c.testData.length
  points : p.points.toNat = c.data.length
  stateSize : p.stateSize.toNat = c.state.length

/-- The structure holds the problem, with arrays of the announced lengths. -/
structure ProblemT.Carries (p : ProblemT) (c : Problem) : Prop where
  fits : p.Fits c
  cvData : readArray p.cvData p.cvSize.toNat = some c.cvData
  testData : readArray p.testData p.testSize.toNat = some c.testData
  data : readArray p.data p.points.toNat = some c.data
  state : readArray p.state p.stateSize.toNat = some c.state

end Aiqb
