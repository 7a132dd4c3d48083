import Aiqb.Pack
import Aiqb.RingWalks

namespace Aiqb
set_option autoImplicit true

/-- An atom of the database: the path of a file, and its metadata in memory. -/
structure FsdbT where
  name : CString
  header : FileHeader
  deriving DecidableEq

inductive Query where
  | byId (id : UInt64)
  | byParent (parent : UInt64)
  | byPriority (priority : UInt16)
  | byStatus (status : UInt8)

def Query.matches : Query → FsdbT → Bool
  | .byId id, atom => id == atom.header.id
  | .byParent parent, atom => parent == atom.header.parent
  | .byPriority priority, atom => priority == atom.header.priority
  | .byStatus status, atom => status == atom.header.status

def insertDb (h : Heap FsdbT) (db atom : Option Ptr) : Option (Heap FsdbT × Option Ptr) :=
  match atom with
  | none => some (h, db)
  | some atom => h.insertTail db atom

def findDb (h : Heap FsdbT) (db : Option Ptr) (query : Option Query) : Option (Option Ptr) :=
  match db, query with
  | none, _ => some none
  | some d, none => some (some d)
  | some d, some query => h.search query.matches d h.size d

/-- Returns the heap, the database and the extracted atom. -/
def extractDb (h : Heap FsdbT) (db : Option Ptr) (query : Option Query) :
    Option (Heap FsdbT × Option Ptr × Option Ptr) := do
  match ← findDb h db query with
  | none => some (h, db, none)
  | some atom =>
    let (h, db) ← h.unlink db atom
    some (h, db, some atom)

def countDb (h : Heap FsdbT) (db : Option Ptr) : Option UInt64 :=
  match db with
  | none => some 0
  | some d => h.fold (fun count _ => count + 1) d h.size d 0

def lastIdDb (h : Heap FsdbT) (db : Option Ptr) : Option UInt64 :=
  match db with
  | none => some 0
  | some d =>
    h.fold (fun lastId atom => if lastId > atom.header.id then lastId else atom.header.id)
      d h.size d 0

/-- The atom that a query finds in a list; without a query it is the first one. -/
def lookupDb (val : Ptr → Option FsdbT) (xs : List Ptr) (query : Option Query) : Option Ptr :=
  match query with
  | none => xs.head?
  | some query => xs.find? fun p => (val p).any query.matches

def lastIdOf (ids : List UInt64) : UInt64 :=
  ids.foldl (fun lastId id => if lastId > id then lastId else id) 0

def headersOf (val : Ptr → Option FsdbT) (xs : List Ptr) : List FileHeader :=
  (xs.filterMap val).map FsdbT.header

def dbIds (val : Ptr → Option FsdbT) (xs : List Ptr) : List UInt64 :=
  (headersOf val xs).map FileHeader.id

theorem lookupDb_mem (hl : lookupDb val xs query = some p) : p ∈ xs := by
  cases query with
  | none => exact List.mem_of_mem_head? hl
  | some query => exact List.mem_of_find?_eq_some hl

@[simp] theorem lookupDb_nil (val : Ptr → Option FsdbT) (query : Option Query) :
    lookupDb val [] query = none := by
  cases query <;> rfl

theorem mem_dbIds (hp : p ∈ xs) (ha : val p = some a) : a.header.id ∈ dbIds val xs := by
  rw [dbIds, headersOf, List.map_map]
  exact List.mem_map.mpr ⟨a, List.mem_filterMap.mpr ⟨p, hp, ha⟩, rfl⟩

theorem le_lastIdOf (hi : i ∈ ids) : i.toNat ≤ (lastIdOf ids).toNat := (foldl_lastId ids 0).2 i hi

theorem lastIdOf_le {ids : List UInt64} (hi : ∀ i ∈ ids, i.toNat ≤ n) : (lastIdOf ids).toNat ≤ n :=
  foldl_lastId_le hi (Nat.zero_le n)

section Databases

variable {h : Heap FsdbT} {db : Option Ptr} {xs : List Ptr} {query : Option Query}

theorem findDb_spec (hr : Ring h db xs) :
    findDb h db query = some (lookupDb h.valOf xs query) := by
  cases db with
  | none =>
    rw [hr.head_none, lookupDb_nil]
    rfl
  | some d =>
    cases query with
    | none =>
      rw [findDb, lookupDb, ← hr.head_eq]
    | some query => exact hr.search query.matches

theorem countDb_spec (hr : Ring h db xs) : countDb h db = some (UInt64.ofNat xs.length) := by
  cases db with
  | none =>
    rw [hr.head_none]
    rfl
  | some d => rw [countDb, hr.count]

theorem lastIdDb_spec (hr : Ring h db xs) : lastIdDb h db = some (lastIdOf (dbIds h.valOf xs)) := by
  cases db with
  | none =>
    rw [hr.head_none]
    rfl
  | some d =>
    rw [lastIdDb, hr.fold, lastIdOf, dbIds, headersOf, List.map_map, List.foldl_map]
    rfl

theorem insertDb_spec (hr : Ring h db xs) (hp : p ∉ xs) (hv : h.valOf p = some a) :
    ∃ h' db', insertDb h db (some p) = some (h', db') ∧ Ring h' db' (xs ++ [p]) ∧
      h'.size = h.size ∧ h'.valOf = h.valOf ∧ h.SameLinks h' (xs ++ [p]) :=
  hr.insertTail (Heap.live_of_val hv) hp

theorem insertDb_fresh {h : Heap FsdbT} (hr : Ring h db xs) (a : FsdbT) :
    ∃ h' db', insertDb (h.alloc a) db (some h.size) = some (h', db') ∧
      Ring h' db' (xs ++ [h.size]) ∧ h'.valOf = Function.update h.valOf h.size (some a) := by
  have hfresh : h.size ∉ xs := fun hp => h.size_not_live (hr.live hp)
  have hval : (h.alloc a).valOf h.size = some a := by
    rw [Heap.alloc_valOf, Function.update_self]
  obtain ⟨h', db', he, hr', _, hv, _⟩ := insertDb_spec (hr.alloc a) hfresh hval
  exact ⟨h', db', he, hr', hv.trans (h.alloc_valOf a)⟩

theorem extractDb_none (hr : Ring h db xs) (hl : lookupDb h.valOf xs query = none) :
    extractDb h db query = some (h, db, none) := by
  simp only [extractDb, findDb_spec hr, hl, Option.bind_eq_bind, Option.bind_some]

theorem extractDb_some (hr : Ring h db xs) (hl : lookupDb h.valOf xs query = some p) :
    ∃ h' db', extractDb h db query = some (h', db', some p) ∧ Ring h' db' (xs.erase p) ∧
      h'.size = h.size ∧ h'.valOf = h.valOf ∧ h.SameLinks h' xs := by
  obtain ⟨h', db', he, hr', hs, hv, hsame⟩ := hr.unlink (lookupDb_mem hl)
  refine ⟨h', db', ?_, hr', hs, hv, hsame⟩
  simp only [extractDb, findDb_spec hr, hl, Option.bind_eq_bind, Option.bind_some, he]

end Databases

end Aiqb
