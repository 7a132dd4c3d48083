import Aiqb.Disk
import Aiqb.Fsdb

namespace Aiqb
set_option autoImplicit true

/-- An entry as `readdir` returns it, and which of its three allocations are granted. -/
structure DirEntry where
  name : CString
  atomGranted : Bool
  nameGranted : Bool
  headerGranted : Bool

/-- The allocations for the entry are granted; a name that begins with a dot needs none. -/
def DirEntry.Granted (ent : DirEntry) : Prop :=
  ent.name.head? = some 46 ∨ ent.atomGranted ∧ ent.nameGranted ∧ ent.headerGranted

/-- The loop of `_free_db`; the `next` links in `cleared` are NULL. An atom is freed before the
next one writes through its link back. -/
def freeAtoms : Nat → List Ptr → Heap FsdbT → Option Ptr → Option (Heap FsdbT)
  | 0, _, _, _ => none
  | _ + 1, _, h, none => some h
  | fuel + 1, cleared, h, some atom => do
    let prev ← h.prevOf atom
    if (h.cell prev).isSome then
      let next ← h.nextOf atom
      let h ← h.free atom
      freeAtoms fuel (prev :: cleared) h (if atom ∈ prev :: cleared then none else some next)
    else none

def freeDb (h : Heap FsdbT) (db : Option Ptr) : Option (Heap FsdbT) :=
  match db with
  | none => some h
  | some d => do
    let next ← h.nextOf d
    freeAtoms (h.size + 1) [] h (some next)

def loadFailed (h : Heap FsdbT) (db : Option Ptr) : Option (Heap FsdbT × Option Ptr) :=
  (freeDb h db).map fun h => (h, none)

/-- The loop of `_load_db`. A path that could not be allocated is used all the same. -/
def loadEntries (t : Tree) (files : Files) (cwd : Dir) (dirName : CString) :
    List DirEntry → Heap FsdbT → Option Ptr → Option (Heap FsdbT × Option Ptr)
  | [], h, db => some (h, db)
  | ent :: rest, h, db =>
    if ent.name.head? = some 46 then loadEntries t files cwd dirName rest h db
    else if !ent.atomGranted then loadFailed h db
    else if !ent.nameGranted then none
    else if (t.dir cwd (concatPath dirName ent.name)).isSome then
      loadEntries t files cwd dirName rest h db
    else if !ent.headerGranted then loadFailed h db
    else
      match (t.read files cwd (concatPath dirName ent.name)).bind problemReadMetadata with
      | none => loadEntries t files cwd dirName rest h db
      | some header => do
        let (h, db) ← insertDb (h.alloc ⟨concatPath dirName ent.name, header⟩) db (some h.size)
        loadEntries t files cwd dirName rest h db

/-- `_load_db` of a directory with these entries. What it returns for a path that is not a
directory is undefined. -/
def loadDb (t : Tree) (files : Files) (cwd : Dir) (dirName : CString) (entries : List DirEntry) :
    Option (Heap FsdbT × Option Ptr) :=
  (t.dir cwd dirName).bind fun _ => loadEntries t files cwd dirName entries Heap.empty none

structure Lists (t : Tree) (files : Files) (d : Dir) (entries : List DirEntry) : Prop where
  nodup : (entries.map DirEntry.name).Nodup
  mem : ∀ name, name ∈ entries.map DirEntry.name ↔
    (t.sub d name).isSome ∨ (files d name).isSome

section Loading

variable {t : Tree} {files : Files} {cwd : Dir} {dirName : CString} {entries : List DirEntry}

def loadedAtom (t : Tree) (files : Files) (cwd : Dir) (dirName name : CString) : Option FsdbT :=
  if name.head? = some 46 ∨ (t.dir cwd (concatPath dirName name)).isSome then none
  else
    ((t.read files cwd (concatPath dirName name)).bind problemReadMetadata).map fun header =>
      ⟨concatPath dirName name, header⟩

theorem loadEntries_skip {ent : DirEntry} (hg : ent.Granted)
    (hs : loadedAtom t files cwd dirName ent.name = none) (rest : List DirEntry) (h : Heap FsdbT)
    (db : Option Ptr) :
    loadEntries t files cwd dirName (ent :: rest) h db =
      loadEntries t files cwd dirName rest h db := by
  rw [loadEntries]
  by_cases hdot : ent.name.head? = some 46
  · rw [if_pos hdot]
  · obtain ⟨ha, hn, hh⟩ := hg.resolve_left hdot
    simp only [if_neg hdot, ha, hn, hh, Bool.not_true, Bool.false_eq_true, if_false]
    by_cases hdir : (t.dir cwd (concatPath dirName ent.name)).isSome
    · rw [if_pos hdir]
    · rw [loadedAtom, if_neg (not_or.mpr ⟨hdot, hdir⟩), Option.map_eq_none_iff] at hs
      rw [if_neg hdir, hs]

theorem loadEntries_keep {ent : DirEntry} (hg : ent.Granted)
    (hs : loadedAtom t files cwd dirName ent.name = some a) (rest : List DirEntry)
    (h : Heap FsdbT) (db : Option Ptr) :
    loadEntries t files cwd dirName (ent :: rest) h db =
      (insertDb (h.alloc a) db (some h.size)).bind fun (h, db) =>
        loadEntries t files cwd dirName rest h db := by
  rw [loadedAtom, Option.ite_none_left_eq_some] at hs
  obtain ⟨hno, hs⟩ := hs
  obtain ⟨header, hread, rfl⟩ := Option.map_eq_some_iff.mp hs
  obtain ⟨hdot, hdir⟩ := not_or.mp hno
  obtain ⟨ha, hn, hh⟩ := hg.resolve_left hdot
  simp only [loadEntries, ha, hn, hh, Bool.not_true, Bool.false_eq_true, if_false, if_neg hdot,
    if_neg hdir, hread]
  rfl

theorem insertDb_alloc {h : Heap FsdbT} (hr : Ring h db xs) (a : FsdbT) :
    ∃ h' db', insertDb (h.alloc a) db (some h.size) = some (h', db') ∧
      Ring h' db' (xs ++ [h.size]) ∧ h'.vals (xs ++ [h.size]) = h.vals xs ++ [a] ∧
      ∀ p, h'.Live p → p = h.size ∨ h.Live p := by
  obtain ⟨h', db', he, hr', hv'⟩ := insertDb_fresh hr a
  refine ⟨h', db', he, hr', ?_, ?_⟩
  · have hold : xs.filterMap h'.valOf = xs.filterMap h.valOf := by
      apply List.filterMap_congr
      intro p hp
      have hne : p ≠ h.size := by
        rintro rfl
        exact h.size_not_live (hr.live hp)
      rw [hv', Function.update_of_ne hne]
    rw [Heap.vals, List.filterMap_append, hold, List.filterMap_cons, hv', Function.update_self,
      List.filterMap_nil, Heap.vals]
  · intro p hp
    obtain ⟨c, hc⟩ := Heap.live_iff_val.mp hp
    by_cases heq : p = h.size
    · exact .inl heq
    · rw [hv', Function.update_of_ne heq] at hc
      exact .inr (Heap.live_of_val hc)

theorem loadEntries_spec (hg : ∀ ent ∈ entries, ent.Granted) {h : Heap FsdbT} (hr : Ring h db xs)
    (hlive : ∀ p, h.Live p → p ∈ xs) :
    ∃ h' db' ys, loadEntries t files cwd dirName entries h db = some (h', db') ∧ Ring h' db' ys ∧
      (∀ p, h'.Live p → p ∈ ys) ∧
      h'.vals ys =
        h.vals xs ++ (entries.map DirEntry.name).filterMap (loadedAtom t files cwd dirName) := by
  induction entries generalizing h db xs with
  | nil => exact ⟨h, db, xs, rfl, hr, hlive, (List.append_nil _).symm⟩
  | cons ent rest ih =>
    rw [List.forall_mem_cons] at hg
    cases hs : loadedAtom t files cwd dirName ent.name with
    | none =>
      rw [loadEntries_skip hg.1 hs, List.map_cons, List.filterMap_cons_none hs]
      exact ih hg.2 hr hlive
    | some a =>
      obtain ⟨h₁, db₁, he, hr₁, hvals, hnew⟩ := insertDb_alloc hr a
      have hlive₁ : ∀ p, h₁.Live p → p ∈ xs ++ [h.size] := by
        intro p hp
        rcases hnew p hp with rfl | hold
        · exact List.mem_append_right xs (List.mem_singleton_self _)
        · exact List.mem_append_left _ (hlive p hold)
      obtain ⟨h', db', ys, hl, hr', hlive', hv⟩ := ih hg.2 hr₁ hlive₁
      refine ⟨h', db', ys, ?_, hr', hlive', ?_⟩
      · rw [loadEntries_keep hg.1 hs, he]
        exact hl
      · rw [hv, hvals, List.map_cons, List.filterMap_cons_some hs, List.append_assoc]
        rfl

/-- The loaded database has an atom for every entry that is a problem's file, in their order, and
no other atom. -/
theorem loadDb_spec (files : Files) (hd : t.dir cwd dirName = some d)
    (hg : ∀ ent ∈ entries, ent.Granted) :
    ∃ h db xs, loadDb t files cwd dirName entries = some (h, db) ∧ Ring h db xs ∧
      (∀ p, h.Live p → p ∈ xs) ∧
      h.vals xs = (entries.map DirEntry.name).filterMap (loadedAtom t files cwd dirName) := by
  rw [loadDb, hd, Option.bind_some]
  exact loadEntries_spec hg (.nil _) fun p hp => nomatch hp

end Loading

end Aiqb
