import Aiqb.PackRoundTrip
import Aiqb.ProblemStore
import Aiqb.ProblemsKept

namespace Aiqb
set_option autoImplicit true

/-- The directory of the database, where problems are the only files. -/
structure Tree.Database (t : Tree) (path : CString) (d : Dir) : Prop where
  dir : ∀ cwd, t.dir cwd path = some d
  stripped : path.rdropWhile isSlash ≠ []
  sub : ∀ name, (t.sub d name).isSome → name.head? = some 46

/-- The problem was registered with these metadata; its time and its status may have changed. -/
structure StoredProblem.Of (r : StoredProblem) (h : FileHeader) : Prop where
  id : r.id = h.id
  parent : r.parent = h.parent
  priority : r.priority = h.priority

def StoredProblem.status (r : StoredProblem) : UInt8 :=
  if r.completed then statusSolved else statusNew

structure StoredProblem.Holds (r : StoredProblem) (bytes : List UInt8) : Prop where
  metadata : ∃ h, problemReadMetadata bytes = some h ∧ r.Of h ∧ h.status = r.status
  body : bytes.drop 48 = r.body

/-- The files of the directory and the atoms in memory are those of the stored problems. -/
structure Filed (t : Tree) (d : Dir) (b : ProblemBook) (files : Files)
    (stored : List StoredProblem) : Prop where
  database : t.Database b.databaseDir d
  nodup : (stored.map StoredProblem.id).Nodup
  below : ∀ r ∈ stored, r.id.toNat < b.autoIncrement.toNat
  file : ∀ r ∈ stored, ∃ bytes, files d (fileName r.id) = some bytes ∧ r.Holds bytes
  only : ∀ name, (files d name).isSome → ∃ r ∈ stored, fileName r.id = name
  atom : ∀ p a, b.val p = some a → a.name = concatPath b.databaseDir (fileName a.header.id) ∧
    ∃ r ∈ stored, r.Of a.header

namespace Tree

variable {t : Tree} {d : Dir} {path : CString}

theorem StartsEmpty.database {files : Files} (h : t.StartsEmpty files path d) :
    t.Database path d where
  dir cwd := (dir_absolute h.absolute cwd).trans h.dir
  stripped := rdropWhile_ne_nil h.dir h.absolute h.notRoot
  sub name hname := by
    rcases h.sub name hname with rfl | rfl <;> rfl

theorem Database.place (h : t.Database path d) (cwd : Dir) (id : UInt64) :
    t.place cwd (concatPath path (fileName id)) = some (d, fileName id) :=
  place_concatPath (h.dir cwd) h.stripped (fileName_plain id)

theorem Database.sub_fileName (h : t.Database path d) (id : UInt64) :
    t.sub d (fileName id) = none := by
  rw [← Option.not_isSome_iff_eq_none]
  intro hs
  cases h.sub _ hs

theorem Database.create (h : t.Database path d) (files : Files) (id : UInt64)
    (bytes : List UInt8) :
    t.create files d (fileName id) bytes = some (files.put d (fileName id) bytes) := by
  have hno : ¬ (fileName id = [] ∨ (t.sub d (fileName id)).isSome) := by
    rw [h.sub_fileName]
    rintro (hn | hn) <;> cases hn
  rw [Tree.create, place_plain (fileName_plain id) (List.cons_ne_nil _ _), Option.bind_some]
  exact if_neg hno

end Tree

theorem packed_length_ne_zero (h : n < 2 ^ 60) : 48 + 8 * UInt64.ofNat n ≠ 0 := by
  intro h0
  have hn := congrArg UInt64.toNat h0
  rw [UInt64.toNat_add, UInt64.toNat_mul, UInt64.toNat_ofNat'] at hn
  simp only [UInt64.reduceToNat] at hn
  omega

section Registering

variable {t : Tree} {d : Dir} {s s' : ProblemStore} {r : Registration} {res : Option UInt64}

def registered (s : ProblemStore) (d : Dir) (time : UInt64) (bytes : List UInt8) :
    ProblemStore where
  side := registerAtom s.side time
  files := s.files.put d (fileName s.side.autoIncrement) bytes
  cwd := d
  stored := s.stored ++ [⟨s.side.autoIncrement, 0, 0, false, bytes.drop 48⟩]

/-- Everything that a registration can do in the directory of the database. -/
theorem registerProblem_cases (hd : t.Database s.side.databaseDir d) (hm : r.InMemory)
    (h : registerProblem t s r = some (s', res)) :
    (res = none ∧ s' = { s with side := skipId s.side, cwd := d }) ∨
      ∃ bytes, res = some s.side.autoIncrement ∧
        problemReadMetadata bytes = some ⟨s.side.autoIncrement, 0, 0, r.pack.now, statusNew⟩ ∧
        s' = registered s d r.time bytes := by
  simp only [registerProblem, hd.dir] at h
  split at h
  · cases h
    exact .inl ⟨rfl, rfl⟩
  · split at h
    · cases h
    · cases h
      exact .inl ⟨rfl, rfl⟩
    · next bytes length hpack =>
      obtain ⟨atoms, hatoms, hlength, hbytes⟩ := problemPack_written hpack
      rw [hd.create] at h
      dsimp only at h
      rw [if_neg (hlength ▸ packed_length_ne_zero (hm atoms hatoms))] at h
      cases h
      refine .inr ⟨bytes, rfl, ?_, rfl⟩
      rw [hbytes, List.append_assoc, readMetadata_metadataBytes]
      rfl

/-- Everything that the first part of a completion can do. -/
theorem handlingProblem_cases (h : handlingProblem t s p now pad = some s') :
    ∃ side a, markSolved s.side p = some side ∧ side.heap.valOf p = some a ∧
      ((t.overwrite s.files s.cwd a.name (problemWriteMetadata now pad a.header) = none ∧
          s' = { s with side := side }) ∨
        ∃ files, t.overwrite s.files s.cwd a.name (problemWriteMetadata now pad a.header) =
            some files ∧
          s' = { s with
            side := side
            files := files
            stored := s.stored.map (StoredProblem.complete a.header.id) }) := by
  unfold handlingProblem at h
  obtain ⟨side, hside, h⟩ := Option.bind_eq_some_iff.mp h
  obtain ⟨a, ha, h⟩ := Option.bind_eq_some_iff.mp h
  refine ⟨side, a, hside, ha, ?_⟩
  cases hfile : t.overwrite s.files s.cwd a.name (problemWriteMetadata now pad a.header) with
  | none =>
    rw [hfile] at h
    cases h
    exact .inl ⟨rfl, rfl⟩
  | some files =>
    rw [hfile] at h
    cases h
    exact .inr ⟨files, rfl, rfl⟩

end Registering

section Books

variable {t : Tree} {d : Dir} {b b' : ProblemBook} {files : Files} {stored : List StoredProblem}

structure ProblemBook.SameAtoms (b b' : ProblemBook) : Prop where
  autoIncrement : b'.autoIncrement = b.autoIncrement
  databaseDir : b'.databaseDir = b.databaseDir
  val : ∀ p a', b'.val p = some a' →
    ∃ a, b.val p = some a ∧ a' = { a with header.status := a'.header.status }

theorem ProblemBook.sameAtoms (hs : b.step e = some b') (he : ∀ time, e ≠ .register time) :
    b.SameAtoms b' := by
  have hval (p : Ptr) (a' : FsdbT) (ha : b.val p = some a') :
      ∃ a, b.val p = some a ∧ a' = { a with header.status := a'.header.status } := ⟨a', ha, rfl⟩
  cases e with
  | register time => exact absurd rfl (he time)
  | insert p =>
    simp only [step, insert, Option.ite_none_right_eq_some, Option.some.injEq] at hs
    exact hs.2 ▸ ⟨rfl, rfl, hval⟩
  | dispatch =>
    simp only [step, dispatch] at hs
    split at hs
    · split at hs <;> cases hs <;> exact ⟨rfl, rfl, hval⟩
    · split at hs <;> cases hs <;> exact ⟨rfl, rfl, hval⟩
    · obtain ⟨a, ha, rfl⟩ := Option.map_eq_some_iff.mp hs
      split
      · exact ⟨rfl, rfl, setStatus_same ha statusInProgress⟩
      · exact ⟨rfl, rfl, hval⟩
    · cases hs
      exact ⟨rfl, rfl, hval⟩
    · cases hs
      exact ⟨rfl, rfl, hval⟩
  | markSolved p =>
    simp only [step, markSolved, Option.ite_none_right_eq_some] at hs
    obtain ⟨a, ha, rfl⟩ := Option.map_eq_some_iff.mp hs.2
    exact ⟨rfl, rfl, setStatus_same ha statusSolved⟩
  | takeSolved p =>
    simp only [step, takeSolved, Option.ite_none_right_eq_some] at hs
    obtain ⟨a, ha, rfl⟩ := Option.map_eq_some_iff.mp hs.2
    exact ⟨rfl, rfl, hval⟩
  | giveBack atom =>
    simp only [step, giveBack, Option.ite_none_right_eq_some, Option.some.injEq] at hs
    exact hs.2 ▸ ⟨rfl, rfl, hval⟩

theorem Filed.same (h : Filed t d b files stored) (hb : b.SameAtoms b') :
    Filed t d b' files stored where
  database := hb.databaseDir ▸ h.database
  nodup := h.nodup
  below := hb.autoIncrement ▸ h.below
  file := h.file
  only := h.only
  atom p a' ha' := by
    obtain ⟨a, ha, he⟩ := hb.val p a' ha'
    obtain ⟨hname, r, hr, hof⟩ := h.atom p a ha
    rw [he, hb.databaseDir]
    exact ⟨hname, r, hr, ⟨hof.id, hof.parent, hof.priority⟩⟩

theorem Filed.below_max (h : Filed t d b files stored) (hr : r ∈ stored) :
    r.id.toNat < 2 ^ 64 - 1 :=
  Nat.lt_of_lt_of_le (h.below r hr) (Nat.le_sub_one_of_lt b.autoIncrement.toNat_lt)

theorem Filed.fresh (h : Filed t d b files stored) : files d (fileName b.autoIncrement) = none := by
  rw [← Option.not_isSome_iff_eq_none]
  intro hs
  obtain ⟨r, hr, hname⟩ := h.only _ hs
  have hlt := h.below r hr
  rw [fileName_inj hname] at hlt
  exact Nat.lt_irrefl _ hlt

def ProblemBook.skipId (b : ProblemBook) : ProblemBook :=
  { b with autoIncrement := b.autoIncrement + 1 }

theorem ProblemSide.Keeps.skipId {s : ProblemSide} {b : ProblemBook} (hk : s.Keeps b) :
    (skipId s).Keeps b.skipId :=
  { hk with autoIncrement := congrArg (· + 1) hk.autoIncrement }

theorem succ_toNat {id : UInt64} (hid : id.toNat < 2 ^ 64 - 1) : (id + 1).toNat = id.toNat + 1 := by
  rw [UInt64.toNat_add, UInt64.toNat_one]
  omega

theorem Filed.skipId (h : Filed t d b files stored) (hid : b.autoIncrement.toNat < 2 ^ 64 - 1) :
    Filed t d b.skipId files stored where
  database := h.database
  nodup := h.nodup
  below r hr := (h.below r hr).trans (by rw [ProblemBook.skipId, succ_toNat hid]; omega)
  file := h.file
  only := h.only
  atom := h.atom

theorem ProblemBook.Sound.skipId (h : b.Sound o) (hid : b.autoIncrement.toNat < 2 ^ 64 - 1) :
    b.skipId.Sound o := by
  obtain ⟨phase, hloc⟩ := h.located
  refine ⟨⟨phase, hloc.same (fun i => by cases i <;> rfl) rfl rfl rfl⟩, ⟨h.numbered.unique, ?_⟩,
    h.returned, h.room⟩
  intro p a ha
  exact (h.numbered.below p a ha).trans (by rw [ProblemBook.skipId, succ_toNat hid]; omega)

theorem Filed.register (h : Filed t d b files stored) (hid : b.autoIncrement.toNat < 2 ^ 64 - 1)
    (time : UInt64)
    (hbytes : problemReadMetadata bytes = some ⟨b.autoIncrement, 0, 0, now, statusNew⟩) :
    Filed t d (b.register time) (files.put d (fileName b.autoIncrement) bytes)
      (stored ++ [⟨b.autoIncrement, 0, 0, false, bytes.drop 48⟩]) where
  database := h.database
  nodup := by
    rw [List.map_append, List.nodup_append_comm]
    refine List.nodup_cons.mpr ⟨?_, h.nodup⟩
    intro hm
    obtain ⟨r, hr, hr'⟩ := List.mem_map.mp hm
    have hlt := h.below r hr
    rw [hr'] at hlt
    exact Nat.lt_irrefl _ hlt
  below r hr := by
    have hauto : (b.register time).autoIncrement.toNat = b.autoIncrement.toNat + 1 := succ_toNat hid
    rw [hauto]
    rcases List.mem_append.mp hr with hr | hr
    · exact Nat.lt_succ_of_lt (h.below r hr)
    · rw [List.mem_singleton.mp hr]
      exact Nat.lt_succ_self _
  file r hr := by
    rcases List.mem_append.mp hr with hr | hr
    · have hne : fileName r.id ≠ fileName b.autoIncrement := by
        intro he
        have hlt := h.below r hr
        rw [fileName_inj he] at hlt
        exact Nat.lt_irrefl _ hlt
      rw [Files.put_other files d bytes hne]
      exact h.file r hr
    · rw [List.mem_singleton.mp hr, Files.put_self]
      exact ⟨bytes, rfl, ⟨_, hbytes, ⟨rfl, rfl, rfl⟩, rfl⟩, rfl⟩
  only name hname := by
    by_cases he : name = fileName b.autoIncrement
    · exact ⟨_, List.mem_append_right _ (List.mem_singleton_self _), he.symm⟩
    · rw [Files.put_other files d bytes he] at hname
      obtain ⟨r, hr, hrn⟩ := h.only name hname
      exact ⟨r, List.mem_append_left _ hr, hrn⟩
  atom p a ha := by
    by_cases he : p = b.size
    · have hnew : (b.register time).val b.size =
          some (registeredAtom b.databaseDir b.autoIncrement time) := Function.update_self _ _ _
      rw [he, hnew, Option.some.injEq] at ha
      subst ha
      exact ⟨rfl, _, List.mem_append_right _ (List.mem_singleton_self _), ⟨rfl, rfl, rfl⟩⟩
    · have hold : (b.register time).val p = b.val p := Function.update_of_ne he _ _
      rw [hold] at ha
      obtain ⟨hname, r, hr, hof⟩ := h.atom p a ha
      exact ⟨hname, r, List.mem_append_left _ hr, hof⟩

end Books

end Aiqb
