import Aiqb.StoreFiled
import Mathlib.Data.List.Forall2

namespace Aiqb
set_option autoImplicit true

structure Recovers (t : Tree) (files : Files) (cwd : Dir) (path : CString) (a : FsdbT)
    (r : StoredProblem) : Prop where
  name : a.name = concatPath path (fileName a.header.id)
  of : r.Of a.header
  status : a.header.status = r.status
  body : ∃ bytes, t.read files cwd a.name = some bytes ∧ bytes.drop 48 = r.body

def storedAs (stored : List StoredProblem) (name : CString) : Option StoredProblem :=
  stored.find? fun r => fileName r.id = name

theorem forall₂_filterMap {R : β → γ → Prop} {f : α → Option β} {g : α → Option γ} {l : List α}
    (h : ∀ x ∈ l, Option.Rel R (f x) (g x)) :
    List.Forall₂ R (l.filterMap f) (l.filterMap g) := by
  induction l with
  | nil => exact .nil
  | cons x l ih =>
    rw [List.forall_mem_cons] at h
    have hx := h.1
    rw [List.filterMap_cons, List.filterMap_cons]
    generalize f x = b at hx
    generalize g x = c at hx
    cases hx with
    | none => exact ih h.2
    | some hbc => exact .cons hbc (ih h.2)

theorem Ring.vals_map_some {h : Heap α} (hr : Ring h head xs) :
    (h.vals xs).map some = xs.map h.valOf := by
  have hlive : ∀ p ∈ xs, h.Live p := fun p hp => hr.live hp
  clear hr
  unfold Heap.vals
  induction xs with
  | nil => rfl
  | cons p xs ih =>
    rw [List.forall_mem_cons] at hlive
    obtain ⟨a, ha⟩ := Heap.live_iff_val.mp hlive.1
    rw [List.filterMap_cons_some ha, List.map_cons, List.map_cons, ih hlive.2, ha]

section Reloading

variable {t : Tree} {d cwd : Dir} {b : ProblemBook} {files : Files} {stored : List StoredProblem}
  {entries : List DirEntry}

theorem storedAs_mem (hr : storedAs stored name = some r) :
    r ∈ stored ∧ fileName r.id = name := by
  have hname : decide (fileName r.id = name) = true :=
    List.find?_some (p := fun r : StoredProblem => decide (fileName r.id = name)) hr
  exact ⟨List.mem_of_find?_eq_some hr, of_decide_eq_true hname⟩

theorem Filed.storedAs_eq (h : Filed t d b files stored) (hr : r ∈ stored) :
    storedAs stored (fileName r.id) = some r := by
  cases hs : storedAs stored (fileName r.id) with
  | none => exact absurd (decide_eq_true rfl) (List.find?_eq_none.mp hs r hr)
  | some r' =>
    obtain ⟨hr', hname⟩ := storedAs_mem hs
    rw [List.inj_on_of_nodup_map h.nodup hr' hr (fileName_inj hname)]

theorem Filed.loadedAtom_stored (h : Filed t d b files stored) (cwd : Dir) (hr : r ∈ stored) :
    ∃ a, loadedAtom t files cwd b.databaseDir (fileName r.id) = some a ∧
      Recovers t files cwd b.databaseDir a r := by
  obtain ⟨bytes, hfile, ⟨header, hread, hof, hstatus⟩, hbody⟩ := h.file r hr
  have hplace : t.read files cwd (concatPath b.databaseDir (fileName r.id)) = some bytes := by
    rw [Tree.read, h.database.place, Option.bind_some]
    exact hfile
  have hno : ¬ ((fileName r.id).head? = some 46 ∨
      (t.dir cwd (concatPath b.databaseDir (fileName r.id))).isSome) := by
    rw [Tree.dir_concatPath (h.database.dir cwd) h.database.stripped (fileName_plain r.id)
      (List.cons_ne_nil _ _), h.database.sub_fileName]
    rintro (hn | hn) <;> cases hn
  refine ⟨⟨concatPath b.databaseDir (fileName r.id), header⟩, ?_, ?_⟩
  · rw [loadedAtom, if_neg hno, hplace, Option.bind_some, hread, Option.map_some]
  · exact ⟨congrArg (fun id => concatPath b.databaseDir (fileName id)) hof.id, hof, hstatus, bytes,
      hplace, hbody⟩

theorem Filed.loadedAtom_rel (h : Filed t d b files stored) (cwd : Dir)
    (hname : (t.sub d name).isSome ∨ (files d name).isSome) :
    Option.Rel (Recovers t files cwd b.databaseDir)
      (loadedAtom t files cwd b.databaseDir name) (storedAs stored name) := by
  rcases hname with hsub | hfile
  · have hdot := h.database.sub name hsub
    have hnone : storedAs stored name = none := by
      cases hs : storedAs stored name with
      | none => rfl
      | some r =>
        rw [← (storedAs_mem hs).2] at hdot
        cases hdot
    rw [hnone, loadedAtom, if_pos (.inl hdot)]
    exact .none
  · obtain ⟨r, hr, rfl⟩ := h.only name hfile
    obtain ⟨a, ha, hrec⟩ := h.loadedAtom_stored cwd hr
    rw [ha, h.storedAs_eq hr]
    exact .some hrec

theorem Filed.entries_perm (h : Filed t d b files stored) (hl : Lists t files d entries) :
    ((entries.map DirEntry.name).filterMap (storedAs stored)).Perm stored := by
  have hinj : ∀ a a' r, r ∈ storedAs stored a → r ∈ storedAs stored a' → a = a' :=
    fun a a' r hr hr' => (storedAs_mem hr).2.symm.trans (storedAs_mem hr').2
  rw [List.perm_ext_iff_of_nodup (hl.nodup.filterMap hinj) (List.Nodup.of_map _ h.nodup)]
  intro r
  rw [List.mem_filterMap]
  constructor
  · rintro ⟨name, _, hr⟩
    exact (storedAs_mem hr).1
  · intro hr
    obtain ⟨bytes, hfile, _⟩ := h.file r hr
    refine ⟨fileName r.id, (hl.mem _).mpr (.inr ?_), h.storedAs_eq hr⟩
    rw [hfile]
    rfl

/-- The ring has one atom for each stored problem, loaded from its file, and no other atom. -/
structure Reloaded (t : Tree) (files : Files) (cwd : Dir) (path : CString)
    (stored : List StoredProblem) (heap : Heap FsdbT) (db : Option Ptr) (xs : List Ptr) : Prop where
  ring : Ring heap db xs
  live : ∀ p, heap.Live p → p ∈ xs
  recovers : ∃ rs, List.Forall₂ (Recovers t files cwd path) (heap.vals xs) rs ∧ rs.Perm stored

/-- `_load_db` recovers the stored problems. -/
theorem Filed.reloaded (h : Filed t d b files stored) (cwd : Dir) (hl : Lists t files d entries)
    (hg : ∀ ent ∈ entries, ent.Granted) :
    ∃ heap db xs, loadDb t files cwd b.databaseDir entries = some (heap, db) ∧
      Reloaded t files cwd b.databaseDir stored heap db xs := by
  obtain ⟨heap, db, xs, hload, hr, hlive, hvals⟩ := loadDb_spec files (h.database.dir cwd) hg
  refine ⟨heap, db, xs, hload, hr, hlive, _, ?_, h.entries_perm hl⟩
  rw [hvals]
  exact forall₂_filterMap fun name hname => h.loadedAtom_rel cwd ((hl.mem name).mp hname)

theorem forall₂_ids {as : List FsdbT} {rs : List StoredProblem}
    (h : List.Forall₂ (Recovers t files cwd path) as rs) :
    as.map (fun a => a.header.id) = rs.map StoredProblem.id := by
  induction h with
  | nil => rfl
  | cons hrec _ ih => rw [List.map_cons, List.map_cons, ih, hrec.of.id]

namespace Reloaded

variable {heap : Heap FsdbT} {db : Option Ptr} {xs : List Ptr} {path : CString}

theorem atom (h : Reloaded t files cwd path stored heap db xs) (ha : heap.valOf p = some a) :
    ∃ r ∈ stored, Recovers t files cwd path a r := by
  obtain ⟨rs, hrec, hperm⟩ := h.recovers
  have hmem : a ∈ heap.vals xs :=
    List.mem_filterMap.mpr ⟨p, h.live p (Heap.live_of_val ha), ha⟩
  obtain ⟨i, hi, rfl⟩ := List.getElem_of_mem hmem
  have hi' : i < rs.length := hrec.length_eq ▸ hi
  exact ⟨rs[i], hperm.mem_iff.mp (List.getElem_mem hi'), hrec.get hi hi'⟩

theorem ids (h : Reloaded t files cwd path stored heap db xs) :
    (dbIds heap.valOf xs).Perm (stored.map StoredProblem.id) := by
  obtain ⟨rs, hrec, hperm⟩ := h.recovers
  have hids : dbIds heap.valOf xs = rs.map StoredProblem.id := by
    rw [dbIds, headersOf, List.map_map]
    exact forall₂_ids hrec
  rw [hids]
  exact hperm.map _

theorem addresses (h : Reloaded t files cwd path stored heap db xs) :
    (xs.map fun p => (heap.valOf p).map fun a => a.header.id) = (dbIds heap.valOf xs).map some :=
  calc
    (xs.map fun p => (heap.valOf p).map fun a => a.header.id)
      = (xs.map heap.valOf).map (Option.map fun a => a.header.id) := by
      rw [List.map_map]
      rfl
    _ = ((heap.vals xs).map some).map (Option.map fun a => a.header.id) := by
      rw [h.ring.vals_map_some]
    _ = (dbIds heap.valOf xs).map some := by
      rw [dbIds, headersOf, List.map_map, List.map_map, List.map_map]
      rfl

theorem unique (h : Reloaded t files cwd path stored heap db xs)
    (hn : (stored.map StoredProblem.id).Nodup) (hp : heap.valOf p = some a)
    (hq : heap.valOf q = some c) (he : a.header.id = c.header.id) : p = q := by
  have hnodup : (xs.map fun p => (heap.valOf p).map fun a => a.header.id).Nodup := by
    rw [h.addresses]
    exact (h.ids.nodup_iff.mpr hn).map (Option.some_injective _)
  apply List.inj_on_of_nodup_map hnodup (h.live p (Heap.live_of_val hp))
    (h.live q (Heap.live_of_val hq))
  rw [hp, hq, Option.map_some, Option.map_some, he]

theorem lastId (h : Reloaded t files cwd path stored heap db xs)
    (hb : ∀ r ∈ stored, r.id.toNat < 2 ^ 64 - 1) (hr : r ∈ stored) :
    r.id.toNat < (lastIdOf (dbIds heap.valOf xs) + 1).toNat := by
  have hle : r.id.toNat ≤ (lastIdOf (dbIds heap.valOf xs)).toNat :=
    le_lastIdOf (h.ids.mem_iff.mpr (List.mem_map_of_mem hr))
  have hlast : (lastIdOf (dbIds heap.valOf xs)).toNat ≤ 2 ^ 64 - 2 := by
    apply lastIdOf_le
    intro i hi
    obtain ⟨r', hr', rfl⟩ := List.mem_map.mp (h.ids.mem_iff.mp hi)
    exact Nat.le_sub_one_of_lt (hb r' hr')
  rw [succ_toNat (by omega)]
  exact Nat.lt_succ_of_le hle

end Reloaded

end Reloading

end Aiqb
