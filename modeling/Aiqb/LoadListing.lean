import Aiqb.StoreReload

namespace Aiqb
set_option autoImplicit true

open LittleEndian

def hasMetadata (file : List UInt8) : Bool := decide (48 ≤ file.length) && file.take 4 == magic

/-- The entry of the directory is the file of a problem. -/
def isProblemFile (t : Tree) (files : Files) (d : Dir) (name : CString) : Bool :=
  name.head? != some 46 && (t.sub d name).isNone && (files d name).any hasMetadata

/-- The atom has the path of the entry, and what is stored in its file. -/
structure LoadedFrom (t : Tree) (files : Files) (cwd d : Dir) (dirName name : CString) (a : FsdbT) :
    Prop where
  path : a.name = concatPath dirName name
  place : t.place cwd a.name = some (d, name)
  stored : ∃ file, files d name = some file ∧
    a.header.id.toNat = field file 8 8 ∧
    a.header.parent.toNat = field file 16 8 ∧
    a.header.priority.toNat = field file 24 2 ∧
    a.header.time.toNat = field file 32 8 ∧
    a.header.status.toNat = field file 40 1

theorem field_take (bytes : List UInt8) (h : offset + w ≤ n) :
    field (bytes.take n) offset w = field bytes offset w := by
  rw [field, field, List.drop_take, List.take_take, Nat.min_eq_left (by omega)]

theorem readMetadata_none (h : ¬ hasMetadata file) : problemReadMetadata file = none := by
  unfold problemReadMetadata
  dsimp only
  split
  · rfl
  · next hlen =>
    rw [ne_eq, not_not, List.length_take] at hlen
    rw [hasMetadata, Bool.and_eq_true, decide_eq_true_eq, beq_iff_eq] at h
    rw [if_pos]
    rw [List.take_take]
    exact fun he => h ⟨by omega, he⟩

theorem readMetadata_some (h : hasMetadata file) :
    ∃ header, problemReadMetadata file = some header ∧
      header.id.toNat = field file 8 8 ∧ header.parent.toNat = field file 16 8 ∧
      header.priority.toNat = field file 24 2 ∧ header.time.toNat = field file 32 8 ∧
      header.status.toNat = field file 40 1 := by
  rw [hasMetadata, Bool.and_eq_true, decide_eq_true_eq, beq_iff_eq] at h
  have hlen : (file.take 48).length = 48 := by
    rw [List.length_take, Nat.min_eq_left h.1]
  have hmagic : (file.take 48).take 4 = magic := by
    rw [List.take_take]
    exact h.2
  refine ⟨_, by rw [problemReadMetadata, if_neg (not_not.mpr hlen), if_neg (not_not.mpr hmagic)],
    ?_, ?_, ?_, ?_, ?_⟩
  · exact (Nat.mod_eq_of_lt (field_lt _ 8 8)).trans (field_take file (by decide))
  · exact (Nat.mod_eq_of_lt (field_lt _ 16 8)).trans (field_take file (by decide))
  · exact (Nat.mod_eq_of_lt (field_lt _ 24 2)).trans (field_take file (by decide))
  · exact (Nat.mod_eq_of_lt (field_lt _ 32 8)).trans (field_take file (by decide))
  · exact (Nat.mod_eq_of_lt (field_lt _ 40 1)).trans (field_take file (by decide))

theorem rdropWhile_of_exists {path : CString} (h : ∃ c ∈ path, c ≠ 47) :
    path.rdropWhile isSlash ≠ [] := by
  obtain ⟨c, hc, hne⟩ := h
  intro hnil
  exact hne (of_decide_eq_true (List.rdropWhile_eq_nil_iff.mp hnil c hc))

section Listing

variable {t : Tree} {files : Files} {cwd d : Dir} {dirName : CString} {entries : List DirEntry}

/-- An entry is loaded exactly when it is the file of a problem. -/
theorem loadedAtom_listed (hd : t.dir cwd dirName = some d)
    (hp : dirName.rdropWhile isSlash ≠ []) (hname : 47 ∉ name) (hne : name ≠ []) :
    Option.Rel (fun name a => LoadedFrom t files cwd d dirName name a)
      (if isProblemFile t files d name then some name else none)
      (loadedAtom t files cwd dirName name) := by
  have hplace : t.place cwd (concatPath dirName name) = some (d, name) :=
    Tree.place_concatPath hd hp hname
  have hread : t.read files cwd (concatPath dirName name) = files d name := by
    rw [Tree.read, hplace, Option.bind_some]
  rw [loadedAtom, Tree.dir_concatPath hd hp hname hne, hread]
  by_cases hskip : name.head? = some 46 ∨ (t.sub d name).isSome
  · rw [if_pos hskip, if_neg]
    · exact .none
    · intro h
      simp only [isProblemFile, Bool.and_eq_true, bne_iff_ne, ne_eq] at h
      rcases hskip with hdot | hsub
      · exact h.1.1 hdot
      · rw [Option.isNone_iff_eq_none.mp h.1.2] at hsub
        cases hsub
  · rw [if_neg hskip]
    obtain ⟨hdot, hsub⟩ := not_or.mp hskip
    have hiff : isProblemFile t files d name = (files d name).any hasMetadata := by
      rw [isProblemFile, bne_iff_ne.mpr hdot, Option.not_isSome_iff_eq_none.mp hsub]
      rfl
    rw [hiff]
    cases hf : files d name with
    | none => exact .none
    | some file =>
      rw [Option.any_some, Option.bind_some]
      by_cases hmeta : hasMetadata file
      · obtain ⟨header, he, hstored⟩ := readMetadata_some hmeta
        rw [if_pos hmeta, he, Option.map_some]
        exact .some ⟨rfl, hplace, file, hf, hstored⟩
      · rw [if_neg hmeta, readMetadata_none hmeta]
        exact .none

/-- `_load_db` makes one atom of each entry that is the file of a problem, in their order, and of
nothing else. -/
theorem load_lists_problems (hd : t.dir cwd dirName = some d) (hp : ∃ c ∈ dirName, c ≠ 47)
    (hnames : ∀ ent ∈ entries, 47 ∉ ent.name ∧ ent.name ≠ [])
    (hg : ∀ ent ∈ entries, ent.Granted) :
    ∃ h db xs, loadDb t files cwd dirName entries = some (h, db) ∧ Ring h db xs ∧
      (db = none ↔ xs = []) ∧
      List.Forall₂ (fun name a => LoadedFrom t files cwd d dirName name a)
        ((entries.map DirEntry.name).filter (isProblemFile t files d)) (h.vals xs) := by
  obtain ⟨h, db, xs, hload, hr, _, hvals⟩ := loadDb_spec files hd hg
  refine ⟨h, db, xs, hload, hr, ?_, ?_⟩
  · rw [hr.head_eq, List.head?_eq_none_iff]
  · rw [hvals, ← List.filterMap_eq_filter]
    apply forall₂_filterMap
    intro name hname
    obtain ⟨ent, hent, rfl⟩ := List.mem_map.mp hname
    obtain ⟨hplain, hne⟩ := hnames ent hent
    exact loadedAtom_listed hd (rdropWhile_of_exists hp) hplain hne

end Listing

def Tree.listed : Tree where
  root := 0
  sub d name :=
    if d = 0 ∧ name = cstr "a" then some 1
    else if d = 1 ∧ name = cstr "s" then some 2
    else none

def Files.listed : Files := fun d name =>
  if d = 1 ∧ name = cstr "p" then some (magic ++ List.replicate 50 7)
  else if d = 1 ∧ name = cstr "q" then some magic
  else none

def listedEntries : List DirEntry :=
  [⟨cstr ".", false, false, false⟩, ⟨cstr "q", true, true, true⟩, ⟨cstr "s", true, true, true⟩,
    ⟨cstr "p", true, true, true⟩]

theorem load_lists_problems_listed :
    ∃ h db xs a, loadDb .listed .listed 0 (cstr "a") listedEntries = some (h, db) ∧ Ring h db xs ∧
      h.vals xs = [a] ∧ LoadedFrom .listed .listed 0 1 (cstr "a") (cstr "p") a := by
  have hd : Tree.listed.dir 0 (cstr "a") = some 1 := by decide
  have hnames : ∀ ent ∈ listedEntries, 47 ∉ ent.name ∧ ent.name ≠ [] := by decide
  have hg : ∀ ent ∈ listedEntries, ent.Granted := by
    unfold DirEntry.Granted
    decide
  obtain ⟨h, db, xs, hload, hr, _, hvals⟩ := load_lists_problems hd (by decide) hnames hg
  have hfilter : (listedEntries.map DirEntry.name).filter (isProblemFile .listed .listed 1) =
      [cstr "p"] := by decide
  rw [hfilter] at hvals
  obtain ⟨a, as, hatom, hrest, heq⟩ := List.forall₂_cons_left_iff.mp hvals
  rw [List.forall₂_nil_left_iff.mp hrest] at heq
  exact ⟨h, db, xs, a, hload, hr, heq, hatom⟩

end Aiqb
