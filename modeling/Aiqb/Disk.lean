import Aiqb.Paths

namespace Aiqb
set_option autoImplicit true

abbrev Dir := Nat

/-- The directories, which the program never changes. The names that lead from one directory to
another include "." and "..". -/
structure Tree where
  root : Dir
  sub : Dir → CString → Option Dir

abbrev Files := Dir → CString → Option (List UInt8)

def Files.put (files : Files) (d : Dir) (name : CString) (bytes : List UInt8) : Files :=
  Function.update files d (Function.update (files d) name (some bytes))

@[simp] theorem Files.put_self (files : Files) (d : Dir) (name : CString) (bytes : List UInt8) :
    files.put d name bytes d name = some bytes := by
  rw [put, Function.update_self, Function.update_self]

theorem Files.put_other (files : Files) (d : Dir) (bytes : List UInt8) (h : other ≠ name) :
    files.put d name bytes d other = files d other := by
  rw [put, Function.update_self, Function.update_of_ne h]

theorem Files.put_isSome (files : Files) (d : Dir) (name : CString) (bytes : List UInt8)
    (other : CString) :
    (files.put d name bytes d other).isSome ↔ other = name ∨ (files d other).isSome := by
  by_cases h : other = name
  · rw [h, put_self]
    exact iff_of_true rfl (.inl rfl)
  · rw [put_other files d bytes h, or_iff_right h]

def pathParts (path : CString) : List CString := path.splitOn 47

namespace Tree

def start (t : Tree) (cwd : Dir) (path : CString) : Dir :=
  if path.head? = some 47 then t.root else cwd

/-- An empty part of a path stands for the directory it is read in. -/
def enter (t : Tree) (d : Dir) (part : CString) : Option Dir :=
  if part = [] then some d else t.sub d part

def walk (t : Tree) (d : Dir) (parts : List CString) : Option Dir := parts.foldlM t.enter d

def dir (t : Tree) (cwd : Dir) (path : CString) : Option Dir :=
  if path = [] then none else t.walk (t.start cwd path) (pathParts path)

/-- The directory and the name where a path leads. -/
def place (t : Tree) (cwd : Dir) (path : CString) : Option (Dir × CString) :=
  if path = [] then none
  else
    (t.walk (t.start cwd path) (pathParts path).dropLast).map fun d =>
      (d, (pathParts path).getLastD [])

def read (t : Tree) (files : Files) (cwd : Dir) (path : CString) : Option (List UInt8) :=
  (t.place cwd path).bind fun (d, name) => files d name

/-- Write a file from the start, as after `fopen` with "wb". -/
def create (t : Tree) (files : Files) (cwd : Dir) (path : CString) (bytes : List UInt8) :
    Option Files :=
  (t.place cwd path).bind fun (d, name) =>
    if name = [] ∨ (t.sub d name).isSome then none else some (files.put d name bytes)

/-- Change a file that exists, as after `fopen` with "r+b". -/
def overwrite (t : Tree) (files : Files) (cwd : Dir) (path : CString)
    (change : List UInt8 → List UInt8) : Option Files :=
  (t.place cwd path).bind fun (d, name) =>
    (files d name).map fun bytes => files.put d name (change bytes)

theorem walk_append (t : Tree) (d : Dir) (as bs : List CString) :
    t.walk d (as ++ bs) = (t.walk d as).bind fun e => t.walk e bs := List.foldlM_append

theorem pathParts_append (a b : CString) : pathParts (a ++ 47 :: b) = pathParts a ++ pathParts b :=
  List.splitOn_append_cons_self a b

theorem pathParts_plain (h : 47 ∉ name) : pathParts name = [name] := List.splitOn_eq_singleton h

theorem walk_slash (t : Tree) (d : Dir) (path : CString) :
    t.walk d (pathParts (path ++ [47])) = t.walk d (pathParts path) := by
  rw [pathParts_append, walk_append]
  exact Option.bind_fun_some _

theorem walk_rdropWhile (t : Tree) (d : Dir) (path : CString) :
    t.walk d (pathParts (path.rdropWhile isSlash)) = t.walk d (pathParts path) := by
  induction path using List.reverseRecOn with
  | nil => rfl
  | append_singleton path c ih =>
    by_cases hc : isSlash c
    · rw [List.rdropWhile_concat_pos _ _ _ hc, ih, of_decide_eq_true hc, walk_slash]
    · rw [List.rdropWhile_concat_neg _ _ _ hc]

variable {t : Tree} {cwd d : Dir} {path name : CString}

theorem head_rdropWhile (h : path.rdropWhile isSlash ≠ []) :
    (path.rdropWhile isSlash).head? = path.head? := by
  obtain ⟨rest, hrest⟩ := List.rdropWhile_prefix isSlash (l := path)
  cases hp : path.rdropWhile isSlash with
  | nil => exact absurd hp h
  | cons c cs => rw [← hrest, hp]; rfl

theorem rdropWhile_ne_nil (h : t.dir cwd path = some d) (habs : path.head? = some 47)
    (hroot : d ≠ t.root) : path.rdropWhile isSlash ≠ [] := by
  intro hnil
  have hwalk := t.walk_rdropWhile (t.start cwd path) path
  have hne : path ≠ [] := by
    rintro rfl
    cases habs
  rw [dir, if_neg hne, ← hwalk, hnil, start, if_pos habs] at h
  exact hroot (Option.some.inj h).symm

theorem concatPath_ne_nil (path name : CString) : concatPath path name ≠ [] := by
  rw [concatPath]
  split
  · exact List.cons_ne_nil _ _
  · exact List.append_ne_nil_of_right_ne_nil _ (List.cons_ne_nil _ _)

theorem pathParts_concatPath (hp : path.rdropWhile isSlash ≠ []) (hname : 47 ∉ name) :
    pathParts (concatPath path name) = pathParts (path.rdropWhile isSlash) ++ [name] := by
  rw [concatPath, if_neg hp, pathParts_append, pathParts_plain hname]

theorem walk_concatPath (hp : path.rdropWhile isSlash ≠ []) :
    t.walk (t.start cwd (concatPath path name)) (pathParts (path.rdropWhile isSlash)) =
      t.dir cwd path := by
  have hstart : t.start cwd (concatPath path name) = t.start cwd path := by
    rw [start, start, concatPath, if_neg hp, List.head?_append_of_ne_nil _ hp, head_rdropWhile hp]
  have hpath : path ≠ [] := by
    rintro rfl
    exact hp rfl
  rw [dir, if_neg hpath, hstart, walk_rdropWhile]

theorem place_stripped (hp : path.rdropWhile isSlash ≠ []) (hname : 47 ∉ name) :
    t.place cwd (concatPath path name) = (t.dir cwd path).map (·, name) := by
  rw [place, if_neg (concatPath_ne_nil path name), pathParts_concatPath hp hname,
    List.dropLast_concat, walk_concatPath hp, List.getLastD_concat]

theorem place_concatPath (h : t.dir cwd path = some d) (hp : path.rdropWhile isSlash ≠ [])
    (hname : 47 ∉ name) : t.place cwd (concatPath path name) = some (d, name) := by
  rw [place_stripped hp hname, h, Option.map_some]

theorem dir_concatPath (h : t.dir cwd path = some d) (hp : path.rdropWhile isSlash ≠ [])
    (hname : 47 ∉ name) (hne : name ≠ []) : t.dir cwd (concatPath path name) = t.sub d name := by
  have henter : t.walk d [name] = t.enter d name := Option.bind_fun_some _
  rw [dir, if_neg (concatPath_ne_nil path name), pathParts_concatPath hp hname, walk_append,
    walk_concatPath hp, h, Option.bind_some, henter, enter, if_neg hne]

theorem place_plain (hname : 47 ∉ name) (hne : name ≠ []) :
    t.place cwd name = some (cwd, name) := by
  have hhead : name.head? ≠ some 47 := fun h => hname (List.mem_of_mem_head? h)
  rw [place, if_neg hne, pathParts_plain hname, start, if_neg hhead]
  rfl

theorem dir_absolute (habs : path.head? = some 47) (cwd' : Dir) :
    t.dir cwd' path = t.dir cwd path := by
  rw [dir, dir, start, start, if_pos habs, if_pos habs]

end Tree

theorem hex_plain : 47 ∉ hex n := by
  have hdigit (d : Nat) (hd : d < 16) : hexDigit d ≠ 47 := by
    intro h
    have hn := congrArg UInt8.toNat h
    rw [hexDigit_toNat hd] at hn
    simp only [UInt8.reduceToNat] at hn
    split at hn <;> omega
  unfold hex
  split
  · decide
  · intro h
    obtain ⟨d, hd, he⟩ := List.mem_map.mp h
    exact hdigit d (Nat.digits_lt_base (by decide) (List.mem_reverse.mp hd)) he

theorem fileName_plain (id : UInt64) : 47 ∉ fileName id := by
  have hext : (47 : UInt8) ∉ cstr ".aiq" := by decide
  rw [fileName, List.mem_cons, List.mem_append]
  rintro (h | h | h)
  · cases h
  · exact hex_plain h
  · exact hext h

theorem Tree.create_none {t : Tree} {files : Files} (h : t.create files cwd path bytes = none)
    (bytes' : List UInt8) : t.create files cwd path bytes' = none := by
  unfold create at h ⊢
  cases hp : t.place cwd path with
  | none => rfl
  | some p =>
    rw [hp, Option.bind_some] at h
    rw [Option.bind_some]
    dsimp only at h ⊢
    split at h
    · next hno => exact if_pos hno
    · cases h

theorem Tree.create_fileName {t : Tree} {files files' : Files} {i : UInt64}
    (h : t.create files cwd (fileName i) bytes = some files') :
    files' = files.put cwd (fileName i) bytes := by
  rw [create, place_plain (fileName_plain i) (List.cons_ne_nil _ _), Option.bind_some,
    Option.ite_none_left_eq_some] at h
  exact (Option.some.inj h.2).symm

end Aiqb
