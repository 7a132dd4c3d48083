import Aiqb.ProblemReplies

namespace Aiqb
set_option autoImplicit true

/-- The daemon, with the file that each atom was loaded from or packed into. -/
structure NamedDaemon where
  daemon : Daemon
  file : Ptr → Option (Dir × CString)

namespace NamedDaemon

def loaded (t : Tree) (w : Daemon) : NamedDaemon :=
  ⟨w, fun p => (w.store.side.heap.valOf p).bind fun a => t.place w.store.cwd a.name⟩

def register (t : Tree) (s : NamedDaemon) (e : Library × ProblemT) : Option NamedDaemon :=
  (aiqbdRegisterProblem t e.1 s.daemon e.2).map fun r =>
    { daemon := r.2
      file := Function.update s.file s.daemon.store.side.heap.size
        (t.place r.2.store.cwd (fileName s.daemon.store.side.autoIncrement)) }

/-- The name of each atom leads to the atom's own file. -/
def NamesKept (t : Tree) (s : NamedDaemon) : Prop :=
  ∀ xs, Ring s.daemon.store.side.heap s.daemon.store.side.problems xs → ∀ p ∈ xs, ∃ a place,
    s.daemon.store.side.heap.valOf p = some a ∧
      t.place s.daemon.store.cwd a.name = some place ∧ s.file p = some place

/-- When there are problems, the directory of the database is found again from the directory that
it names. If its path is made of slashes alone, the daemon already works in it. -/
structure KeepsPlace (t : Tree) (s : NamedDaemon) (e : Library × ProblemT) : Prop where
  again : s.daemon.store.side.databaseDir.rdropWhile isSlash ≠ [] →
    s.daemon.store.side.problems ≠ none ∨
      ¬ s.daemon.store.CannotStore t (e.1.registration e.2) →
    ∀ d, t.dir s.daemon.store.cwd s.daemon.store.side.databaseDir = some d →
      t.dir d s.daemon.store.side.databaseDir = some d
  slashes : s.daemon.store.side.databaseDir.rdropWhile isSlash = [] →
    s.daemon.store.side.problems ≠ none →
    ∀ d, t.dir s.daemon.store.cwd s.daemon.store.side.databaseDir = some d →
      s.daemon.store.cwd = d

end NamedDaemon

namespace Tree

variable {t : Tree} {cwd d : Dir} {path name : CString}

def base (t : Tree) (cwd : Dir) (path : CString) : Option Dir :=
  if path.rdropWhile isSlash = [] then t.sub cwd (cstr ".") else t.dir cwd path

theorem base_slashes (hdot : ∀ d, t.sub d (cstr ".") = some d) (hp : path.rdropWhile isSlash = [])
    (cwd : Dir) : t.base cwd path = some cwd := by
  rw [base, if_pos hp, hdot]

theorem base_stripped (hp : path.rdropWhile isSlash ≠ []) (cwd : Dir) :
    t.base cwd path = t.dir cwd path := if_neg hp

theorem place_base (hname : 47 ∉ name) (cwd : Dir) :
    t.place cwd (concatPath path name) = (t.base cwd path).map (·, name) := by
  by_cases hp : path.rdropWhile isSlash = []
  · have hparts : pathParts (46 :: 47 :: name) = [cstr "."] ++ [name] := by
      rw [← pathParts_plain hname]
      exact pathParts_append (cstr ".") name
    have henter : t.walk cwd [cstr "."] = t.sub cwd (cstr ".") := Option.bind_fun_some _
    have hstart : t.start cwd (46 :: 47 :: name) = cwd := rfl
    rw [base, if_pos hp, place, if_neg (concatPath_ne_nil path name), concatPath, if_pos hp,
      hparts, List.dropLast_concat, List.getLastD_concat, hstart, henter]
  · rw [base_stripped hp, place_stripped hp hname]

end Tree

section Calls

variable {t : Tree} {lib : Library} {w w' : Daemon} {problem : ProblemT} {id : UInt64}
  {xs : List Ptr}

theorem registerProblem_cwd {s s' : ProblemStore} (h : registerProblem t s r = some (s', o)) :
    s'.cwd = (t.dir s.cwd s.side.databaseDir).getD s.cwd := by
  simp only [registerProblem] at h
  split at h
  · next hd =>
    cases h
    rw [hd]
    rfl
  · next d hd =>
    rw [hd, Option.getD_some]
    split at h
    · cases h
      rfl
    · split at h
      · cases h
      · cases h
        rfl
      · split at h
        · cases h
          rfl
        · split at h
          · cases h
            rfl
          · cases h
            rfl

theorem aiqbdRegisterProblem_cwd (h : aiqbdRegisterProblem t lib w problem = some (id, w')) :
    w'.store.cwd = (t.dir w.store.cwd w.store.side.databaseDir).getD w.store.cwd := by
  obtain ⟨⟨store, o⟩, hreg, h⟩ := Option.bind_eq_some_iff.mp h
  have hcwd := registerProblem_cwd hreg
  cases o with
  | none =>
    cases h
    exact hcwd
  | some id' =>
    obtain ⟨store', hinsert, h⟩ := Option.bind_eq_some_iff.mp h
    cases h
    obtain ⟨side, _, rfl⟩ := Option.map_eq_some_iff.mp hinsert
    exact hcwd

theorem aiqbdRegisterProblem_atoms
    (hr : Ring w.store.side.heap w.store.side.problems xs)
    (h : aiqbdRegisterProblem t lib w problem = some (id, w')) :
    w'.store.side.databaseDir = w.store.side.databaseDir ∧
      (w.store.CannotStore t (lib.registration problem) ∧
          w'.store.side.heap = w.store.side.heap ∧
          w'.store.side.problems = w.store.side.problems ∨
        ¬ w.store.CannotStore t (lib.registration problem) ∧
          Ring w'.store.side.heap w'.store.side.problems (xs ++ [w.store.side.heap.size]) ∧
          w'.store.side.heap.valOf = Function.update w.store.side.heap.valOf
            w.store.side.heap.size (some (registeredAtom w.store.side.databaseDir
              w.store.side.autoIncrement lib.time))) := by
  by_cases hno : w.store.CannotStore t (lib.registration problem)
  · obtain ⟨w₁, he, hside⟩ := aiqbdRegisterProblem_refused hno
    cases h.symm.trans he
    rw [hside]
    exact ⟨rfl, .inl ⟨hno, rfl, rfl⟩⟩
  · obtain ⟨⟨store, o⟩, hreg, h⟩ := Option.bind_eq_some_iff.mp h
    obtain ⟨rfl, d, bytes, length, hd, _, hstore⟩ := registerProblem_stored hno hreg
    obtain ⟨store', hinsert, h⟩ := Option.bind_eq_some_iff.mp h
    cases h
    obtain ⟨side, hside, rfl⟩ := Option.map_eq_some_iff.mp hinsert
    rw [hstore] at hside
    refine ⟨?_, .inr ⟨hno, registered_insert hr hside⟩⟩
    obtain ⟨_, _, he⟩ := Option.bind_eq_some_iff.mp (Option.ite_none_right_eq_some.mp hside).2
    cases he
    rfl

end Calls

namespace NamedDaemon

variable {t : Tree} {s s' : NamedDaemon} {e : Library × ProblemT} {xs : List Ptr}

/-- The names are built from the path of the database, and the files have the same last part. -/
structure Sited (s : NamedDaemon) (xs : List Ptr) : Prop where
  ring : Ring s.daemon.store.side.heap s.daemon.store.side.problems xs
  atom : ∀ p ∈ xs, ∃ name header d, 47 ∉ name ∧
    s.daemon.store.side.heap.valOf p =
      some ⟨concatPath s.daemon.store.side.databaseDir name, header⟩ ∧
    s.file p = some (d, name)

theorem Sited.namesKept_iff (h : s.Sited xs) :
    s.NamesKept t ↔ ∀ p ∈ xs, (s.file p).map Prod.fst =
      t.base s.daemon.store.cwd s.daemon.store.side.databaseDir := by
  constructor
  · intro hall p hp
    obtain ⟨name, header, d, hname, hval, hfile⟩ := h.atom p hp
    obtain ⟨a, place, ha, hplace, hfile'⟩ := hall xs h.ring p hp
    cases hval.symm.trans ha
    rw [Tree.place_base hname] at hplace
    obtain ⟨d', hd', rfl⟩ := Option.map_eq_some_iff.mp hplace
    rw [hfile', hd']
    rfl
  · intro hall ys hys p hp
    cases h.ring.unique hys
    obtain ⟨name, header, d, hname, hval, hfile⟩ := h.atom p hp
    refine ⟨_, (d, name), hval, ?_, hfile⟩
    have hbase := hall p hp
    rw [hfile, Option.map_some] at hbase
    rw [Tree.place_base hname, ← hbase, Option.map_some]

structure Registers (t : Tree) (s : NamedDaemon) (e : Library × ProblemT) (s' : NamedDaemon)
    (xs : List Ptr) : Prop where
  databaseDir : s'.daemon.store.side.databaseDir = s.daemon.store.side.databaseDir
  cwd : s'.daemon.store.cwd =
    (t.dir s.daemon.store.cwd s.daemon.store.side.databaseDir).getD s.daemon.store.cwd
  refused : s.daemon.store.CannotStore t (e.1.registration e.2) → s'.Sited xs
  stored : ¬ s.daemon.store.CannotStore t (e.1.registration e.2) → ∃ p,
    s'.Sited (xs ++ [p]) ∧ (s'.file p).map Prod.fst = some s'.daemon.store.cwd
  file : ∀ p ∈ xs, s'.file p = s.file p

theorem Sited.registers (h : s.Sited xs) (hs : s.register t e = some s') :
    Registers t s e s' xs := by
  obtain ⟨⟨id, w⟩, he, rfl⟩ := Option.map_eq_some_iff.mp hs
  have hold : ∀ p ∈ xs, p ≠ s.daemon.store.side.heap.size := by
    rintro p hp rfl
    exact Heap.size_not_live _ (h.ring.live hp)
  have hplace : t.place w.store.cwd (fileName s.daemon.store.side.autoIncrement) =
      some (w.store.cwd, fileName s.daemon.store.side.autoIncrement) :=
    Tree.place_plain (fileName_plain _) (List.cons_ne_nil _ _)
  obtain ⟨hdir, hatoms⟩ := aiqbdRegisterProblem_atoms h.ring he
  have hfile : ∀ p ∈ xs, Function.update s.file s.daemon.store.side.heap.size
      (t.place w.store.cwd (fileName s.daemon.store.side.autoIncrement)) p = s.file p :=
    fun p hp => Function.update_of_ne (hold p hp) _ _
  have hnew : Function.update s.file s.daemon.store.side.heap.size
      (t.place w.store.cwd (fileName s.daemon.store.side.autoIncrement))
      s.daemon.store.side.heap.size =
        some (w.store.cwd, fileName s.daemon.store.side.autoIncrement) := by
    rw [Function.update_self, hplace]
  refine ⟨hdir, aiqbdRegisterProblem_cwd he, ?_, ?_, hfile⟩
  · intro hno
    rcases hatoms with ⟨_, hheap, hproblems⟩ | ⟨hyes, _⟩
    · refine ⟨by rw [hheap, hproblems]; exact h.ring, ?_⟩
      intro p hp
      obtain ⟨name, header, d, hname, hval, hd⟩ := h.atom p hp
      refine ⟨name, header, d, hname, ?_, (hfile p hp).trans hd⟩
      rw [hheap, hdir, hval]
    · exact (hyes hno).elim
  · intro hyes
    rcases hatoms with ⟨hno, _⟩ | ⟨_, hring, hvals⟩
    · exact (hyes hno).elim
    · refine ⟨s.daemon.store.side.heap.size, ⟨hring, ?_⟩, ?_⟩
      · intro p hp
        rw [hvals, hdir]
        rcases List.mem_append.mp hp with hp | hp
        · obtain ⟨name, header, d, hname, hval, hd⟩ := h.atom p hp
          refine ⟨name, header, d, hname, ?_, (hfile p hp).trans hd⟩
          rw [Function.update_of_ne (hold p hp), hval]
        · cases List.mem_singleton.mp hp
          refine ⟨_, _, w.store.cwd, fileName_plain _, Function.update_self _ _ _, ?_⟩
          exact hnew
      · exact congrArg (Option.map Prod.fst) hnew

theorem Sited.problems_iff (h : s.Sited xs) : s.daemon.store.side.problems ≠ none ↔ xs ≠ [] := by
  rw [h.ring.head_eq, Ne, List.head?_eq_none_iff]

/-- The paths of the atoms there are go on to lead to their directory, and the path of the atom that
is new leads to the working directory. -/
def LeadsOn (t : Tree) (s s' : NamedDaemon) (e : Library × ProblemT) (xs : List Ptr) : Prop :=
  (xs ≠ [] → t.base s'.daemon.store.cwd s.daemon.store.side.databaseDir =
    t.base s.daemon.store.cwd s.daemon.store.side.databaseDir) ∧
  (¬ s.daemon.store.CannotStore t (e.1.registration e.2) →
    t.base s'.daemon.store.cwd s.daemon.store.side.databaseDir = some s'.daemon.store.cwd)

/-- The names are kept by a registration when the paths lead on. -/
theorem Sited.keeps_iff (h : s.Sited xs) (hk : s.NamesKept t) (hs : s.register t e = some s') :
    s'.NamesKept t ↔ LeadsOn t s s' e xs := by
  unfold LeadsOn
  have hr := h.registers hs
  rw [h.namesKept_iff] at hk
  have hall : (∀ p ∈ xs, (s'.file p).map Prod.fst =
      t.base s'.daemon.store.cwd s.daemon.store.side.databaseDir) ↔
      (xs ≠ [] → t.base s'.daemon.store.cwd s.daemon.store.side.databaseDir =
        t.base s.daemon.store.cwd s.daemon.store.side.databaseDir) := by
    constructor
    · intro hall hne
      obtain ⟨p, hp⟩ := List.exists_mem_of_ne_nil xs hne
      rw [← hall p hp, ← hk p hp, hr.file p hp]
    · intro hall p hp
      rw [hall (List.ne_nil_of_mem hp), ← hk p hp, hr.file p hp]
  by_cases hno : s.daemon.store.CannotStore t (e.1.registration e.2)
  · rw [(hr.refused hno).namesKept_iff, hr.databaseDir, hall]
    exact (and_iff_left fun hyes => (hyes hno).elim).symm
  · obtain ⟨p, hsited, hp⟩ := hr.stored hno
    rw [hsited.namesKept_iff, hr.databaseDir, List.forall_mem_append, hall,
      List.forall_mem_singleton, hp, eq_comm (a := some _), imp_iff_right hno]

theorem Sited.keepsPlace_iff (hdot : ∀ d, t.sub d (cstr ".") = some d) (h : s.Sited xs)
    (hk : s.NamesKept t) (hs : s.register t e = some s') :
    s.KeepsPlace t e ↔ LeadsOn t s s' e xs := by
  unfold LeadsOn
  have hcwd := (h.registers hs).cwd
  have hmoved : ∀ d, t.dir s.daemon.store.cwd s.daemon.store.side.databaseDir = some d →
      s'.daemon.store.cwd = d := by
    intro d hd
    rw [hcwd, hd, Option.getD_some]
  by_cases hp : s.daemon.store.side.databaseDir.rdropWhile isSlash = []
  · rw [Tree.base_slashes hdot hp, Tree.base_slashes hdot hp, ← h.problems_iff,
      and_iff_left fun _ => rfl, Option.some.injEq]
    constructor
    · intro hkeeps hne
      cases hd : t.dir s.daemon.store.cwd s.daemon.store.side.databaseDir with
      | none => rw [hcwd, hd, Option.getD_none]
      | some d => rw [hmoved d hd, hkeeps.slashes hp hne d hd]
    · intro hsame
      exact ⟨fun hno => (hno hp).elim, fun _ hne d hd => (hsame hne).symm.trans (hmoved d hd)⟩
  · rw [Tree.base_stripped hp, Tree.base_stripped hp, ← h.problems_iff]
    constructor
    · intro hkeeps
      constructor
      · intro hne
        obtain ⟨p, hmem⟩ := List.exists_mem_of_ne_nil xs (h.problems_iff.mp hne)
        obtain ⟨_, _, d, _, _, hfile⟩ := h.atom p hmem
        have hd := (h.namesKept_iff.mp hk) p hmem
        rw [hfile, Tree.base_stripped hp] at hd
        rw [hmoved d hd.symm, hkeeps.again hp (.inl hne) d hd.symm, ← hd]
        rfl
      · intro hyes
        obtain ⟨d, hd⟩ := Option.ne_none_iff_exists'.mp fun hnone => hyes (.inl hnone)
        rw [hmoved d hd, hkeeps.again hp (.inr hyes) d hd]
    · rintro ⟨hsame, hnew⟩
      refine ⟨?_, fun hslash => (hp hslash).elim⟩
      intro _ hproblem d hd
      rw [hmoved d hd] at hsame hnew
      rcases hproblem with hne | hyes
      · exact (hsame hne).trans hd
      · exact hnew hyes

end NamedDaemon

section Loading

variable {t : Tree} {files : Files} {cwd : Dir} {path : CString} {entries : List DirEntry}

def NamedIn (path : CString) (h : Heap FsdbT) (xs : List Ptr) : Prop :=
  ∀ p ∈ xs, ∃ name header, 47 ∉ name ∧ h.valOf p = some ⟨concatPath path name, header⟩

theorem loadFailed_none {h h' : Heap FsdbT} (he : loadFailed h db = some (h', db')) :
    db' = none := by
  obtain ⟨_, _, he⟩ := Option.map_eq_some_iff.mp he
  cases he
  rfl

theorem loadEntries_named (hplain : ∀ ent ∈ entries, 47 ∉ ent.name) {h h' : Heap FsdbT}
    (hr : Ring h db xs) (hn : NamedIn path h xs)
    (he : loadEntries t files cwd path entries h db = some (h', db')) :
    ∃ ys, Ring h' db' ys ∧ NamedIn path h' ys := by
  have hfailed {h₁ : Heap FsdbT} {db₁ : Option Ptr} (he : loadFailed h₁ db₁ = some (h', db')) :
      ∃ ys, Ring h' db' ys ∧ NamedIn path h' ys := by
    cases loadFailed_none he
    exact ⟨[], .nil h', fun p hp => (List.not_mem_nil hp).elim⟩
  induction entries generalizing h db xs with
  | nil =>
    cases he
    exact ⟨xs, hr, hn⟩
  | cons ent rest ih =>
    rw [List.forall_mem_cons] at hplain
    rw [loadEntries] at he
    split at he
    · exact ih hplain.2 hr hn he
    · split at he
      · exact hfailed he
      · split at he
        · cases he
        · split at he
          · exact ih hplain.2 hr hn he
          · split at he
            · exact hfailed he
            · split at he
              · exact ih hplain.2 hr hn he
              · next header _ =>
                obtain ⟨h₁, db₁, hi, hr₁, hv⟩ :=
                  insertDb_fresh hr ⟨concatPath path ent.name, header⟩
                rw [hi] at he
                apply ih hplain.2 hr₁ _ he
                intro p hp
                rw [hv]
                rcases List.mem_append.mp hp with hp | hp
                · have hold : p ≠ h.size := by
                    rintro rfl
                    exact h.size_not_live (hr.live hp)
                  rw [Function.update_of_ne hold]
                  exact hn p hp
                · cases List.mem_singleton.mp hp
                  exact ⟨_, header, hplain.1, Function.update_self _ _ _⟩

end Loading

namespace NamedDaemon

variable {t : Tree}

/-- After the start, every name leads to the file that was read. -/
theorem loaded_sited (hdot : ∀ d, t.sub d (cstr ".") = some d) {s s' : ProblemStore}
    (hplain : ∀ ent ∈ entries, 47 ∉ ent.name)
    (hload : restart t s cwd size entries = some s') (answers : AnswerSide) :
    ∃ xs, (loaded t ⟨answers, s'⟩).Sited xs ∧ (loaded t ⟨answers, s'⟩).NamesKept t := by
  obtain ⟨⟨heap, db⟩, hdb, hload⟩ := Option.bind_eq_some_iff.mp hload
  obtain ⟨last, _, hload⟩ := Option.bind_eq_some_iff.mp hload
  cases hload
  obtain ⟨d, hd, hentries⟩ := Option.bind_eq_some_iff.mp hdb
  obtain ⟨xs, hr, hn⟩ := loadEntries_named hplain (.nil _)
    (fun p hp => (List.not_mem_nil hp).elim) hentries
  have hbase : ∃ b, t.base cwd s.side.databaseDir = some b := by
    by_cases hp : s.side.databaseDir.rdropWhile isSlash = []
    · exact ⟨cwd, Tree.base_slashes hdot hp cwd⟩
    · exact ⟨d, (Tree.base_stripped hp cwd).trans hd⟩
  obtain ⟨b, hb⟩ := hbase
  have hatom : ∀ p ∈ xs, ∃ name header, 47 ∉ name ∧
      heap.valOf p = some ⟨concatPath s.side.databaseDir name, header⟩ ∧
      (heap.valOf p).bind (fun a => t.place cwd a.name) = some (b, name) := by
    intro p hp
    obtain ⟨name, header, hname, hval⟩ := hn p hp
    refine ⟨name, header, hname, hval, ?_⟩
    rw [hval, Option.bind_some, Tree.place_base hname, hb, Option.map_some]
  have hsited : (loaded t ⟨answers, s.restarted cwd size heap db last⟩).Sited xs := by
    refine ⟨hr, ?_⟩
    intro p hp
    obtain ⟨name, header, hname, hval, hfile⟩ := hatom p hp
    exact ⟨name, header, b, hname, hval, hfile⟩
  refine ⟨xs, hsited, hsited.namesKept_iff.mpr ?_⟩
  intro p hp
  obtain ⟨_, _, _, _, hfile⟩ := hatom p hp
  exact (congrArg (Option.map Prod.fst) hfile).trans hb.symm

/-- The names of the problems go on to lead to their files, over all runs of registrations, exactly
where no registration moves the directory that they are built from. -/
theorem names_kept_iff (hdot : ∀ d, t.sub d (cstr ".") = some d) {s s' : ProblemStore}
    (hplain : ∀ ent ∈ entries, 47 ∉ ent.name)
    (hload : restart t s cwd size entries = some s') (answers : AnswerSide)
    (hr : Run (register t) (loaded t ⟨answers, s'⟩) es u) :
    AllReached (register t) (NamesKept t) (loaded t ⟨answers, s'⟩) es ↔
      StepsMeet (register t) (KeepsPlace t) (loaded t ⟨answers, s'⟩) es := by
  obtain ⟨xs, hsited, hkept⟩ := loaded_sited hdot hplain hload answers
  apply hr.allReached_iff (I := fun s => ∃ xs, s.Sited xs) ⟨xs, hsited⟩ hkept
  · rintro s e s' ⟨ys, hys⟩ hs
    have hreg := hys.registers hs
    by_cases hno : s.daemon.store.CannotStore t (e.1.registration e.2)
    · exact ⟨ys, hreg.refused hno⟩
    · obtain ⟨p, hp, _⟩ := hreg.stored hno
      exact ⟨_, hp⟩
  · rintro s e s' ⟨ys, hys⟩ hk hs
    rw [hys.keeps_iff hk hs, hys.keepsPlace_iff hdot hk hs]

/-- An absolute path of more than slashes leads to one directory from everywhere. -/
theorem KeepsPlace.of_absolute {s : NamedDaemon}
    (habs : s.daemon.store.side.databaseDir.head? = some 47)
    (hp : s.daemon.store.side.databaseDir.rdropWhile isSlash ≠ []) (e : Library × ProblemT) :
    s.KeepsPlace t e where
  again _ _ d hd := (Tree.dir_absolute habs d).trans hd
  slashes hslash := (hp hslash).elim

def sampleRelative : ProblemStore := .start (fun _ _ => none) 0 1 (cstr "d")

def noEntries : List DirEntry := [⟨cstr ".", true, true, true⟩, ⟨cstr "..", true, true, true⟩]

theorem sampleRelative_restarts :
    restart .sample sampleRelative 0 1 noEntries = some sampleRelative := rfl

theorem sample_dots (d : Dir) : Tree.sample.sub d (cstr ".") = some d := by
  simp only [Tree.sample, if_true]

def sampleMoved : NamedDaemon :=
  (register .sample (loaded .sample ⟨.start 1, sampleRelative⟩) (Library.sample, .oneRow 0)).getD
    (loaded .sample ⟨.start 1, sampleRelative⟩)

theorem sample_moves : register .sample (loaded .sample ⟨.start 1, sampleRelative⟩)
    (Library.sample, .oneRow 0) = some sampleMoved := rfl

theorem sample_stores :
    ¬ sampleRelative.CannotStore .sample (Library.sample.registration (.oneRow 0)) := by
  rintro (h | h | h | h | h | ⟨atoms, hatoms, h⟩)
  · cases h
  · cases h
  · cases h
  · cases h
  · cases h
  · cases hatoms
    rcases h with h | h
    · cases h
    · cases h 1 [] rfl

theorem names_kept_iff_stored :
    AllReached (register .sample) (NamesKept .sample)
        (loaded .sample ⟨.start 1, sampleRelative⟩) [(Library.sample, .oneRow 0)] ↔
      StepsMeet (register .sample) (KeepsPlace .sample)
        (loaded .sample ⟨.start 1, sampleRelative⟩) [(Library.sample, .oneRow 0)] :=
  names_kept_iff sample_dots (by decide) sampleRelative_restarts (.start 1)
    (Run.cons_iff.mpr ⟨_, sample_moves, Run.nil_iff.mpr rfl⟩)

/-- From inside the database, "d/p1.aiq" is no file. -/
theorem names_not_kept :
    restart .sample sampleRelative 0 1 noEntries = some sampleRelative ∧
      Run (register .sample) (loaded .sample ⟨.start 1, sampleRelative⟩)
        [(Library.sample, .oneRow 0)] sampleMoved ∧
      ¬ sampleMoved.NamesKept .sample := by
  refine ⟨rfl, Run.cons_iff.mpr ⟨_, sample_moves, Run.nil_iff.mpr rfl⟩, ?_⟩
  intro hkept
  obtain ⟨xs, hsited, hk⟩ :=
    loaded_sited sample_dots (by decide) sampleRelative_restarts (.start 1)
  have hnew := ((hsited.keeps_iff hk sample_moves).mp hkept).2 sample_stores
  cases hnew

end NamedDaemon

end Aiqb
