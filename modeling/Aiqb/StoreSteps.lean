import Aiqb.StoreReload

namespace Aiqb
set_option autoImplicit true

def ProblemStore.Good (t : Tree) (path : CString) (d : Dir) (s : ProblemStore) : Prop :=
  ∃ o b, s.side.Keeps b ∧ b.Sound o ∧ b.databaseDir = path ∧ Filed t d b s.files s.stored

/-- The ids stay below the largest one, problems fit in memory, and a restart reads the entries of
the directory. -/
structure Proper (t : Tree) (d : Dir) (s : ProblemStore) (e : StoreEvent) : Prop where
  ids : ∀ r, e = .register r → s.side.autoIncrement.toNat < 2 ^ 64 - 1
  memory : ∀ r, e = .register r → r.InMemory
  entries : ∀ cwd size entries, e = .restart cwd size entries → Lists t s.files d entries

def LoadGranted (_ : ProblemStore) (e : StoreEvent) : Prop :=
  ∀ cwd size entries, e = .restart cwd size entries → ∀ ent ∈ entries, ent.Granted

section Completing

variable {t : Tree} {d : Dir} {b : ProblemBook} {files : Files} {stored : List StoredProblem}

@[simp] theorem StoredProblem.complete_id (id : UInt64) (r : StoredProblem) :
    (r.complete id).id = r.id := by
  unfold complete
  split <;> rfl

theorem map_complete_ids (id : UInt64) (stored : List StoredProblem) :
    (stored.map (StoredProblem.complete id)).map StoredProblem.id =
      stored.map StoredProblem.id := by
  rw [List.map_map]
  exact List.map_congr_left fun r _ => r.complete_id id

theorem StoredProblem.Of.complete {r : StoredProblem} (h : r.Of header) (id : UInt64) :
    (r.complete id).Of header := by
  unfold StoredProblem.complete
  split
  · exact ⟨h.id, h.parent, h.priority⟩
  · exact h

theorem StoredProblem.Holds.complete {r : StoredProblem} (h : r.Holds bytes) (hof : r.Of header)
    (hs : header.status = statusSolved) (now : UInt64) (pad : MetadataPadding) :
    (r.complete header.id).Holds (problemWriteMetadata now pad header bytes) := by
  rw [StoredProblem.complete, if_pos hof.id, problemWriteMetadata]
  refine ⟨⟨{ header with time := now }, readMetadata_metadataBytes _ _ _,
    ⟨hof.id, hof.parent, hof.priority⟩, hs⟩, ?_⟩
  rw [List.drop_left' (metadataBytes_length _ _)]
  exact h.body

theorem Filed.complete (h : Filed t d b files stored) (ha : b.val p = some a)
    (hs : a.header.status = statusSolved) (hfile : files d (fileName a.header.id) = some bytes)
    (now : UInt64) (pad : MetadataPadding) :
    Filed t d b
      (files.put d (fileName a.header.id) (problemWriteMetadata now pad a.header bytes))
      (stored.map (StoredProblem.complete a.header.id)) where
  database := h.database
  nodup := by
    rw [map_complete_ids]
    exact h.nodup
  below r' hr' := by
    obtain ⟨r, hr, rfl⟩ := List.mem_map.mp hr'
    rw [StoredProblem.complete_id]
    exact h.below r hr
  file r' hr' := by
    obtain ⟨r, hr, rfl⟩ := List.mem_map.mp hr'
    obtain ⟨_, hr₀, hof⟩ := (h.atom p a ha).2
    obtain ⟨old, hold, hholds⟩ := h.file r hr
    rw [StoredProblem.complete_id]
    by_cases he : r.id = a.header.id
    · rw [List.inj_on_of_nodup_map h.nodup hr₀ hr (hof.id.trans he.symm)] at hof
      rw [he, hfile, Option.some.injEq] at hold
      subst hold
      rw [he, Files.put_self]
      exact ⟨_, rfl, hholds.complete hof hs now pad⟩
    · rw [Files.put_other files d _ fun hn => he (fileName_inj hn), StoredProblem.complete,
        if_neg he]
      exact ⟨old, hold, hholds⟩
  only name hname := by
    have hold : (files d name).isSome := by
      by_cases he : name = fileName a.header.id
      · rw [he, hfile]
        rfl
      · rwa [Files.put_other files d _ he] at hname
    obtain ⟨r, hr, rfl⟩ := h.only name hold
    exact ⟨_, List.mem_map_of_mem hr, congrArg fileName (r.complete_id _)⟩
  atom q c hc := by
    obtain ⟨hname, r, hr, hof⟩ := h.atom q c hc
    exact ⟨hname, _, List.mem_map_of_mem hr, hof.complete _⟩

theorem ProblemBook.markSolved_val {b b' : ProblemBook} (hs : b.markSolved p = some b') :
    ∃ a, b'.val p = some a ∧ a.header.status = statusSolved := by
  simp only [markSolved, Option.ite_none_right_eq_some] at hs
  obtain ⟨a, _, rfl⟩ := Option.map_eq_some_iff.mp hs.2
  exact ⟨_, setStatus_self _ _ _ _, rfl⟩

end Completing

namespace ProblemStore

variable {t : Tree} {path : CString} {d cwd : Dir} {s s' : ProblemStore} {files : Files}

theorem Good.onSide (h : s.Good t path d) (he : ∀ time, e ≠ .register time)
    (hs : s.onSide e = some s') : s'.Good t path d := by
  obtain ⟨o, b, hk, hb, hdir, hf⟩ := h
  obtain ⟨side, hside, rfl⟩ := Option.map_eq_some_iff.mp hs
  obtain ⟨b', hstep, hk', hb'⟩ := hk.sound_step hb (fun time hr => absurd hr (he time)) hside
  have hsame := b.sameAtoms hstep he
  exact ⟨o, b', hk', hb', hsame.databaseDir.trans hdir, hf.same hsame⟩

theorem Good.databaseDir (h : s.Good t path d) : s.side.databaseDir = path := by
  obtain ⟨_, _, hk, _, hdir, _⟩ := h
  exact hk.databaseDir.trans hdir

theorem Good.database (h : s.Good t path d) : t.Database s.side.databaseDir d := by
  obtain ⟨_, _, hk, _, _, hf⟩ := h
  rw [hk.databaseDir]
  exact hf.database

theorem Good.register (h : s.Good t path d) (hid : s.side.autoIncrement.toNat < 2 ^ 64 - 1)
    (hm : r.InMemory) (hs : registerProblem t s r = some (s', res)) : s'.Good t path d := by
  obtain ⟨o, b, hk, hb, hdir, hf⟩ := id h
  have hid' : b.autoIncrement.toNat < 2 ^ 64 - 1 := hk.autoIncrement ▸ hid
  rcases registerProblem_cases h.database hm hs with ⟨_, rfl⟩ | ⟨bytes, _, hbytes, rfl⟩
  · exact ⟨o, b.skipId, hk.skipId, hb.skipId hid', hdir, hf.skipId hid'⟩
  · have hfiled := hf.register hid' r.time (hk.autoIncrement ▸ hbytes)
    rw [← hk.autoIncrement] at hfiled
    exact ⟨o, b.register r.time, hk.register r.time, hb.register hid' r.time, hdir, hfiled⟩

theorem Good.complete (h : s.Good t path d) (hs : handlingProblem t s p now pad = some s') :
    s'.Good t path d := by
  obtain ⟨o, b, hk, hb, hdir, hf⟩ := h
  obtain ⟨side, a, hside, ha, hs⟩ := handlingProblem_cases hs
  have hno (time : UInt64) : ProblemEvent.markSolved p ≠ .register time := nofun
  obtain ⟨b', hstep, hk', hb'⟩ :=
    hk.sound_step (e := .markSolved p) hb (fun time he => absurd he (hno time)) hside
  have hsame := b.sameAtoms hstep hno
  have hf' := hf.same hsame
  obtain ⟨a', ha', hsolved⟩ := ProblemBook.markSolved_val hstep
  rw [hk'.val] at ha
  obtain rfl : a = a' := Option.some.inj (ha.symm.trans ha')
  obtain ⟨hname, r, hr, hof⟩ := hf'.atom p a ha
  obtain ⟨bytes, hfile, _⟩ := hf'.file r hr
  rw [hof.id] at hfile
  rw [Tree.overwrite, hname, hf'.database.place, Option.bind_some] at hs
  simp only [hfile, Option.map_some, reduceCtorEq, false_and, false_or, Option.some.injEq,
    exists_eq_left'] at hs
  subst hs
  exact ⟨o, b', hk', hb', hsame.databaseDir.trans hdir, hf'.complete ha hsolved hfile now pad⟩

theorem restarted_loaded {b : ProblemBook} {heap : Heap FsdbT} {xs : List Ptr}
    (hf : Filed t d b s.files s.stored)
    (h : Reloaded t s.files cwd b.databaseDir s.stored heap db xs) (size : UInt32) :
    (s.restarted cwd size heap db (lastIdOf (dbIds heap.valOf xs))).side.Loaded xs where
  problems := h.ring
  live := h.live
  problemQueue := rfl
  unique p q a c := h.unique hf.nodup
  status p a ha := by
    obtain ⟨r, _, hrec⟩ := h.atom ha
    rw [hrec.status, StoredProblem.status]
    split
    · exact .inr rfl
    · exact .inl rfl
  below p a ha := by
    obtain ⟨r, hr, hrec⟩ := h.atom ha
    rw [← hrec.of.id]
    exact hf.below_max hr
  autoIncrement := congrArg (Option.map (· + 1)) (lastIdDb_spec h.ring)
  dispatcher := rfl
  registering := rfl
  started := rfl
  solved := rfl
  returning := rfl

/-- A restart over the files of the stored problems. -/
theorem Good.restart (h : s.Good t path d) (hl : Lists t s.files d entries)
    (hg : ∀ ent ∈ entries, ent.Granted) (hs : restart t s cwd size entries = some s') :
    s'.Good t path d := by
  have hdatabase := h.database
  obtain ⟨o, b, hk, hb, hdir, hf⟩ := h
  obtain ⟨heap, db, xs, hload, hre⟩ := hf.reloaded cwd hl hg
  rw [← hk.databaseDir] at hload
  rw [Aiqb.restart, hload] at hs
  simp only [lastIdDb_spec hre.ring, Option.bind_eq_bind, Option.bind_some,
    Option.some.injEq] at hs
  subst hs
  have hloaded := restarted_loaded hf hre size
  refine ⟨_, _, hloaded.keeps, hloaded.sound, hk.databaseDir.trans hdir, ?_⟩
  exact {
    database := hdatabase
    nodup := hf.nodup
    below := fun r hr => hre.lastId (fun _ hr => hf.below_max hr) hr
    file := hf.file
    only := hf.only
    atom := by
      intro p a ha
      obtain ⟨r, hr, hrec⟩ := hre.atom ha
      have hname := hrec.name
      rw [← hk.databaseDir] at hname
      exact ⟨hname, r, hr, hrec.of⟩ }

theorem Good.step (h : s.Good t path d) (hp : Proper t d s e) (hg : LoadGranted s e)
    (hs : storeStep t s e = some s') : s'.Good t path d := by
  cases e with
  | register r =>
    obtain ⟨⟨s', res⟩, hreg, rfl⟩ := Option.map_eq_some_iff.mp hs
    exact h.register (hp.ids r rfl) (hp.memory r rfl) hreg
  | insert atom => exact h.onSide (e := .insert atom) (fun _ he => nomatch he) hs
  | dispatch => exact h.onSide (e := .dispatch) (fun _ he => nomatch he) hs
  | complete problem now pad => exact h.complete hs
  | takeSolved problem => exact h.onSide (e := .takeSolved problem) (fun _ he => nomatch he) hs
  | giveBack atom => exact h.onSide (e := .giveBack atom) (fun _ he => nomatch he) hs
  | restart cwd size entries =>
    exact h.restart (hp.entries cwd size entries rfl) (hg cwd size entries rfl) hs

theorem start_good (h : t.StartsEmpty files path d) (cwd : Dir) (size : UInt32) :
    (start files cwd size path).Good t path d := by
  have hl := ProblemSide.void_loaded size path
  refine ⟨hl.origin, _, hl.keeps, hl.sound, rfl, ?_⟩
  exact {
    database := h.database
    nodup := List.nodup_nil
    below := nofun
    file := nofun
    only := by
      intro name hname
      change (files d name).isSome at hname
      rw [h.files name] at hname
      cases hname
    atom := nofun }

/-- Every state that a proper run reaches is good, when each load gets its memory. -/
theorem good_of_run (h : t.StartsEmpty files path d)
    (hp : StepsMeet (storeStep t) (Proper t d) (start files cwd size path) es)
    (hg : StepsMeet (storeStep t) LoadGranted (start files cwd size path) es)
    (hr : Run (storeStep t) (start files cwd size path) es s) : s.Good t path d := by
  have hok : StepsMeet (storeStep t) (fun s e => Proper t d s e ∧ LoadGranted s e)
      (start files cwd size path) es :=
    fun pre e u hpre hu => ⟨hp pre e u hpre hu, hg pre e u hpre hu⟩
  exact hr.preserves hok (start_good h cwd size) fun _ _ _ hgood hok hs =>
    hgood.step hok.1 hok.2 hs

end ProblemStore

end Aiqb
