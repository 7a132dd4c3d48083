import Aiqb.Debris
import Aiqb.Emitted
import Aiqb.ServerStored

namespace Aiqb
set_option autoImplicit true

/-- A write to the file of a problem that is cut short behind `n` bytes. -/
inductive Cut where
  | register (r : Registration) (n : Nat)
  | complete (problem : Ptr) (now : UInt64) (pad : MetadataPadding) (n : Nat)

/-- `_aiqbd_register_problem` up to a point in the middle of `_problem_pack`. The start of a file
with all its metadata is stored. -/
def cutRegister (t : Tree) (s : ProblemStore) (r : Registration) (n : Nat) :
    Option ProblemStore :=
  let id := s.side.autoIncrement
  if !r.granted then none
  else
    (t.dir s.cwd s.side.databaseDir).bind fun d =>
      match problemPack r.pack r.problem
          (some (registeredAtom s.side.databaseDir id r.time).header) with
      | some (.written bytes _) =>
        (t.create s.files d (fileName id) (bytes.take n)).map fun files =>
          { s with
            files := files
            stored := s.stored ++
              if 48 ≤ n then [⟨id, 0, 0, false, (bytes.take n).drop 48⟩] else [] }
      | _ => none

/-- `_aiqbd_handling_problem` up to a point in the middle of `_problem_write_metadata`. -/
def cutComplete (t : Tree) (s : ProblemStore) (problem : Ptr) (now : UInt64)
    (pad : MetadataPadding) (n : Nat) : Option ProblemStore := do
  let side ← markSolved s.side problem
  let a ← side.heap.valOf problem
  let files ← t.overwrite s.files s.cwd a.name
    (overlay n (metadataBytes { a.header with time := now } pad))
  some { s with
    side := side
    files := files
    stored := s.stored.map (StoredProblem.overlaid n a.header.id) }

def cutWrite (t : Tree) (s : ProblemStore) : Cut → Option ProblemStore
  | .register r n => cutRegister t s r n
  | .complete problem now pad n => cutComplete t s problem now pad n

/-- The steps of the daemon, and the crashes in the middle of a write, with the next start. -/
inductive CrashEvent where
  | step (e : StoreEvent)
  | crash (c : Cut) (cwd : Dir) (problemQueueSize : UInt32) (entries : List DirEntry)

def crashStep (t : Tree) (s : ProblemStore) : CrashEvent → Option ProblemStore
  | .step e => storeStep t s e
  | .crash c cwd size entries => (cutWrite t s c).bind fun s => restart t s cwd size entries

def Cut.registration : Cut → Option Registration
  | .register r _ => some r
  | .complete .. => none

def CrashEvent.registration : CrashEvent → Option Registration
  | .step (.register r) => some r
  | .step _ => none
  | .crash c .. => c.registration

/-- The ids stay below the largest one, problems fit in memory, and each start reads the entries of
the directory and is granted its memory. -/
def CrashEvent.Proper (t : Tree) (d : Dir) (s : ProblemStore) : CrashEvent → Prop
  | .step e => Aiqb.Proper t d s e ∧ LoadGranted s e
  | .crash c _ _ entries =>
    (∀ r, c.registration = some r → s.side.autoIncrement.toNat < 2 ^ 64 - 1 ∧ r.InMemory) ∧
      ∀ s', cutWrite t s c = some s' →
        Lists t s'.files d entries ∧ ∀ ent ∈ entries, ent.Granted

def returned (t : Tree) (s : ProblemStore) : CrashEvent → Option (UInt64 × ProblemT)
  | .step (.register r) => (registerProblem t s r).bind fun x => x.2.map (·, r.problem)
  | _ => none

def finished (s : ProblemStore) : CrashEvent → Option UInt64
  | .step (.complete problem _ _) => (s.side.heap.valOf problem).map fun a => a.header.id
  | _ => none

section Kept

variable {t : Tree} {path : CString} {d cwd : Dir} {s s' : ProblemStore} {side : ProblemSide}

theorem restart_side (h : side.databaseDir = s.side.databaseDir) (size : UInt32)
    (entries : List DirEntry) :
    restart t { s with side := side } cwd size entries = restart t s cwd size entries := by
  simp only [restart, ProblemStore.restarted, h]

theorem ProblemStore.Good.registered (h : s.Good t path d)
    (hid : s.side.autoIncrement.toNat < 2 ^ 64 - 1)
    (hbytes : problemReadMetadata bytes = some ⟨s.side.autoIncrement, 0, 0, now, statusNew⟩)
    (time : UInt64) : (registered s d time bytes).Good t path d := by
  obtain ⟨o, b, hk, hb, hdir, hf⟩ := h
  have hid' : b.autoIncrement.toNat < 2 ^ 64 - 1 := hk.autoIncrement ▸ hid
  have hfiled := hf.register hid' time (hk.autoIncrement ▸ hbytes)
  rw [← hk.autoIncrement] at hfiled
  exact ⟨o, b.register time, hk.register time, hb.register hid' time, hdir, hfiled⟩

theorem ProblemStore.Good.fresh (h : s.Good t path d) :
    s.files d (fileName s.side.autoIncrement) = none := by
  obtain ⟨_, b, hk, _, _, hf⟩ := h
  rw [hk.autoIncrement]
  exact hf.fresh

theorem cutRegister_some (hd : t.Database s.side.databaseDir d)
    (h : cutRegister t s r n = some s') :
    ∃ bytes length, problemPack r.pack r.problem
        (some ⟨s.side.autoIncrement, 0, 0, r.time, statusNew⟩) = some (.written bytes length) ∧
      s' = { s with
        files := s.files.put d (fileName s.side.autoIncrement) (bytes.take n)
        stored := s.stored ++
          if 48 ≤ n then [⟨s.side.autoIncrement, 0, 0, false, (bytes.take n).drop 48⟩]
          else [] } := by
  simp only [cutRegister, Option.ite_none_left_eq_some, hd.dir, Option.bind_some] at h
  obtain ⟨_, h⟩ := h
  split at h
  · next bytes length hpack =>
    rw [hd.create] at h
    exact ⟨bytes, length, hpack, (Option.some.inj h).symm⟩
  · cases h

theorem packed_metadata (h : problemPack env p (some header) = some (.written bytes length)) :
    problemReadMetadata bytes = some { header with time := env.now } := by
  obtain ⟨atoms, _, _, rfl⟩ := problemPack_written h
  rw [List.append_assoc, readMetadata_metadataBytes]
  rfl

/-- A start after a registration that was cut short. -/
theorem ProblemStore.Survives.cutRegister (h : s.Survives t path d)
    (hid : s.side.autoIncrement.toNat < 2 ^ 64 - 1) (hs : cutRegister t s r n = some s') :
    ∃ side, side.databaseDir = s'.side.databaseDir ∧
      { s' with side := side }.Survives t path d := by
  have hdatabase : t.Database s.side.databaseDir d := h.good.database
  obtain ⟨bytes, length, hpack, rfl⟩ := cutRegister_some hdatabase hs
  have hnamed : (s.files.put d (fileName s.side.autoIncrement) (bytes.take n)).Named d :=
    h.named.put _ _
  have hread := readMetadata_take n bytes
  rw [packed_metadata hpack] at hread
  by_cases hn : 48 ≤ n
  · rw [if_pos hn] at hread
    refine ⟨registerAtom s.side r.time, rfl, ?_, hnamed⟩
    obtain ⟨o, b, hk, hb, hdir, hf⟩ := h.good.registered hid hread r.time
    refine ⟨o, b, hk, hb, hdir, ?_⟩
    change Filed t d b (Files.readable _) (s.stored ++ _)
    rw [Files.readable_put (by rw [hread]; rfl), if_pos hn]
    exact hf
  · rw [if_neg hn] at hread
    refine ⟨s.side, rfl, ?_, hnamed⟩
    have hfresh : s.files.readable d (fileName s.side.autoIncrement) = none := h.good.fresh
    obtain ⟨o, b, hk, hb, hdir, hf⟩ := h.good
    refine ⟨o, b, hk, hb, hdir, ?_⟩
    change Filed t d b
      (s.files.put d (fileName s.side.autoIncrement) (bytes.take n)).readable (s.stored ++ _)
    rw [Files.readable_put_none hread hfresh, if_neg hn, List.append_nil]
    exact hf

theorem cutComplete_some (h : cutComplete t s p now pad n = some s') :
    ∃ side a files, markSolved s.side p = some side ∧ side.heap.valOf p = some a ∧
      t.overwrite s.files s.cwd a.name
        (overlay n (metadataBytes { a.header with time := now } pad)) = some files ∧
      s' = { s with
        side := side
        files := files
        stored := s.stored.map (StoredProblem.overlaid n a.header.id) } := by
  obtain ⟨side, hside, h⟩ := Option.bind_eq_some_iff.mp h
  obtain ⟨a, ha, h⟩ := Option.bind_eq_some_iff.mp h
  obtain ⟨files, hfile, h⟩ := Option.bind_eq_some_iff.mp h
  exact ⟨side, a, files, hside, ha, hfile, (Option.some.inj h).symm⟩

theorem ProblemStore.Survives.cutWrite (h : s.Survives t path d)
    (hid : ∀ r, c.registration = some r → s.side.autoIncrement.toNat < 2 ^ 64 - 1)
    (hs : cutWrite t s c = some s') :
    ∃ side, side.databaseDir = s'.side.databaseDir ∧
      { s' with side := side }.Survives t path d := by
  cases c with
  | register r n => exact h.cutRegister (hid r rfl) hs
  | complete problem now pad n =>
    obtain ⟨side, a, files, hside, ha, hfile, rfl⟩ := cutComplete_some hs
    exact ⟨side, rfl, h.overlaid hside ha n now pad hfile⟩

/-- The invariant of the daemon and of its crashes. -/
theorem ProblemStore.Survives.crashStep (h : s.Survives t path d) (hp : e.Proper t d s)
    (hs : crashStep t s e = some s') : s'.Survives t path d := by
  cases e with
  | step e => exact h.step hp.1 hp.2 hs
  | crash c cwd size entries =>
    obtain ⟨u, hu, hs⟩ := Option.bind_eq_some_iff.mp hs
    obtain ⟨hregister, hstart⟩ := hp
    obtain ⟨hl, hg⟩ := hstart u hu
    obtain ⟨side, hdir, hsurvives⟩ := h.cutWrite (fun r hr => (hregister r hr).1) hu
    rw [← restart_side hdir] at hs
    exact hsurvives.restart hl hg hs

end Kept

/-- The file of the problem is what a registration writes, or the start of it. -/
def StoredProblem.CutFrom (q : StoredProblem) (r : Registration) : Prop :=
  ∃ header bytes length n,
    problemPack r.pack r.problem (some header) = some (.written bytes length) ∧ 48 ≤ n ∧
      q.body = (bytes.take n).drop 48

structure StoredProblem.Lasts (q q' : StoredProblem) : Prop where
  id : q'.id = q.id
  body : q'.body = q.body
  completed : q.completed = true → q'.completed = true

/-- Some of the problems were completed, and no other problem was stored than the one that was
registered. -/
def Grows (r : Option Registration) (stored stored' : List StoredProblem) : Prop :=
  ∃ (f : StoredProblem → StoredProblem) (new : List StoredProblem), stored' = stored.map f ++ new ∧
    (∀ q : StoredProblem, q.Lasts (f q)) ∧ ∀ q ∈ new, ∃ r', r = some r' ∧ q.CutFrom r'

section History

variable {t : Tree} {path : CString} {d cwd : Dir} {s s' : ProblemStore} {e : CrashEvent}
  {stored stored' new : List StoredProblem} {r : Registration} {c : Cut}

theorem StoredProblem.Lasts.refl (q : StoredProblem) : q.Lasts q := ⟨rfl, rfl, fun h => h⟩

theorem StoredProblem.lasts_complete (id : UInt64) (q : StoredProblem) :
    q.Lasts (q.complete id) := by
  rw [complete]
  split
  · exact ⟨rfl, rfl, fun _ => rfl⟩
  · exact .refl q

theorem StoredProblem.lasts_overlaid (n : Nat) (id : UInt64) (q : StoredProblem) :
    q.Lasts (q.overlaid n id) := by
  rw [overlaid]
  split
  · exact q.lasts_complete id
  · exact .refl q

theorem restart_stored (h : restart t s cwd size entries = some s') : s'.stored = s.stored := by
  obtain ⟨⟨heap, db⟩, _, h⟩ := Option.bind_eq_some_iff.mp h
  obtain ⟨last, _, h⟩ := Option.bind_eq_some_iff.mp h
  cases h
  rfl

theorem Grows.map {r : Option Registration} {f : StoredProblem → StoredProblem}
    (hf : ∀ q : StoredProblem, q.Lasts (f q)) : Grows r stored (stored.map f) :=
  ⟨f, [], (List.append_nil _).symm, hf, nofun⟩

theorem Grows.same {r : Option Registration} (h : stored' = stored) : Grows r stored stored' := by
  have hmap : Grows r stored (stored.map id) := .map .refl
  rw [List.map_id] at hmap
  exact h ▸ hmap

theorem Grows.append (h : ∀ q ∈ new, q.CutFrom r) : Grows (some r) stored (stored ++ new) :=
  ⟨id, new, by rw [List.map_id], .refl, fun q hq => ⟨r, rfl, h q hq⟩⟩

theorem handlingProblem_grows {r : Option Registration}
    (h : handlingProblem t s p now pad = some s') : Grows r s.stored s'.stored := by
  obtain ⟨side, a, _, _, ⟨_, rfl⟩ | ⟨files, _, rfl⟩⟩ := handlingProblem_cases h
  · exact .same rfl
  · exact .map fun q => q.lasts_complete a.header.id

theorem registerProblem_grows (h : registerProblem t s r = some (s', res)) :
    Grows (some r) s.stored s'.stored := by
  obtain ⟨_, hstored⟩ | ⟨q, header, bytes, length, _, hstored, hpack, hbody⟩ :=
    registerProblem_writes h
  · exact .same hstored
  · rw [hstored]
    apply Grows.append
    intro q' hq'
    obtain ⟨atoms, _, _, hbytes⟩ := problemPack_written hpack
    have hlen : 48 ≤ bytes.length := by
      rw [hbytes, List.length_append, List.length_append, metadataBytes_length]
      omega
    rw [List.mem_singleton.mp hq']
    exact ⟨header, bytes, length, bytes.length, hpack, hlen, by rw [List.take_length, hbody]⟩

theorem cutWrite_grows (hd : t.Database s.side.databaseDir d) (h : cutWrite t s c = some s') :
    Grows c.registration s.stored s'.stored := by
  cases c with
  | register r n =>
    obtain ⟨bytes, length, hpack, rfl⟩ := cutRegister_some hd h
    apply Grows.append
    intro q hq
    split at hq
    · next hn =>
      rw [List.mem_singleton.mp hq]
      exact ⟨_, bytes, length, n, hpack, hn, rfl⟩
    · cases hq
  | complete problem now pad n =>
    obtain ⟨side, a, files, _, _, _, rfl⟩ := cutComplete_some h
    exact .map fun q => q.lasts_overlaid n a.header.id

/-- A step or a crash completes some problems, and stores at most the one that it registers. -/
theorem crashStep_grows (hd : t.Database s.side.databaseDir d) (h : crashStep t s e = some s') :
    Grows e.registration s.stored s'.stored := by
  cases e with
  | step e =>
    cases e with
    | register r =>
      obtain ⟨⟨u, res⟩, hreg, rfl⟩ := Option.map_eq_some_iff.mp h
      exact registerProblem_grows hreg
    | insert atom => exact .same (onSide_stored h)
    | dispatch => exact .same (onSide_stored h)
    | complete problem now pad => exact handlingProblem_grows h
    | takeSolved problem => exact .same (onSide_stored h)
    | giveBack atom => exact .same (onSide_stored h)
    | restart cwd size entries => exact .same (restart_stored h)
  | crash c cwd size entries =>
    obtain ⟨u, hu, h⟩ := Option.bind_eq_some_iff.mp h
    rw [restart_stored h]
    exact cutWrite_grows hd hu

end History

def PackedFile (p : ProblemT) (file : List UInt8) : Prop :=
  ∃ atoms pad, packAtoms p = some atoms ∧ file.drop 48 = headerBytes p pad ++ atomsBytes atoms

section Surviving

variable {t : Tree} {path : CString} {files : Files} {d cwd cwd' : Dir} {s s' : ProblemStore}
  {e : CrashEvent} {es : List CrashEvent} {entries : List DirEntry} {id : UInt64}

theorem CrashEvent.Proper.memory (h : e.Proper t d s) (he : e.registration = some r) :
    r.InMemory := by
  cases e with
  | step e =>
    cases e with
    | register r' =>
      cases he
      exact h.1.memory r rfl
    | _ => cases he
  | crash c cwd size entries => exact (h.1 r he).2

theorem stored_of_crashes (h : t.StartsEmpty files path d)
    (hok : StepsMeet (crashStep t) (CrashEvent.Proper t d) (.start files cwd size path) es)
    (hr : Run (crashStep t) (.start files cwd size path) es s) :
    s.Survives t path d ∧ ∀ q ∈ s.stored, ∃ r ∈ es.filterMap CrashEvent.registration,
      r.InMemory ∧ q.CutFrom r := by
  apply hr.preserves_history (I := fun es s => s.Survives t path d ∧
    ∀ q ∈ s.stored, ∃ r ∈ es.filterMap CrashEvent.registration, r.InMemory ∧ q.CutFrom r) hok
    ⟨.start h cwd size, nofun⟩
  intro pre u e u' _ ⟨hu, hstored⟩ hp hs
  have hdatabase : t.Database u.side.databaseDir d := hu.good.database
  refine ⟨hu.crashStep hp hs, ?_⟩
  obtain ⟨f, new, hgrown, hf, hnew⟩ := crashStep_grows hdatabase hs
  rw [hgrown, List.filterMap_append]
  intro q hq
  rcases List.mem_append.mp hq with hq | hq
  · obtain ⟨q', hq', rfl⟩ := List.mem_map.mp hq
    obtain ⟨r, hr, hm, header, bytes, length, n, hpack, hn, hbody⟩ := hstored q' hq'
    exact ⟨r, List.mem_append_left _ hr, hm, header, bytes, length, n, hpack, hn,
      (hf q').body.trans hbody⟩
  · obtain ⟨r, hr, hcut⟩ := hnew q hq
    refine ⟨r, List.mem_append_right _ ?_, hp.memory hr, hcut⟩
    rw [List.filterMap_cons_some hr]
    exact List.mem_cons_self

theorem crashStep_lasts (hd : t.Database s.side.databaseDir d) (hs : crashStep t s e = some s')
    {P : StoredProblem → Prop} (hP : ∀ q q' : StoredProblem, q.Lasts q' → P q → P q')
    (h : ∃ q ∈ s.stored, P q) : ∃ q ∈ s'.stored, P q := by
  obtain ⟨q, hq, hPq⟩ := h
  obtain ⟨f, new, hgrown, hf, _⟩ := crashStep_grows hd hs
  exact ⟨f q, hgrown ▸ List.mem_append_left _ (List.mem_map_of_mem hq), hP q _ (hf q) hPq⟩

theorem returned_stored (h : t.StartsEmpty files path d)
    (hok : StepsMeet (crashStep t) (CrashEvent.Proper t d) (.start files cwd size path) es)
    (hr : Run (crashStep t) (.start files cwd size path) es s)
    (hx : x ∈ emitted (crashStep t) (returned t) (.start files cwd size path) es) :
    ∃ q ∈ s.stored, q.id = x.1 ∧ q.Packs x.2 := by
  apply hr.of_emitted (I := fun s => s.Survives t path d)
    (P := fun s x => ∃ q ∈ s.stored, q.id = x.1 ∧ q.Packs x.2) hok (.start h cwd size)
    (fun s e s' hs hp hstep => hs.crashStep hp hstep) ?_ hx
  intro s e s' x hsurvives hs hx
  have hdatabase : t.Database s.side.databaseDir d := hsurvives.good.database
  rcases hx with hx | hx
  · apply crashStep_lasts hdatabase hs ?_ hx
    rintro q q' hlasts ⟨hid, atoms, pad, hatoms, hbody⟩
    exact ⟨hlasts.id.trans hid, atoms, pad, hatoms, hlasts.body.trans hbody⟩
  · cases e with
    | step e =>
      cases e with
      | register r =>
        obtain ⟨⟨u, res⟩, hreg, hres⟩ := Option.bind_eq_some_iff.mp hx
        obtain ⟨id, rfl, rfl⟩ := Option.map_eq_some_iff.mp hres
        obtain ⟨⟨u', res'⟩, hreg', rfl⟩ := Option.map_eq_some_iff.mp hs
        cases hreg.symm.trans hreg'
        obtain ⟨hnone, _⟩ | ⟨q, hid, hstored, hpacks⟩ := registerProblem_packs hreg
        · cases hnone
        · exact ⟨q, hstored ▸ List.mem_append_right _ (List.mem_singleton_self q),
            (Option.some.inj hid).symm, hpacks⟩
      | _ => cases hx
    | crash c cwd size entries => cases hx

theorem finished_stored (h : t.StartsEmpty files path d)
    (hok : StepsMeet (crashStep t) (CrashEvent.Proper t d) (.start files cwd size path) es)
    (hr : Run (crashStep t) (.start files cwd size path) es s)
    (hid : id ∈ emitted (crashStep t) finished (.start files cwd size path) es) :
    ∃ q ∈ s.stored, q.id = id ∧ q.completed = true := by
  apply hr.of_emitted (I := fun s => s.Survives t path d)
    (P := fun s id => ∃ q ∈ s.stored, q.id = id ∧ q.completed = true) hok (.start h cwd size)
    (fun s e s' hs hp hstep => hs.crashStep hp hstep) ?_ hid
  intro s e s' id hsurvives hs hid
  have hdatabase : t.Database s.side.databaseDir d := hsurvives.good.database
  rcases hid with hid | hid
  · apply crashStep_lasts hdatabase hs ?_ hid
    exact fun q q' hlasts hq => ⟨hlasts.id.trans hq.1, hlasts.completed hq.2⟩
  · cases e with
    | step e =>
      cases e with
      | complete problem now pad =>
        obtain ⟨old, hold, rfl⟩ := Option.map_eq_some_iff.mp hid
        obtain ⟨side, a, hside, ha, hs⟩ := handlingProblem_cases hs
        obtain ⟨hmarked, _, old', hold', hsame⟩ := hsurvives.marked hside ha
        obtain rfl := Option.some.inj (hold'.symm.trans hold)
        obtain ⟨q, hq, hof, bytes, _, hput⟩ := hmarked.file ha
        obtain ⟨hnone, _⟩ | ⟨files, _, rfl⟩ := hs
        · cases hnone.symm.trans (hput _)
        · refine ⟨_, List.mem_map_of_mem hq, ?_, ?_⟩
          · rw [StoredProblem.complete_id, hof.id, hsame]
          · rw [StoredProblem.complete, if_pos hof.id]
      | _ => cases hid
    | crash c cwd size entries => cases hid

/-- What is left of a registration is the whole file, or one that is refused. -/
theorem StoredProblem.CutFrom.whole_or_refused {q : StoredProblem} {file : List UInt8}
    (h : q.CutFrom r) (hm : r.InMemory) (hlen : 48 ≤ file.length) (hfile : file.drop 48 = q.body) :
    PackedFile r.problem file ∨
      (r.problem.FitsFile → r.problem.elements < 2 ^ 64 → Refused file) := by
  obtain ⟨header, bytes, length, n, hpack, hn, hbody⟩ := h
  rw [hbody] at hfile
  by_cases hall : bytes.length ≤ n
  · obtain ⟨atoms, pad, hatoms, hdrop⟩ := packed_body hpack
    rw [List.take_of_length_le hall, hdrop] at hfile
    exact .inl ⟨atoms, pad, hatoms, hfile⟩
  · refine .inr fun hf he => ?_
    obtain ⟨atoms, hatoms, _⟩ := problemPack_written hpack
    have hcut : Refused (bytes.take n) :=
      refused_pack hpack hatoms (hm atoms hatoms) hf he (Nat.not_le.mp hall)
    have hlen' : 48 ≤ (bytes.take n).length := by
      rw [List.length_take]
      omega
    intro W env w p hx
    rw [unpack_congr hlen' hlen hfile]
    exact hcut W env w p hx

/-- However often the daemon crashes, also in the middle of its writes: a load finds each problem
whose registration returned, whole, and as solved if its completion was written; and all else that
it finds is whole too, or refused when it is unpacked. -/
theorem crashes_survived (h : t.StartsEmpty files path d)
    (hok : StepsMeet (crashStep t) (CrashEvent.Proper t d) (.start files cwd size path) es)
    (hr : Run (crashStep t) (.start files cwd size path) es s)
    (hl : Lists t s.files d entries) (hg : ∀ ent ∈ entries, ent.Granted) (cwd' : Dir) :
    ∃ heap db xs, loadDb t s.files cwd' path entries = some (heap, db) ∧ Ring heap db xs ∧
      (dbIds heap.valOf xs).Nodup ∧
      (∀ x ∈ emitted (crashStep t) (returned t) (.start files cwd size path) es,
        ∃ p ∈ xs, ∃ a file, heap.valOf p = some a ∧ a.header.id = x.1 ∧
          t.read s.files cwd' a.name = some file ∧ PackedFile x.2 file) ∧
      (∀ id ∈ emitted (crashStep t) finished (.start files cwd size path) es,
        ∃ p ∈ xs, ∃ a, heap.valOf p = some a ∧ a.header.id = id ∧
          a.header.status = statusSolved) ∧
      ∀ p ∈ xs, ∃ a file, heap.valOf p = some a ∧ t.read s.files cwd' a.name = some file ∧
        ∃ r ∈ es.filterMap CrashEvent.registration, PackedFile r.problem file ∨
          (r.problem.FitsFile → r.problem.elements < 2 ^ 64 → Refused file) := by
  obtain ⟨⟨⟨o, b, _, _, rfl, hf⟩, hnamed⟩, hstored⟩ := stored_of_crashes h hok hr
  obtain ⟨heap, db, xs, hload, hre⟩ :=
    hf.reloaded cwd' hl.readable fun ent hent => hg ent (List.mem_of_mem_filter hent)
  have hfull : loadDb t s.files cwd' b.databaseDir entries = some (heap, db) :=
    (loadDb_readable hf.database hnamed hl hg cwd').symm.trans hload
  have hread {a : FsdbT} {q : StoredProblem}
      (hrec : Recovers t s.files.readable cwd' b.databaseDir a q) :
      ∃ file, t.read s.files cwd' a.name = some file ∧ file.drop 48 = q.body ∧
        48 ≤ file.length := by
    obtain ⟨file, hfile, hbody⟩ := hrec.body
    obtain ⟨hfile, hseen⟩ := Tree.read_seen hfile
    obtain ⟨header, hheader⟩ := Option.isSome_iff_exists.mp hseen
    exact ⟨file, hfile, hbody, (readMetadata_iff.mp hheader).1⟩
  refine ⟨heap, db, xs, hfull, hre.ring, hre.ids.nodup_iff.mpr hf.nodup, ?_, ?_, ?_⟩
  · intro x hx
    obtain ⟨q, hq, hid, atoms, pad, hatoms, hbody⟩ := returned_stored h hok hr hx
    obtain ⟨p, hp, a, ha, hrec⟩ := hre.finds hq
    obtain ⟨file, hfile, hdrop, _⟩ := hread hrec
    exact ⟨p, hp, a, file, ha, hrec.of.id.symm.trans hid, hfile, atoms, pad, hatoms,
      hdrop.trans hbody⟩
  · intro id hid
    obtain ⟨q, hq, hqid, hcompleted⟩ := finished_stored h hok hr hid
    obtain ⟨p, hp, a, ha, hrec⟩ := hre.finds hq
    refine ⟨p, hp, a, ha, hrec.of.id.symm.trans hqid, ?_⟩
    rw [hrec.status, StoredProblem.status, if_pos hcompleted]
  · intro p hp
    obtain ⟨a, ha⟩ := Heap.live_iff_val.mp (hre.ring.live hp)
    obtain ⟨q, hq, hrec⟩ := hre.atom ha
    obtain ⟨file, hfile, hdrop, hlen⟩ := hread hrec
    obtain ⟨r, hr, hm, hcut⟩ := hstored q hq
    exact ⟨a, file, ha, hfile, r, hr, hcut.whole_or_refused hm hlen hdrop⟩

end Surviving

section Sample

/-- The first registration is cut short in the metadata, and the next one writes over what it
left. -/
def crashingRun : List CrashEvent :=
  [.crash (.register .sample 20) 0 1 (sampleEntries true), .step (.register .sample)]

theorem crashes_survived_overwritten :
    ∃ s heap db xs, Run (crashStep .sample) .sample crashingRun s ∧
      loadDb .sample s.files 0 (cstr "/d") (sampleEntries true) = some (heap, db) ∧
      Ring heap db xs ∧
      ∃ p ∈ xs, ∃ a file, heap.valOf p = some a ∧ a.header.id = 1 ∧
        Tree.sample.read s.files 0 a.name = some file ∧ PackedFile (.oneRow 0) file := by
  have hcut : cutWrite .sample .sample (.register .sample 20) =
      some { ProblemStore.sample with
        files := ProblemStore.sample.files.put 1 (fileName 1) (sampleBytes.take 20) } := rfl
  have hrun : ∃ s, Run (crashStep .sample) .sample crashingRun s ∧
      s.files = (ProblemStore.sample.files.put 1 (fileName 1) (sampleBytes.take 20)).put 1
        (fileName 1) sampleBytes := ⟨_, rfl, rfl⟩
  obtain ⟨s, hr, hfiles⟩ := hrun
  have hok : StepsMeet (crashStep .sample) (CrashEvent.Proper .sample 1) .sample crashingRun := by
    have hmemory : Registration.sample.InMemory := by
      intro atoms hatoms
      cases hatoms
      decide
    refine .cons ⟨?_, ?_⟩ fun u hu => .cons ⟨.sample ?_, nofun⟩ fun _ _ => .nil _ _ _
    · intro r hr
      cases hr
      exact ⟨by decide, hmemory⟩
    · intro u hu
      cases hcut.symm.trans hu
      exact ⟨sampleEntries_list true (sample_put_isSome _), sampleEntries_granted⟩
    · have hid : (crashStep .sample .sample (.crash (.register .sample 20) 0 1
          (sampleEntries true))).map (fun u => u.side.autoIncrement) = some 1 := rfl
      rw [hu] at hid
      have hone : u.side.autoIncrement = 1 := Option.some.inj hid
      rw [hone]
      decide
  have hl : Lists .sample s.files 1 (sampleEntries true) := by
    rw [hfiles]
    apply sampleEntries_list
    intro name
    rw [Files.put_isSome]
    exact or_iff_left_of_imp (sample_put_isSome _ name).mp
  obtain ⟨heap, db, xs, hload, hring, _, hreturned, _⟩ :=
    crashes_survived Tree.sample_startsEmpty hok hr hl sampleEntries_granted 0
  exact ⟨s, heap, db, xs, hr, hload, hring, hreturned (1, .oneRow 0) (List.mem_singleton_self _)⟩

end Sample

end Aiqb
