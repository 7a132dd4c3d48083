import Aiqb.StoreSteps
import Aiqb.TornFiles

namespace Aiqb
set_option autoImplicit true

/-- The files that have metadata; a load does not see the others. -/
def Files.readable (files : Files) : Files := fun d name =>
  (files d name).filter fun bytes => (problemReadMetadata bytes).isSome

def ProblemStore.readable (s : ProblemStore) : ProblemStore :=
  { s with files := s.files.readable }

section Readable

variable {t : Tree} {files : Files} {d cwd : Dir} {path name : CString} {bytes : List UInt8}
  {entries : List DirEntry}

theorem Files.readable_some :
    files.readable d name = some bytes ↔
      files d name = some bytes ∧ (problemReadMetadata bytes).isSome := by
  rw [readable, Option.filter_eq_some_iff]

theorem Files.put_eq (files : Files) (d : Dir) (name : CString) (bytes : List UInt8) (d' : Dir)
    (name' : CString) :
    files.put d name bytes d' name' =
      if d' = d ∧ name' = name then some bytes else files d' name' := by
  by_cases hd : d' = d
  · subst hd
    by_cases hn : name' = name
    · rw [hn, put_self, if_pos ⟨rfl, rfl⟩]
    · rw [put_other _ _ _ hn, if_neg fun h => hn h.2]
  · rw [put, Function.update_of_ne hd, if_neg fun h => hd h.1]

theorem Files.readable_put (hread : (problemReadMetadata bytes).isSome) :
    (files.put d name bytes).readable = files.readable.put d name bytes := by
  funext d' name'
  rw [readable, put_eq, put_eq, readable]
  split
  · rw [Option.filter_some, if_pos hread]
  · rfl

/-- What has no metadata is seen neither when it is written nor over what is not seen. -/
theorem Files.readable_put_none (hread : problemReadMetadata bytes = none)
    (hold : files.readable d name = none) :
    (files.put d name bytes).readable = files.readable := by
  funext d' name'
  rw [readable, put_eq]
  split
  · next h =>
    rw [h.1, h.2, hold, Option.filter_some, hread]
    rfl
  · rfl

theorem Tree.read_readable (t : Tree) (files : Files) (cwd : Dir) (path : CString) :
    (t.read files.readable cwd path).bind problemReadMetadata =
      (t.read files cwd path).bind problemReadMetadata := by
  rw [read, read, Option.bind_assoc, Option.bind_assoc]
  congr 1
  funext p
  change ((files p.1 p.2).filter fun bytes => (problemReadMetadata bytes).isSome).bind _ =
    (files p.1 p.2).bind _
  cases files p.1 p.2 with
  | none => rfl
  | some bytes =>
    rw [Option.filter_some]
    split
    · rfl
    · next hread => exact (Option.not_isSome_iff_eq_none.mp hread).symm

theorem Tree.read_seen (h : t.read files.readable cwd path = some bytes) :
    t.read files cwd path = some bytes ∧ (problemReadMetadata bytes).isSome := by
  obtain ⟨p, hp, hfile⟩ := Option.bind_eq_some_iff.mp h
  obtain ⟨hbytes, hread⟩ := Files.readable_some.mp hfile
  exact ⟨Option.bind_eq_some_iff.mpr ⟨p, hp, hbytes⟩, hread⟩

theorem loadEntries_readable (t : Tree) (files : Files) (cwd : Dir) (path : CString)
    (entries : List DirEntry) (h : Heap FsdbT) (db : Option Ptr) :
    loadEntries t files.readable cwd path entries h db =
      loadEntries t files cwd path entries h db := by
  induction entries generalizing h db with
  | nil => rfl
  | cons ent entries ih =>
    rw [loadEntries, loadEntries, Tree.read_readable]
    simp only [ih]

theorem loadEntries_filter {p : DirEntry → Bool} (hg : ∀ ent ∈ entries, ent.Granted)
    (hskip : ∀ ent ∈ entries, p ent = false → loadedAtom t files cwd path ent.name = none)
    (h : Heap FsdbT) (db : Option Ptr) :
    loadEntries t files cwd path (entries.filter p) h db =
      loadEntries t files cwd path entries h db := by
  induction entries generalizing h db with
  | nil => rfl
  | cons ent entries ih =>
    rw [List.forall_mem_cons] at hg hskip
    cases hp : p ent with
    | false =>
      rw [List.filter_cons_of_neg (by rw [hp]; exact Bool.false_ne_true),
        loadEntries_skip hg.1 (hskip.1 hp), ih hg.2 hskip.2]
    | true =>
      rw [List.filter_cons_of_pos hp]
      cases ha : loadedAtom t files cwd path ent.name with
      | none => rw [loadEntries_skip hg.1 ha, loadEntries_skip hg.1 ha, ih hg.2 hskip.2]
      | some a =>
        rw [loadEntries_keep hg.1 ha, loadEntries_keep hg.1 ha]
        simp only [ih hg.2 hskip.2]

def Tree.seen (t : Tree) (files : Files) (d : Dir) (ent : DirEntry) : Bool :=
  (t.sub d ent.name).isSome || (files.readable d ent.name).isSome

theorem Lists.readable (h : Lists t files d entries) :
    Lists t files.readable d (entries.filter (t.seen files d)) where
  nodup := h.nodup.sublist (List.filter_sublist.map _)
  mem name := by
    constructor
    · intro hname
      obtain ⟨ent, hent, rfl⟩ := List.mem_map.mp hname
      have hseen := (List.mem_filter.mp hent).2
      rwa [Tree.seen, Bool.or_eq_true] at hseen
    · intro hname
      have hmem : name ∈ entries.map DirEntry.name := by
        refine (h.mem name).mpr (hname.imp_right fun hfile => ?_)
        obtain ⟨bytes, hbytes⟩ := Option.isSome_iff_exists.mp hfile
        rw [(Files.readable_some.mp hbytes).1]
        rfl
      obtain ⟨ent, hent, rfl⟩ := List.mem_map.mp hmem
      exact List.mem_map_of_mem (List.mem_filter.mpr ⟨hent, by rwa [Tree.seen, Bool.or_eq_true]⟩)

def Files.Named (files : Files) (d : Dir) : Prop :=
  ∀ name, (files d name).isSome → ∃ id, fileName id = name

theorem Files.Named.put (h : files.Named d) (id : UInt64) (bytes : List UInt8) :
    (files.put d (fileName id) bytes).Named d := by
  intro name hname
  rcases (files.put_isSome d _ bytes name).mp hname with rfl | hname
  · exact ⟨id, rfl⟩
  · exact h name hname

/-- A load finds what it finds without the files that it does not see. -/
theorem loadDb_readable (hd : t.Database path d) (hn : files.Named d)
    (hl : Lists t files d entries) (hg : ∀ ent ∈ entries, ent.Granted) (cwd : Dir) :
    loadDb t files.readable cwd path (entries.filter (t.seen files d)) =
      loadDb t files cwd path entries := by
  have hskip : ∀ ent ∈ entries, t.seen files d ent = false →
      loadedAtom t files.readable cwd path ent.name = none := by
    intro ent hent hseen
    obtain ⟨hsub, hfile⟩ := Bool.or_eq_false_iff.mp hseen
    have hlisted := (hl.mem ent.name).mp (List.mem_map_of_mem hent)
    rw [hsub, or_iff_right Bool.false_ne_true] at hlisted
    obtain ⟨id, hid⟩ := hn _ hlisted
    rw [Option.isSome_eq_false_iff, Option.isNone_iff_eq_none, ← hid] at hfile
    have hread : t.read files.readable cwd (concatPath path (fileName id)) = none := by
      rw [Tree.read, hd.place]
      exact hfile
    rw [← hid, loadedAtom, hread]
    exact ite_self none
  rw [loadDb, loadDb]
  simp only [loadEntries_filter hg hskip, loadEntries_readable]

end Readable

section Steps

variable {t : Tree} {path : CString} {d cwd : Dir} {s s' : ProblemStore} {b : ProblemBook}
  {files : Files} {stored : List StoredProblem} {header : FileHeader} {bytes : List UInt8}
  {side : ProblemSide}

/-- What a load of the directory sees is good, and all that it does not see has the name of a
problem. -/
structure ProblemStore.Survives (t : Tree) (path : CString) (d : Dir) (s : ProblemStore) :
    Prop where
  good : s.readable.Good t path d
  named : s.files.Named d

theorem problemPack_readable
    (h : problemPack env p (some header) = some (.written bytes length)) :
    (problemReadMetadata bytes).isSome := by
  obtain ⟨atoms, _, _, rfl⟩ := problemPack_written h
  rw [List.append_assoc, readMetadata_metadataBytes]
  rfl

theorem Tree.create_readable (t : Tree) (files : Files) (cwd : Dir) (path : CString)
    (hread : (problemReadMetadata bytes).isSome) :
    t.create files.readable cwd path bytes = (t.create files cwd path bytes).map .readable := by
  rw [create, create]
  cases t.place cwd path with
  | none => rfl
  | some p =>
    rw [Option.bind_some, Option.bind_some]
    dsimp only
    split
    · rfl
    · rw [Option.map_some, Files.readable_put hread]

theorem registerProblem_readable (h : registerProblem t s r = some (s', res)) :
    registerProblem t s.readable r = some (s'.readable, res) := by
  simp only [registerProblem, ProblemStore.readable] at h ⊢
  split at h
  · cases h
    rfl
  · split at h
    · next hgranted =>
      cases h
      rw [if_pos hgranted]
    · next hgranted =>
      rw [if_neg hgranted]
      split at h
      · cases h
      · cases h
        rfl
      · next bytes length hpack =>
        rw [Tree.create_readable t s.files _ _ (problemPack_readable hpack)]
        split at h
        · next hcreate =>
          cases h
          rw [hcreate]
          rfl
        · next files hcreate =>
          rw [hcreate, Option.map_some]
          dsimp only
          split at h
          · next hlength =>
            cases h
            rw [if_pos hlength]
          · next hlength =>
            cases h
            rw [if_neg hlength]

theorem Filed.rewrite {f : StoredProblem → StoredProblem} (h : Filed t d b files stored)
    (hf : ∀ (r : StoredProblem) (header : FileHeader), r.Of header → (f r).Of header)
    (hr : r ∈ stored) (hnew : (f r).Holds bytes) (hrest : ∀ q, q.id ≠ r.id → f q = q) :
    Filed t d b (files.put d (fileName r.id) bytes) (stored.map f) := by
  have hid (q : StoredProblem) : (f q).id = q.id :=
    (hf q ⟨q.id, q.parent, q.priority, 0, 0⟩ ⟨rfl, rfl, rfl⟩).id
  constructor
  · exact h.database
  · have hids : (stored.map f).map StoredProblem.id = stored.map StoredProblem.id := by
      rw [List.map_map]
      exact List.map_congr_left fun q _ => hid q
    rw [hids]
    exact h.nodup
  · intro q' hq'
    obtain ⟨q, hq, rfl⟩ := List.mem_map.mp hq'
    rw [hid]
    exact h.below q hq
  · intro q' hq'
    obtain ⟨q, hq, rfl⟩ := List.mem_map.mp hq'
    rw [hid]
    by_cases he : q.id = r.id
    · rw [List.inj_on_of_nodup_map h.nodup hq hr he, Files.put_self]
      exact ⟨bytes, rfl, hnew⟩
    · rw [Files.put_other files d _ fun hn => he (fileName_inj hn), hrest q he]
      exact h.file q hq
  · intro name hname
    obtain ⟨q, hq, rfl⟩ : ∃ q ∈ stored, fileName q.id = name := by
      rcases (files.put_isSome d _ bytes name).mp hname with rfl | hname
      · exact ⟨r, hr, rfl⟩
      · exact h.only name hname
    exact ⟨f q, List.mem_map_of_mem hq, congrArg fileName (hid q)⟩
  · intro p a ha
    obtain ⟨hname, q, hq, hof⟩ := h.atom p a ha
    exact ⟨hname, f q, List.mem_map_of_mem hq, hf q _ hof⟩

def StoredProblem.overlaid (n : Nat) (id : UInt64) (r : StoredProblem) : StoredProblem :=
  if 40 < n then r.complete id else r

theorem StoredProblem.Of.overlaid {r : StoredProblem} (h : r.Of header) (n : Nat) (id : UInt64) :
    (r.overlaid n id).Of header := by
  unfold StoredProblem.overlaid
  split
  · exact h.complete id
  · exact h

theorem StoredProblem.overlaid_other {r : StoredProblem} {k : UInt64} (n : Nat) (h : r.id ≠ k) :
    r.overlaid n k = r := by
  rw [overlaid, complete, if_neg h]
  exact ite_self r

theorem StoredProblem.Holds.overlaid {r : StoredProblem} (h : r.Holds bytes) (hof : r.Of header)
    (hs : header.status = statusSolved) (n : Nat) (now : UInt64) (pad : MetadataPadding) :
    (r.overlaid n header.id).Holds
      (overlay n (metadataBytes { header with time := now } pad) bytes) := by
  obtain ⟨old, hold, hofold, hstatus⟩ := h.metadata
  obtain ⟨time, hread⟩ := readMetadata_overlay n hold { header with time := now } pad
    (hof.id.symm.trans hofold.id) (hof.parent.symm.trans hofold.parent)
    (hof.priority.symm.trans hofold.priority)
  have hbody : (overlay n (metadataBytes { header with time := now } pad) bytes).drop 48 =
      r.body := by
    rw [overlay_drop n (Nat.le_of_eq (metadataBytes_length _ _))]
    exact h.body
  rw [StoredProblem.overlaid]
  split
  · next hn =>
    rw [if_pos hn] at hread
    rw [StoredProblem.complete, if_pos hof.id]
    exact ⟨⟨_, hread, ⟨hofold.id, hofold.parent, hofold.priority⟩, hs⟩, hbody⟩
  · next hn =>
    rw [if_neg hn] at hread
    exact ⟨⟨_, hread, ⟨hofold.id, hofold.parent, hofold.priority⟩, hstatus⟩, hbody⟩

theorem ProblemStore.Survives.file (h : s.Survives t path d) (ha : s.side.heap.valOf p = some a) :
    ∃ r ∈ s.stored, r.Of a.header ∧
      ∃ bytes, r.Holds bytes ∧ ∀ change, t.overwrite s.files s.cwd a.name change =
        some (s.files.put d (fileName a.header.id) (change bytes)) := by
  obtain ⟨o, b, hk, _, _, hf⟩ := h.good
  obtain ⟨hname, r, hr, hof⟩ := hf.atom p a (hk.val ▸ ha)
  obtain ⟨bytes, hseen, hholds⟩ := hf.file r hr
  refine ⟨r, hr, hof, bytes, hholds, fun change => ?_⟩
  rw [hof.id] at hseen
  rw [Tree.overwrite, hname, hf.database.place, Option.bind_some]
  dsimp only
  rw [(Files.readable_some.mp hseen).1, Option.map_some]

theorem ProblemStore.Survives.marked (h : s.Survives t path d)
    (hside : markSolved s.side p = some side) (ha : side.heap.valOf p = some a) :
    ({ s with side := side } : ProblemStore).Survives t path d ∧
      a.header.status = statusSolved ∧
      ∃ old, s.side.heap.valOf p = some old ∧ old.header.id = a.header.id := by
  obtain ⟨⟨o, b, hk, hb, hdir, hf⟩, hnamed⟩ := h
  have hno (time : UInt64) : ProblemEvent.markSolved p ≠ .register time := nofun
  obtain ⟨b', hstep, hk', hb'⟩ :=
    hk.sound_step (e := .markSolved p) hb (fun time he => absurd he (hno time)) hside
  have hsame := b.sameAtoms hstep hno
  obtain ⟨a', ha', hsolved⟩ := ProblemBook.markSolved_val hstep
  rw [hk'.val] at ha
  obtain rfl : a = a' := Option.some.inj (ha.symm.trans ha')
  obtain ⟨old, hold, heq⟩ := hsame.val p a ha
  refine ⟨⟨⟨o, b', hk', hb', hsame.databaseDir.trans hdir, hf.same hsame⟩, hnamed⟩, hsolved, old,
    hk.val ▸ hold, ?_⟩
  rw [heq]

/-- A completion that is cut short leaves the problem as it was, or solved. -/
theorem ProblemStore.Survives.overlaid (h : s.Survives t path d)
    (hside : markSolved s.side p = some side) (ha : side.heap.valOf p = some a) (n : Nat)
    (now : UInt64) (pad : MetadataPadding)
    (hfile : t.overwrite s.files s.cwd a.name
      (overlay n (metadataBytes { a.header with time := now } pad)) = some files) :
    { s with
      side := side
      files := files
      stored := s.stored.map (StoredProblem.overlaid n a.header.id) }.Survives t path d := by
  obtain ⟨hmarked, hsolved, _⟩ := h.marked hside ha
  obtain ⟨r, hr, hof, bytes, hholds, hput⟩ := hmarked.file ha
  obtain rfl := Option.some.inj ((hput _).symm.trans hfile)
  obtain ⟨⟨o, b, hk, hb, hdir, hf⟩, hnamed⟩ := hmarked
  refine ⟨⟨o, b, hk, hb, hdir, ?_⟩, hnamed.put _ _⟩
  have hnew := hholds.overlaid hof hsolved n now pad
  have hread : (problemReadMetadata
      (overlay n (metadataBytes { a.header with time := now } pad) bytes)).isSome := by
    obtain ⟨header, hread, _⟩ := hnew.metadata
    rw [hread]
    rfl
  have hrewrite := hf.rewrite (fun q header hq => hq.overlaid n a.header.id) hr hnew
    fun q hq => StoredProblem.overlaid_other n (hof.id ▸ hq)
  rw [hof.id] at hrewrite
  change Filed t d b (Files.readable _) _
  rw [Files.readable_put hread]
  exact hrewrite

theorem problemWriteMetadata_overlay (now : UInt64) (pad : MetadataPadding) (h : FileHeader) :
    problemWriteMetadata now pad h = overlay 48 (metadataBytes { h with time := now } pad) := by
  funext file
  have hlen := metadataBytes_length { h with time := now } pad
  rw [problemWriteMetadata, overlay, hlen, Nat.min_self, List.take_of_length_le (Nat.le_of_eq hlen)]

namespace ProblemStore.Survives

theorem onSide (h : s.Survives t path d) (he : ∀ time, e ≠ .register time)
    (hs : s.onSide e = some s') : s'.Survives t path d := by
  obtain ⟨side, hside, rfl⟩ := Option.map_eq_some_iff.mp hs
  refine ⟨h.good.onSide he ?_, h.named⟩
  exact Option.map_eq_some_iff.mpr ⟨side, hside, rfl⟩

theorem complete (h : s.Survives t path d) (hs : handlingProblem t s p now pad = some s') :
    s'.Survives t path d := by
  obtain ⟨side, a, hside, ha, ⟨_, rfl⟩ | ⟨files, hfile, rfl⟩⟩ := handlingProblem_cases hs
  · exact h.onSide (e := .markSolved p) nofun (Option.map_eq_some_iff.mpr ⟨side, hside, rfl⟩)
  · rw [problemWriteMetadata_overlay] at hfile
    have hover := h.overlaid hside ha 48 now pad hfile
    have hcomplete : StoredProblem.overlaid 48 a.header.id =
        StoredProblem.complete a.header.id := by
      funext r
      exact if_pos (by decide)
    rwa [hcomplete] at hover

theorem register (h : s.Survives t path d) (hid : s.side.autoIncrement.toNat < 2 ^ 64 - 1)
    (hm : r.InMemory) (hs : registerProblem t s r = some (s', res)) : s'.Survives t path d := by
  refine ⟨h.good.register hid hm (registerProblem_readable hs), ?_⟩
  have hdatabase : t.Database s.side.databaseDir d := h.good.database
  obtain ⟨_, rfl⟩ | ⟨bytes, _, _, rfl⟩ := registerProblem_cases hdatabase hm hs
  · exact h.named
  · exact h.named.put _ _

/-- A restart brings back what was seen. -/
theorem restart (h : s.Survives t path d) (hl : Lists t s.files d entries)
    (hg : ∀ ent ∈ entries, ent.Granted) (hs : restart t s cwd size entries = some s') :
    s'.Survives t path d := by
  have hdatabase : t.Database s.side.databaseDir d := h.good.database
  have hsame : Aiqb.restart t s.readable cwd size (entries.filter (t.seen s.files d)) =
      some s'.readable := by
    rw [Aiqb.restart] at hs ⊢
    obtain ⟨⟨heap, db⟩, hload, hs⟩ := Option.bind_eq_some_iff.mp hs
    obtain ⟨last, hlast, hs⟩ := Option.bind_eq_some_iff.mp hs
    cases hs
    have hseen : loadDb t s.readable.files cwd s.readable.side.databaseDir
        (entries.filter (t.seen s.files d)) = some (heap, db) :=
      (loadDb_readable hdatabase h.named hl hg cwd).trans hload
    exact Option.bind_eq_some_iff.mpr
      ⟨_, hseen, Option.bind_eq_some_iff.mpr ⟨last, hlast, rfl⟩⟩
  refine ⟨h.good.restart hl.readable (fun ent hent => hg ent (List.mem_of_mem_filter hent)) hsame,
    ?_⟩
  obtain ⟨⟨heap, db⟩, _, hs⟩ := Option.bind_eq_some_iff.mp hs
  obtain ⟨last, _, hs⟩ := Option.bind_eq_some_iff.mp hs
  cases hs
  exact h.named

theorem step (h : s.Survives t path d) (hp : Proper t d s e) (hg : LoadGranted s e)
    (hs : storeStep t s e = some s') : s'.Survives t path d := by
  cases e with
  | register r =>
    obtain ⟨⟨s', res⟩, hreg, rfl⟩ := Option.map_eq_some_iff.mp hs
    exact h.register (hp.ids r rfl) (hp.memory r rfl) hreg
  | insert atom => exact h.onSide (e := .insert atom) nofun hs
  | dispatch => exact h.onSide (e := .dispatch) nofun hs
  | complete problem now pad => exact h.complete hs
  | takeSolved problem => exact h.onSide (e := .takeSolved problem) nofun hs
  | giveBack atom => exact h.onSide (e := .giveBack atom) nofun hs
  | restart cwd size entries =>
    exact h.restart (hp.entries cwd size entries rfl) (hg cwd size entries rfl) hs

theorem start (h : t.StartsEmpty files path d) (cwd : Dir) (size : UInt32) :
    (ProblemStore.start files cwd size path).Survives t path d where
  good := by
    have hempty : ∀ name, files.readable d name = none := by
      intro name
      rw [Files.readable, h.files]
      rfl
    exact start_good ⟨h.absolute, h.dir, h.notRoot, h.sub, hempty⟩ cwd size
  named name hname := by
    change (files d name).isSome at hname
    rw [h.files] at hname
    cases hname

end ProblemStore.Survives

end Steps

end Aiqb
