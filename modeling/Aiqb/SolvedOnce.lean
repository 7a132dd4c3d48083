import Aiqb.Crashes
import Aiqb.ProblemLiveness

namespace Aiqb
set_option autoImplicit true

/-- The id of the problem for which the main loop creates a solver thread. -/
def begins (s : ProblemStore) : CrashEvent → Option UInt64
  | .step .dispatch =>
    match s.side.dispatcher with
    | .queued problem => (s.side.heap.valOf problem).map fun a => a.header.id
    | _ => none
  | _ => none

def CrashEvent.restarts : CrashEvent → Bool
  | .step (.restart ..) => true
  | .step _ => false
  | .crash .. => true

/-- An atom of a problem whose completion was written has the status for it. -/
def ProblemStore.Marks (s : ProblemStore) : Prop :=
  ∀ p a, s.side.heap.valOf p = some a →
    ∀ r ∈ s.stored, r.id = a.header.id → r.completed = true → a.header.status = statusSolved

/-- The problem of the id has been taken up, and the main loop is done with it. -/
def ProblemSide.Gone (s : ProblemSide) (id : UInt64) : Prop :=
  ∃ p a, s.heap.valOf p = some a ∧ a.header.id = id ∧ a.header.status ≠ statusNew ∧
    s.dispatcher ≠ .marked p ∧ s.dispatcher ≠ .queued p

section Marks

variable {t : Tree} {path : CString} {d cwd : Dir} {s s' : ProblemStore} {e : CrashEvent}
  {side : ProblemSide} {entries : List DirEntry}

theorem ProblemStore.Survives.reloads (h : s.Survives t path d) (hl : Lists t s.files d entries)
    (hg : ∀ ent ∈ entries, ent.Granted) (hs : Aiqb.restart t s cwd size entries = some s') :
    ∃ xs, Reloaded t s.files.readable cwd path s.stored s'.side.heap s'.side.problems xs := by
  obtain ⟨⟨o, b, hk, _, rfl, hf⟩, hnamed⟩ := h
  obtain ⟨heap, db, xs, hload, hre⟩ :=
    hf.reloaded cwd hl.readable fun ent hent => hg ent (List.mem_of_mem_filter hent)
  have hfull : loadDb t s.files cwd s.side.databaseDir entries = some (heap, db) := by
    have hdir : s.side.databaseDir = b.databaseDir := hk.databaseDir
    rw [hdir]
    exact (loadDb_readable hf.database hnamed hl hg cwd).symm.trans hload
  rw [Aiqb.restart, hfull] at hs
  obtain ⟨_, ⟨⟩, hs⟩ := Option.bind_eq_some_iff.mp hs
  obtain ⟨last, _, hs⟩ := Option.bind_eq_some_iff.mp hs
  cases hs
  exact ⟨xs, hre⟩

theorem ProblemStore.Survives.restart_marks (h : s.Survives t path d)
    (hl : Lists t s.files d entries) (hg : ∀ ent ∈ entries, ent.Granted)
    (hs : Aiqb.restart t s cwd size entries = some s') : s'.Marks := by
  obtain ⟨xs, hre⟩ := h.reloads hl hg hs
  obtain ⟨_, b, _, _, _, hf⟩ := h.good
  intro p a ha r hr hid hcompleted
  rw [restart_stored hs] at hr
  obtain ⟨r', hr', hrec⟩ := hre.atom ha
  have hsame : r = r' :=
    List.inj_on_of_nodup_map hf.nodup hr hr' (hid.trans hrec.of.id.symm)
  rw [hrec.status, StoredProblem.status, ← hsame, if_pos hcompleted]

theorem ProblemStore.Marks.onSide (hm : s.Marks) (h : s.Survives t path d)
    (he : ∀ time, f ≠ .register time) (hs : problemStep s.side f = some side) :
    ({ s with side := side } : ProblemStore).Marks := by
  obtain ⟨o, b, hk, hb, _, _⟩ := h.good
  obtain ⟨b', hstep, hk', _⟩ := hk.sound_step hb (fun time hr => absurd hr (he time)) hs
  intro p a ha r hr hid hcompleted
  rw [hk'.val] at ha
  obtain ⟨old, hold, heq⟩ := (b.sameAtoms hstep he).val p a ha
  have hsolved : b.Solved p := by
    refine ⟨old, hold, hm p old (hk.val ▸ hold) r hr ?_ hcompleted⟩
    rw [hid, heq]
  obtain ⟨a', ha', hstatus⟩ := hk.solved_lasts (b.moves hstep) hsolved
  rwa [Option.some.inj (ha'.symm.trans ha)] at hstatus

theorem ProblemStore.Marks.register (hm : s.Marks) (h : s.Survives t path d) (hi : r.InMemory)
    (hs : registerProblem t s r = some (s', res)) : s'.Marks := by
  have hdatabase : t.Database s.side.databaseDir d := h.good.database
  obtain ⟨_, rfl⟩ | ⟨bytes, _, _, rfl⟩ := registerProblem_cases hdatabase hi hs
  · exact hm
  obtain ⟨o, b, hk, hb, _, hf⟩ := h.good
  intro p a ha q hq hid hcompleted
  have hval : (b.register r.time).val p = some a := (hk.register r.time).val ▸ ha
  rcases List.mem_append.mp hq with hq | hq
  · by_cases hp : p = b.size
    · have hlt := hf.below q hq
      have hnew : (b.register r.time).val b.size =
          some (registeredAtom b.databaseDir b.autoIncrement r.time) := Function.update_self _ _ _
      rw [hp, hnew, Option.some.injEq] at hval
      rw [hid, ← hval] at hlt
      exact absurd hlt (Nat.lt_irrefl _)
    · have hold : (b.register r.time).val p = b.val p := Function.update_of_ne hp _ _
      rw [hold] at hval
      exact hm p a (hk.val ▸ hval) q hq hid hcompleted
  · rw [List.mem_singleton.mp hq] at hcompleted
    cases hcompleted

theorem ProblemStore.Marks.complete (hm : s.Marks) (h : s.Survives t path d)
    (hs : handlingProblem t s p now pad = some s') : s'.Marks := by
  obtain ⟨side, a, hside, ha, hs⟩ := handlingProblem_cases hs
  have hmarks : ({ s with side := side } : ProblemStore).Marks :=
    hm.onSide (f := .markSolved p) h nofun hside
  obtain ⟨hmarked, hsolved, _⟩ := h.marked hside ha
  obtain ⟨_, rfl⟩ | ⟨files, _, rfl⟩ := hs
  · exact hmarks
  intro q c hc r' hr' hid hcompleted
  obtain ⟨r, hr, rfl⟩ := List.mem_map.mp hr'
  rw [StoredProblem.complete_id] at hid
  by_cases he : r.id = a.header.id
  · obtain ⟨o, b, hk, hb, _, _⟩ := hmarked.good
    have hval : side.heap.valOf = b.val := hk.val
    obtain rfl : q = p :=
      hb.numbered.unique q p c a (hval ▸ hc) (hval ▸ ha) (hid.symm.trans he)
    rwa [Option.some.inj (hc.symm.trans ha)]
  · rw [StoredProblem.complete, if_neg he] at hcompleted
    exact hmarks q c hc r hr hid hcompleted

theorem ProblemStore.Marks.step (hm : s.Marks) (h : s.Survives t path d) (hp : e.Proper t d s)
    (hs : crashStep t s e = some s') : s'.Marks := by
  have hside {f : ProblemEvent} (hf : ∀ time, f ≠ .register time) (hs : s.onSide f = some s') :
      s'.Marks := by
    obtain ⟨side, hside, rfl⟩ := Option.map_eq_some_iff.mp hs
    exact hm.onSide h hf hside
  cases e with
  | step e =>
    obtain ⟨hproper, hgranted⟩ := hp
    cases e with
    | register r =>
      obtain ⟨⟨u, res⟩, hreg, rfl⟩ := Option.map_eq_some_iff.mp hs
      exact hm.register h (hproper.memory r rfl) hreg
    | insert atom => exact hside (f := .insert atom) nofun hs
    | dispatch => exact hside (f := .dispatch) nofun hs
    | complete problem now pad => exact hm.complete h hs
    | takeSolved problem => exact hside (f := .takeSolved problem) nofun hs
    | giveBack atom => exact hside (f := .giveBack atom) nofun hs
    | restart cwd size entries =>
      exact h.restart_marks (hproper.entries cwd size entries rfl)
        (hgranted cwd size entries rfl) hs
  | crash c cwd size entries =>
    obtain ⟨u, hu, hs⟩ := Option.bind_eq_some_iff.mp hs
    obtain ⟨hregister, hstart⟩ := hp
    obtain ⟨hl, hg⟩ := hstart u hu
    obtain ⟨side, hdir, hsurvives⟩ := h.cutWrite (fun r hr => (hregister r hr).1) hu
    rw [← restart_side hdir] at hs
    exact hsurvives.restart_marks hl hg hs

end Marks

section Once

variable {t : Tree} {path : CString} {files : Files} {d cwd : Dir} {s s' u : ProblemStore}
  {e : CrashEvent} {pre post : List CrashEvent} {b b' : ProblemBook} {id : UInt64}

theorem begins_some (hk : s.side.Keeps b) (h : begins s e = some id) :
    e = .step .dispatch ∧ ∃ p a, b.dispatcher = .queued p ∧ b.val p = some a ∧
      a.header.id = id := by
  rw [← hk.dispatcher, ← hk.val]
  cases e with
  | step e =>
    cases e with
    | dispatch =>
      simp only [begins] at h
      split at h
      · next p hd =>
        obtain ⟨a, ha, rfl⟩ := Option.map_eq_some_iff.mp h
        exact ⟨rfl, p, a, hd, ha, rfl⟩
      · cases h
    | _ => cases h
  | crash c cwd size entries => cases h

theorem ProblemBook.Sound.inProgress (hb : b.Sound o) (hd : b.dispatcher = .queued p)
    (ha : b.val p = some a) : a.header.status = statusInProgress := by
  obtain ⟨phase, hloc⟩ := hb.located
  have hp : p ∈ b.list .queued := Dispatcher.mem_queued.mpr hd
  obtain ⟨a', ha', hallows⟩ := hloc.val_of_mem hp
  rw [Option.some.inj (ha.symm.trans ha')]
  exact hallows

theorem ProblemSide.Keeps.gone {v v' : ProblemSide} {f : ProblemEvent} (hk : v.Keeps b)
    (hk' : v'.Keeps b') (hm : b.Moves f b') (h : v.Gone id) : v'.Gone id := by
  obtain ⟨p, a, ha, hid, hold, hmarked, hqueued⟩ := h
  have hlt : p < b.size := hk.size ▸ (Heap.live_of_val ha).lt_size
  rw [hk.val] at ha
  rw [hk.dispatcher] at hmarked hqueued
  rw [ProblemSide.Gone, hk'.val, hk'.dispatcher]
  cases hm with
  | register time =>
    exact ⟨p, a, (Function.update_of_ne (Nat.ne_of_lt hlt) _ _).trans ha, hid, hold, hmarked,
      hqueued⟩
  | insert hq => exact ⟨p, a, ha, hid, hold, hmarked, hqueued⟩
  | full hd hroom => exact ⟨p, a, ha, hid, hold, hmarked, hqueued⟩
  | room hd hroom | nothing hd hnil | take hd hcons | putBack hd hc hnot | start hd =>
    exact ⟨p, a, ha, hid, hold, nofun, nofun⟩
  | @mark q c hd hc hnew =>
    have hne : p ≠ q := by
      rintro rfl
      exact hold (Option.some.inj (ha.symm.trans hc) ▸ hnew)
    refine ⟨p, a, (ProblemBook.setStatus_other _ hne).trans ha, hid, hold, ?_, nofun⟩
    exact fun he => hne (Dispatcher.marked.inj he).symm
  | @queue q hd =>
    refine ⟨p, a, ha, hid, hold, nofun, ?_⟩
    rintro he
    cases he
    exact hmarked hd
  | @markSolved q c hq hc =>
    by_cases hpq : p = q
    · subst hpq
      cases ha.symm.trans hc
      have hne : statusSolved ≠ statusNew := by decide
      exact ⟨p, _, ProblemBook.setStatus_self _ _ _ _, hid, hne, hmarked, hqueued⟩
    · exact ⟨p, a, (ProblemBook.setStatus_other _ hpq).trans ha, hid, hold, hmarked, hqueued⟩
  | takeSolved hp hc hatom => exact ⟨p, a, ha, hid, hold, hmarked, hqueued⟩
  | giveBack hatom => exact ⟨p, a, ha, hid, hold, hmarked, hqueued⟩

/-- What is gone stays so until the next start. -/
theorem crashStep_gone (h : s.Survives t path d) (hp : e.Proper t d s) (he : e.restarts = false)
    (hs : crashStep t s e = some s') (hgone : s.side.Gone id) : s'.side.Gone id := by
  obtain ⟨o, b, hk, hb, _, _⟩ := h.good
  have hside {f : ProblemEvent} (hf : IdsStayBelow s.side f)
      (hs : problemStep s.side f = some s'.side) : s'.side.Gone id := by
    obtain ⟨b', hstep, hk', _⟩ := hk.sound_step hb hf hs
    exact hk.gone hk' (b.moves hstep) hgone
  have honSide {f : ProblemEvent} (hf : ∀ time, f ≠ .register time) (hs : s.onSide f = some s') :
      s'.side.Gone id := by
    obtain ⟨side, hstep, rfl⟩ := Option.map_eq_some_iff.mp hs
    exact hside (fun time ht => absurd ht (hf time)) hstep
  cases e with
  | step e =>
    cases e with
    | register r =>
      obtain ⟨⟨u, res⟩, hreg, rfl⟩ := Option.map_eq_some_iff.mp hs
      have hdatabase : t.Database s.side.databaseDir d := h.good.database
      obtain ⟨_, rfl⟩ | ⟨bytes, _, _, rfl⟩ :=
        registerProblem_cases hdatabase (hp.1.memory r rfl) hreg
      · exact hgone
      · exact hside (f := .register r.time) (fun _ _ => hp.1.ids r rfl) rfl
    | insert atom => exact honSide (f := .insert atom) nofun hs
    | dispatch => exact honSide (f := .dispatch) nofun hs
    | complete problem now pad =>
      obtain ⟨side, a, hstep, _, ⟨_, rfl⟩ | ⟨files, _, rfl⟩⟩ := handlingProblem_cases hs
      · exact hside (f := .markSolved problem) nofun hstep
      · exact hside (f := .markSolved problem) nofun hstep
    | takeSolved problem => exact honSide (f := .takeSolved problem) nofun hs
    | giveBack atom => exact honSide (f := .giveBack atom) nofun hs
    | restart cwd size entries => cases he
  | crash c cwd size entries => cases he

theorem begins_gone (h : s.Survives t path d) (hs : crashStep t s e = some s')
    (hbegins : begins s e = some id) : s'.side.Gone id := by
  obtain ⟨o, b, hk, hb, _, _⟩ := h.good
  obtain ⟨rfl, p, a, hd, ha, hid⟩ := begins_some hk hbegins
  obtain ⟨side, hstep, rfl⟩ := Option.map_eq_some_iff.mp hs
  obtain ⟨b', hbook, hk', _⟩ := hk.sound_step hb (fun _ he => ProblemEvent.noConfusion he) hstep
  have hstatus := hb.inProgress hd ha
  have hne : a.header.status ≠ statusNew := by
    rw [hstatus]
    decide
  have hmoves := b.moves hbook
  cases hmoves with
  | start hq =>
    exact ⟨p, a, hk'.val ▸ ha, hid, hne, hk'.dispatcher ▸ nofun, hk'.dispatcher ▸ nofun⟩
  | full hq hroom => cases hd.symm.trans hq
  | room hq hroom => cases hd.symm.trans hq
  | nothing hq hnil => cases hd.symm.trans hq
  | take hq hcons => cases hd.symm.trans hq
  | putBack hq hc hnot => cases hd.symm.trans hq
  | mark hq hc hnew => cases hd.symm.trans hq
  | queue hq => cases hd.symm.trans hq

theorem gone_begins (h : s.Survives t path d) (hgone : s.side.Gone id) :
    begins s e ≠ some id := by
  obtain ⟨o, b, hk, hb, _, _⟩ := h.good
  obtain ⟨p, a, ha, hid, _, _, hqueued⟩ := hgone
  intro hbegins
  obtain ⟨_, q, c, hd, hc, hid'⟩ := begins_some hk hbegins
  obtain rfl : p = q := by
    apply hb.numbered.unique p q a c (hk.val ▸ ha) hc
    rw [hid, hid']
  exact hqueued (hk.dispatcher.trans hd)

/-- However the daemon crashes: a problem whose completion was written is never given to a solver
thread again, and between two starts a problem is given to one solver thread. -/
theorem solved_once (h : t.StartsEmpty files path d)
    (hok : StepsMeet (crashStep t) (CrashEvent.Proper t d) (.start files cwd size path)
      (pre ++ post))
    (hr : Run (crashStep t) (.start files cwd size path) pre s) :
    (∀ id ∈ emitted (crashStep t) finished (.start files cwd size path) pre,
      id ∉ emitted (crashStep t) begins s post) ∧
    ((∀ e ∈ post, e.restarts = false) → (emitted (crashStep t) begins s post).Nodup) := by
  have hpre := hok.of_prefix (List.prefix_append pre post)
  have hpost := hok.of_suffix hr
  have hstart : (ProblemStore.start files cwd size path).Survives t path d ∧
      (ProblemStore.start files cwd size path).Marks :=
    ⟨.start h cwd size, fun p a ha r hr => absurd hr List.not_mem_nil⟩
  have hs : s.Survives t path d ∧ s.Marks := by
    apply hr.preserves (I := fun s => s.Survives t path d ∧ s.Marks) hpre hstart
    exact fun s e s' hs hp hstep => ⟨hs.1.crashStep hp hstep, hs.2.step hs.1 hp hstep⟩
  constructor
  · intro id hid
    have hdone := finished_stored h hpre hr hid
    apply not_mem_emitted
      (I := fun s => (s.Survives t path d ∧ s.Marks) ∧
        ∃ q ∈ s.stored, q.id = id ∧ q.completed = true) hpost ⟨hs, hdone⟩
    · rintro u e u' ⟨hu, hq⟩ hp hstep
      have hdatabase : t.Database u.side.databaseDir d := hu.1.good.database
      refine ⟨⟨hu.1.crashStep hp hstep, hu.2.step hu.1 hp hstep⟩, ?_⟩
      apply crashStep_lasts hdatabase hstep ?_ hq
      exact fun q q' hlasts hq => ⟨hlasts.id.trans hq.1, hlasts.completed hq.2⟩
    · rintro u e ⟨⟨hu, hmarks⟩, q, hq, hqid, hcompleted⟩ hbegins
      obtain ⟨o, b, hk, hb, _, _⟩ := hu.good
      obtain ⟨_, p, a, hd, ha, hid'⟩ := begins_some hk hbegins
      have hsolved := hmarks p a (hk.val ▸ ha) q hq (hqid.trans hid'.symm) hcompleted
      rw [hb.inProgress hd ha] at hsolved
      exact absurd hsolved (by decide)
  · intro hno
    have hpost' : StepsMeet (crashStep t) (fun s e => e.Proper t d s ∧ e.restarts = false) s
        post := by
      intro pre e u hp hu
      have he : e ∈ post := hp.subset (List.mem_append_right _ (List.mem_singleton_self e))
      exact ⟨hpost pre e u hp hu, hno e he⟩
    apply emitted_nodup (I := fun s => s.Survives t path d) (P := fun s id => s.side.Gone id)
      hpost' hs.1
    · exact fun s e s' hs hp hstep => hs.crashStep hp.1 hstep
    · rintro u e u' id hu ⟨hp, he⟩ hstep (hgone | hbegins)
      · exact crashStep_gone hu hp he hstep hgone
      · exact begins_gone hu hstep hbegins
    · exact fun u e id hu hgone => gone_begins hu hgone

end Once

section Sample

def solvedRun : List CrashEvent :=
  [.step (.register .sample), .step (.insert 0), .step .dispatch, .step .dispatch, .step .dispatch,
    .step .dispatch, .step .dispatch, .step (.complete 0 0 PackEnv.sample.metadataPadding),
    .step (.takeSolved 0), .step (.giveBack (some 0))]

def dispatches : List CrashEvent := List.replicate 5 (.step .dispatch)

theorem CrashEvent.Proper.of_quiet {t : Tree} {d : Dir} {s : ProblemStore} {e : CrashEvent}
    (hr : e.registration = none) (hs : e.restarts = false) : e.Proper t d s := by
  cases e with
  | step e =>
    cases e with
    | register r => cases hr
    | restart cwd size entries => cases hs
    | _ =>
      refine ⟨⟨?_, ?_, ?_⟩, ?_⟩
      · intro r he
        cases he
      · intro r he
        cases he
      · intro cwd size entries he
        cases he
      · intro cwd size entries he
        cases he
  | crash c cwd size entries => cases hs

theorem solved_once_again :
    ∃ s, Run (crashStep .sample) .sample solvedRun s ∧
      emitted (crashStep .sample) begins .sample solvedRun = [1] ∧
      emitted (crashStep .sample) finished .sample solvedRun = [1] ∧
      1 ∉ emitted (crashStep .sample) begins s dispatches := by
  have hrun : ∃ s, Run (crashStep .sample) .sample solvedRun s := ⟨_, rfl⟩
  obtain ⟨s, hr⟩ := hrun
  have hfinished : emitted (crashStep .sample) finished .sample solvedRun = [1] := rfl
  refine ⟨s, hr, rfl, hfinished, ?_⟩
  have hok : StepsMeet (crashStep .sample) (CrashEvent.Proper .sample 1) .sample
      (solvedRun ++ dispatches) := by
    have hquiet : (solvedRun.tail ++ dispatches).all
        (fun e => e.registration.isNone && !e.restarts) = true := rfl
    refine .cons ⟨.sample (by decide), nofun⟩ fun u hu pre e v hp hv => ?_
    have he := List.all_eq_true.mp hquiet e
      (hp.subset (List.mem_append_right _ (List.mem_singleton_self e)))
    rw [Bool.and_eq_true, Option.isNone_iff_eq_none, Bool.not_eq_true'] at he
    exact .of_quiet he.1 he.2
  apply (solved_once Tree.sample_startsEmpty hok hr).1
  exact hfinished ▸ List.mem_singleton_self 1

end Sample

end Aiqb
