import Aiqb.ProblemReplies
import Aiqb.Recovery
import Aiqb.ServerRuns
import Aiqb.ServiceKept

namespace Aiqb
set_option autoImplicit true

/-- The id of a problem that a client was told is stored; -1 is said of one that is not. -/
def Reply.problemId : Reply → Option UInt64
  | .problemOk id => if id = -1 then none else some id
  | _ => none

def Desk.problemIds (s : Desk κ) : List UInt64 := s.told.filterMap fun r => r.2.problemId

def Server.problemIds (s : Server κ) : List UInt64 := s.sent.filterMap fun r => r.2.problemId

def Reply.registration : Reply → Option UInt64
  | .problemOk id => some id
  | _ => none

def registrationsOf (rs : List (κ × Reply)) : List (κ × UInt64) :=
  rs.filterMap fun r => r.2.registration.map (r.1, ·)

def Desk.registrations (s : Desk κ) : List (κ × UInt64) := registrationsOf s.told

def Server.registrations (s : Server κ) : List (κ × UInt64) := registrationsOf s.sent

def StoredProblem.Packs (r : StoredProblem) (p : ProblemT) : Prop :=
  ∃ atoms pad, packAtoms p = some atoms ∧ r.body = headerBytes p pad ++ atomsBytes atoms

/-- A problem that a request completes fits in memory, and the id it takes is below the largest
one. -/
def Desk.Storable (s : Desk κ) (e : Option κ × ServiceEvent) : Prop :=
  ∀ lib d, e.2 = .request lib (.registerProblem d) →
    s.daemon.store.side.autoIncrement.toNat < 2 ^ 64 - 1 ∧ (lib.registration d.val).InMemory

def Server.Storable [DecidableEq κ] (s : Server κ) (e : ServerEvent κ) : Prop :=
  ∀ e' ∈ e.asked s, s.desk.Storable e'

section Finding

variable {t : Tree} {files : Files} {cwd : Dir} {path : CString} {stored : List StoredProblem}
  {heap : Heap FsdbT} {xs : List Ptr}

/-- A stored problem is loaded. -/
theorem Reloaded.finds {r : StoredProblem} (h : Reloaded t files cwd path stored heap db xs)
    (hr : r ∈ stored) :
    ∃ p ∈ xs, ∃ a, heap.valOf p = some a ∧ Recovers t files cwd path a r := by
  obtain ⟨rs, hrec, hperm⟩ := h.recovers
  obtain ⟨i, hi, rfl⟩ := List.getElem_of_mem (hperm.mem_iff.mpr hr)
  have hi' : i < (heap.vals xs).length := hrec.length_eq.symm ▸ hi
  obtain ⟨p, hp, ha⟩ := List.mem_filterMap.mp (List.getElem_mem hi')
  exact ⟨p, hp, _, ha, hrec.get hi' hi⟩

theorem Filed.lists {d : Dir} {b : ProblemBook} {subs : List CString}
    (h : Filed t d b files stored) (hn : subs.Nodup)
    (hsub : ∀ name, name ∈ subs ↔ (t.sub d name).isSome) :
    Lists t files d ((subs ++ stored.map fun r => fileName r.id).map
      fun name => ⟨name, true, true, true⟩) := by
  have hnames (names : List CString) :
      (names.map fun name => (⟨name, true, true, true⟩ : DirEntry)).map DirEntry.name = names := by
    rw [List.map_map]
    exact List.map_id names
  constructor
  · rw [hnames, List.nodup_append]
    refine ⟨hn, ?_, ?_⟩
    · have hids := h.nodup.map (f := fileName) fun _ _ he => fileName_inj he
      rwa [List.map_map] at hids
    · rintro name hname _ hfile rfl
      obtain ⟨r, _, rfl⟩ := List.mem_map.mp hfile
      cases h.database.sub _ ((hsub _).mp hname)
  · intro name
    rw [hnames, List.mem_append, hsub]
    refine or_congr_right ⟨?_, ?_⟩
    · intro hfile
      obtain ⟨r, hr, rfl⟩ := List.mem_map.mp hfile
      obtain ⟨bytes, hbytes, _⟩ := h.file r hr
      rw [hbytes]
      rfl
    · intro hfile
      obtain ⟨r, hr, rfl⟩ := h.only name hfile
      exact List.mem_map_of_mem hr

def sampleListing (stored : List StoredProblem) : List DirEntry :=
  ([cstr ".", cstr ".."] ++ stored.map fun r => fileName r.id).map
    fun name => ⟨name, true, true, true⟩

theorem Filed.sampleListed {b : ProblemBook} (h : Filed .sample 1 b files stored) :
    Lists .sample files 1 (sampleListing stored) := by
  refine h.lists (by decide) fun name => ⟨?_, ?_⟩
  · intro hname
    rcases List.mem_cons.mp hname with rfl | hname
    · rfl
    · cases List.mem_singleton.mp hname
      rfl
  · intro hname
    rcases Tree.sample_startsEmpty.sub name hname with rfl | rfl <;> decide

theorem sampleListing_granted (stored : List StoredProblem) :
    ∀ ent ∈ sampleListing stored, ent.Granted :=
  List.forall_mem_map.mpr fun _ _ => .inr ⟨rfl, rfl, rfl⟩

end Finding

section Telling

variable {t : Tree} {lib : Library} {w : Daemon} {r : Request}

theorem Reply.problemId_eq (r : Reply) : r.problemId = r.registration.filter (· ≠ -1) := by
  cases r with
  | problemOk id => by_cases h : id = -1 <;> simp [problemId, registration, Option.filter, h]
  | _ => rfl

theorem registrationsOf_append (rs rs' : List (κ × Reply)) :
    registrationsOf (rs ++ rs') = registrationsOf rs ++ registrationsOf rs' :=
  List.filterMap_append

theorem problemIds_eq (rs : List (κ × Reply)) :
    (rs.filterMap fun r => r.2.problemId) =
      ((registrationsOf rs).map Prod.snd).filter (· ≠ -1) := by
  rw [registrationsOf, List.map_filterMap, List.filter_filterMap]
  congr 1
  funext r
  rw [Reply.problemId_eq]
  cases r.2.registration <;> rfl

theorem Desk.problemIds_eq (s : Desk κ) :
    s.problemIds = (s.registrations.map Prod.snd).filter (· ≠ -1) := Aiqb.problemIds_eq s.told

theorem Request.run_quiet (t : Tree) (lib : Library) (w : Daemon)
    (h : ∀ d, r ≠ .registerProblem d) :
    ∃ state, Quiet (.client w state) (r.run t lib w) := by
  cases r with
  | solution token => exact ⟨_, .integerToken token rfl⟩
  | delete token => exact ⟨_, .integerToken token rfl⟩
  | answerProblem d token => exact ⟨_, .integerToken token rfl⟩
  | registerAnswer d =>
    refine ⟨.answer d, .completeAnswer trivial (fun _ => trivial) _, ?_⟩
    rw [Request.run, completeAnswer]
    split
    · rfl
    · next register hregister =>
      cases hregister
      split
      · rfl
      · next hanswer => exact Quiet.registerParsedAnswer_store hanswer
  | registerProblem d => exact absurd rfl (h d)
  | listProblems => exact ⟨.idle, .plain (.listCommand _ _) rfl⟩
  | listAnswers => exact ⟨.idle, .plain (.listCommand _ _) rfl⟩
  | refuse => exact ⟨.idle, .plain (.leave (r := .memoryError) trivial _ _) rfl⟩

theorem ParserEvent.NoProblem.unregistered {e : ParserEvent} (h : e.NoProblem) :
    (e.replied.bind Reply.registration) = none := by
  cases e with
  | reply r =>
    cases r with
    | problemOk id => cases h
    | _ => rfl
  | _ => rfl

theorem Parser.client_replies (w : Daemon) (state : ParserState) :
    (Parser.client w state).replies = [] := rfl

theorem Request.replies_quiet (h : ∀ d, r ≠ .registerProblem d) :
    (r.run t lib w).replies.filterMap Reply.registration = [] := by
  obtain ⟨state, hquiet⟩ := Request.run_quiet t lib w h
  obtain ⟨es, hlog, hes⟩ := hquiet.emits
  rw [Parser.replies_append hlog, Parser.client_replies, List.nil_append, List.filterMap_filterMap,
    List.filterMap_eq_nil_iff]
  exact fun e he => (hes e he).unregistered

theorem registerProblem_writes (h : registerProblem t s reg = some (s', res)) :
    (res = none ∧ s'.stored = s.stored) ∨
      ∃ r header bytes length, res = some r.id ∧ s'.stored = s.stored ++ [r] ∧
        problemPack reg.pack reg.problem (some header) = some (.written bytes length) ∧
        r.body = bytes.drop 48 := by
  simp only [registerProblem] at h
  split at h
  · cases h
    exact .inl ⟨rfl, rfl⟩
  · split at h
    · cases h
      exact .inl ⟨rfl, rfl⟩
    · split at h
      · cases h
      · cases h
        exact .inl ⟨rfl, rfl⟩
      · next bytes length hpack =>
        split at h
        · cases h
          exact .inl ⟨rfl, rfl⟩
        · split at h <;> cases h
          · exact .inl ⟨rfl, rfl⟩
          · exact .inr ⟨_, _, bytes, length, rfl, rfl, hpack, rfl⟩

theorem packed_body (h : problemPack env p header = some (.written bytes length)) :
    ∃ atoms pad, packAtoms p = some atoms ∧
      bytes.drop 48 = headerBytes p pad ++ atomsBytes atoms := by
  obtain ⟨atoms, hatoms, _, rfl⟩ := problemPack_written h
  refine ⟨atoms, env.headerPadding, hatoms, ?_⟩
  rw [List.append_assoc]
  exact List.drop_left' (metadataBytes_length _ _)

theorem registerProblem_packs (h : registerProblem t s reg = some (s', res)) :
    (res = none ∧ s'.stored = s.stored) ∨
      ∃ r, res = some r.id ∧ s'.stored = s.stored ++ [r] ∧ r.Packs reg.problem := by
  obtain hnone | ⟨r, _, bytes, _, hres, hstored, hpack, hbody⟩ := registerProblem_writes h
  · exact .inl hnone
  · obtain ⟨atoms, pad, hatoms, hdrop⟩ := packed_body hpack
    exact .inr ⟨r, hres, hstored, atoms, pad, hatoms, hbody.trans hdrop⟩

theorem registerProblem_stored_ids (h : registerProblem t s reg = some (s', res)) :
    s'.stored.map StoredProblem.id = s.stored.map StoredProblem.id ++ res.toList := by
  obtain ⟨rfl, hstored⟩ | ⟨r, rfl, hstored, _⟩ := registerProblem_packs h
  · rw [hstored]
    exact (List.append_nil _).symm
  · rw [hstored]
    exact List.map_append

theorem aiqbdRegisterProblem_cases {problem : ProblemT} {w' : Daemon} {id : UInt64}
    (h : aiqbdRegisterProblem t lib w problem = some (id, w')) :
    ∃ store res, registerProblem t w.store (lib.registration problem) = some (store, res) ∧
      id = res.getD (-1) ∧
        (w'.store = store ∨ store.onSide (.insert w.store.side.heap.size) = some w'.store) := by
  obtain ⟨⟨store, res⟩, hreg, h⟩ := Option.bind_eq_some_iff.mp h
  refine ⟨store, res, hreg, ?_⟩
  cases res with
  | none =>
    cases h
    exact ⟨rfl, .inl rfl⟩
  | some id =>
    obtain ⟨store', hinsert, h⟩ := Option.bind_eq_some_iff.mp h
    cases h
    exact ⟨rfl, .inr hinsert⟩

end Telling

section Steps

variable {κ : Type} {t : Tree} {path : CString} {dir : Dir} {v v' : Desk κ}
  {e : Option κ × ServiceEvent} {lib : Library} {d : ProblemDraft} {r : Request} {ids : List UInt64}

theorem deskStep_some (h : deskStep t v e = some v') :
    ∃ u, serviceStep t ⟨v.daemon, [], []⟩ e.2 = some u ∧ v'.daemon = u.daemon ∧
      v'.told = v.told ++ e.1.toList.flatMap fun i => u.sent.map (i, ·) := by
  obtain ⟨u, hu, rfl⟩ := Option.map_eq_some_iff.mp h
  exact ⟨u, hu, rfl, rfl⟩

theorem deskStep_told (h : deskStep t v (i, .request lib r) = some v') :
    (∀ f, (r.run t lib v.daemon).status ≠ .fault f) ∧
      v'.daemon = (r.run t lib v.daemon).world ∧
      v'.told = v.told ++ i.toList.flatMap fun i => (r.run t lib v.daemon).replies.map (i, ·) := by
  obtain ⟨u, hu, hdaemon, htold⟩ := deskStep_some h
  obtain ⟨hdef, rfl⟩ := requestStep_some hu
  exact ⟨hdef, hdaemon, htold⟩

theorem deskStep_other (hr : ∀ d, r ≠ .registerProblem d)
    (h : deskStep t v (i, .request lib r) = some v') :
    v'.daemon.store = v.daemon.store ∧ v'.registrations = v.registrations := by
  obtain ⟨_, hdaemon, htold⟩ := deskStep_told h
  obtain ⟨state, hquiet⟩ := Request.run_quiet t lib v.daemon hr
  refine ⟨hdaemon ▸ hquiet.store, ?_⟩
  rw [Desk.registrations, htold, registrationsOf_append]
  cases i with
  | none => exact List.append_nil _
  | some i =>
    have hnone : registrationsOf ((r.run t lib v.daemon).replies.map (i, ·)) = [] := by
      have hfilter : (r.run t lib v.daemon).replies.filterMap Reply.registration = [] :=
        Request.replies_quiet hr
      rw [List.filterMap_eq_nil_iff] at hfilter
      rw [registrationsOf, List.filterMap_map, List.filterMap_eq_nil_iff]
      exact fun x hx => Option.map_eq_none_iff.mpr (hfilter x hx)
    rw [Option.toList_some, List.flatMap_singleton, hnone]
    exact List.append_nil _

theorem deskStep_registers {i : κ}
    (h : deskStep t v (some i, .request lib (.registerProblem d)) = some v') :
    ∃ store res, registerProblem t v.daemon.store (lib.registration d.val) = some (store, res) ∧
      v'.registrations = v.registrations ++ [(i, res.getD (-1))] ∧
        (v'.daemon.store = store ∨
          store.onSide (.insert v.daemon.store.side.heap.size) = some v'.daemon.store) := by
  obtain ⟨hdef, hdaemon, htold⟩ := deskStep_told h
  obtain ⟨id, hreg⟩ := register_problem_run d hdef
  obtain ⟨store, res, hreg', rfl, hstore⟩ := aiqbdRegisterProblem_cases hreg
  refine ⟨store, res, hreg', ?_, hdaemon ▸ hstore⟩
  have hsaid : ((Request.registerProblem d).run t lib v.daemon).replies =
      [.problemOk (res.getD (-1))] :=
    Parser.replies_append (completeProblem_some (s := .client v.daemon (.problem d)) hreg).1
  rw [Desk.registrations, htold, registrationsOf_append, hsaid]
  rfl

theorem Desk.problemIds_registers {i : κ} {res : Option UInt64}
    (h : v'.registrations = v.registrations ++ [(i, res.getD (-1))]) :
    v'.problemIds = v.problemIds ++ res.toList.filter (· ≠ -1) := by
  rw [problemIds_eq, problemIds_eq, h, List.map_append, List.filter_append]
  cases res with
  | none => simp
  | some k => rfl

/-- What a step does to the stored problems, other than to register one. -/
structure Desk.Holds (t : Tree) (v v' : Desk κ) : Prop where
  registrations : v'.registrations = v.registrations
  step : v'.daemon.store = v.daemon.store ∨
    ∃ e, (∀ r, e ≠ .register r) ∧ (∀ cwd size entries, e ≠ .restart cwd size entries) ∧
      storeStep t v.daemon.store e = some v'.daemon.store

theorem deskStep_loop (he : ∀ lib r, e.2 ≠ .request lib r) (h : deskStep t v e = some v') :
    v.Holds t v' := by
  obtain ⟨u, hu, hdaemon, htold⟩ := deskStep_some h
  have hids (hsent : u.sent = []) : v'.registrations = v.registrations := by
    rw [Desk.registrations, htold, hsent]
    cases e.1 <;> exact congrArg registrationsOf (List.append_nil _)
  rcases serviceStep_cases hu with ⟨lib, r, hr, _⟩ | ⟨a, _, hu⟩ | ⟨a, hregister, hrestart, hu⟩
  · exact absurd hr (he lib r)
  · obtain ⟨answers, _, rfl⟩ := Option.map_eq_some_iff.mp hu
    exact ⟨hids rfl, .inl (by rw [hdaemon])⟩
  · obtain ⟨store, hstep, rfl⟩ := Option.map_eq_some_iff.mp hu
    exact ⟨hids rfl, .inr ⟨a, hregister, hrestart, hdaemon ▸ hstep⟩⟩

end Steps

section Runs

variable {κ : Type} [DecidableEq κ] {t : Tree} {w : Daemon} {s : Server κ} {v v' : Desk κ}
  {e : Option κ × ServiceEvent}

def Asking (e : Option κ × ServiceEvent) : Prop := ∀ lib r, e.2 = .request lib r → e.1.isSome

omit [DecidableEq κ] in
theorem ServerEvent.asked_asking {s : Server κ} {e : ServerEvent κ} (h : e' ∈ e.asked s) :
    Asking e' := by
  intro lib r hr
  cases e with
  | read i lib' result =>
    rw [asked] at h
    cases hp : s.parsers i with
    | none =>
      rw [hp] at h
      cases h
    | some p =>
      rw [hp] at h
      obtain ⟨r', _, rfl⟩ := List.mem_map.mp h
      rfl
  | accept i char => cases h
  | hangUp i => cases h
  | _ =>
    cases List.mem_singleton.mp h
    cases hr

/-- The invariant rule of the server: the desk keeps what its steps keep. -/
theorem Server.preserves {I : Desk κ → Prop} (ok : Desk κ → Option κ × ServiceEvent → Prop)
    (hr : Run (serverStep t) (.start κ w) es s)
    (hok : StepsMeet (serverStep t)
      (fun s e => StepsMeet (deskStep t) ok s.desk (e.asked s)) (.start κ w) es)
    (hinit : I (.start κ w))
    (hstep : ∀ v e v', I v → ok v e → Asking e → deskStep t v e = some v' → I v') : I s.desk := by
  have hI : s.Waits ∧ I s.desk := by
    apply hr.preserves (I := fun s => s.Waits ∧ I s.desk) hok ⟨Server.start_waits w, hinit⟩
    intro s e s' ⟨hw, hI⟩ hok hs
    obtain ⟨hw', hrun⟩ := serverStep_refines hw hs
    have hmeets : StepsMeet (deskStep t) (fun v e => ok v e ∧ Asking e) s.desk (e.asked s) := by
      intro pre e' v hp hv
      exact ⟨hok pre e' v hp hv,
        ServerEvent.asked_asking (hp.subset (List.mem_append_right pre List.mem_cons_self))⟩
    exact ⟨hw', hrun.preserves hmeets hI fun v e v' hv hok h => hstep v e v' hv hok.1 hok.2 h⟩
  exact hI.2

theorem commandRequest_cases {r : Request} (h : commandRequest token = some r) :
    r = .listProblems ∨ r = .listAnswers := by
  unfold commandRequest at h
  split at h
  · exact .inl (Option.some.inj h).symm
  · exact .inr (Option.some.inj (Option.ite_none_right_eq_some.mp h).2).symm

theorem ParserState.requests_tail {state : ParserState} {lib : Library} {r : Request}
    (h : r ∈ (state.requests lib w flags index token).tail) : commandRequest token = some r := by
  unfold requests at h
  dsimp only at h
  cases hnumber : state.numberRequest lib flags index token with
  | none =>
    rw [hnumber, Option.toList_none, List.nil_append] at h
    split at h
    · cases hc : commandRequest token with
      | none =>
        rw [hc] at h
        cases h
      | some c =>
        rw [hc] at h
        cases h
    · cases h
  | some n =>
    rw [hnumber, Option.toList_some, List.singleton_append, List.tail_cons, Option.mem_toList,
      Option.ite_none_right_eq_some] at h
    exact h.2

omit [DecidableEq κ] in
theorem ServerEvent.asked_tail (s : Server κ) (e : ServerEvent κ) (lib : Library)
    (d : ProblemDraft) : ∀ e' ∈ (e.asked s).tail, e'.2 ≠ .request lib (.registerProblem d) := by
  intro e' h
  cases e with
  | read i lib' result =>
    rw [asked] at h
    cases hp : s.parsers i with
    | none =>
      rw [hp] at h
      cases h
    | some p =>
      rw [hp, Option.elim_some, ← List.map_tail, List.mem_map, Parser.requests] at h
      obtain ⟨r, hr, rfl⟩ := h
      split at hr
      · rcases commandRequest_cases (ParserState.requests_tail hr) with rfl | rfl <;>
          exact fun he => Request.noConfusion (ServiceEvent.request.inj he).2
      · cases hr
  | _ => cases h

theorem Server.Storable.meets {s : Server κ} {e : ServerEvent κ} (h : s.Storable e) :
    StepsMeet (deskStep t) Desk.Storable s.desk (e.asked s) := by
  have hmem : ∀ e' ∈ e.asked s, s.desk.Storable e' := h
  have htail := ServerEvent.asked_tail s e
  cases hasked : e.asked s with
  | nil => exact .nil _ _ _
  | cons e' rest =>
    rw [hasked] at hmem htail
    refine .cons (hmem e' List.mem_cons_self) fun v hv => ?_
    intro pre a u hp _ lib d he
    have ha : a ∈ rest := hp.subset (List.mem_append_right pre List.mem_cons_self)
    exact absurd he (htail lib d a ha)

omit [DecidableEq κ] in
/-- A step registers a problem, or it leaves the ids that are stored and the ids that were told. -/
theorem deskStep_cases (ha : Asking e) (h : deskStep t v e = some v') :
    v.Holds t v' ∨ ∃ i lib d, e = (some i, .request lib (.registerProblem d)) := by
  obtain ⟨i, e⟩ := e
  by_cases hrequest : ∃ lib r, e = .request lib r
  · obtain ⟨lib, r, rfl⟩ := hrequest
    by_cases hr : ∃ d, r = .registerProblem d
    · obtain ⟨d, rfl⟩ := hr
      obtain ⟨i, rfl⟩ := Option.isSome_iff_exists.mp (ha lib _ rfl)
      exact .inr ⟨i, lib, d, rfl⟩
    · obtain ⟨hstore, hregs⟩ := deskStep_other (fun d hd => hr ⟨d, hd⟩) h
      exact .inl ⟨hregs, .inl hstore⟩
  · exact .inl (deskStep_loop (fun lib r he => hrequest ⟨lib, r, he⟩) h)

theorem storeStep_stored {f : StoredProblem → α} (hf : ∀ id r, f (r.complete id) = f r)
    {s s' : ProblemStore} {e : StoreEvent} (hr : ∀ r, e ≠ .register r)
    (hs : storeStep t s e = some s') : s'.stored.map f = s.stored.map f := by
  have hside {e : ProblemEvent} (hs : s.onSide e = some s') : s'.stored.map f = s.stored.map f := by
    obtain ⟨side, _, rfl⟩ := Option.map_eq_some_iff.mp hs
    rfl
  cases e with
  | register r => exact absurd rfl (hr r)
  | insert atom => exact hside hs
  | dispatch => exact hside hs
  | complete problem now pad =>
    obtain ⟨side, a, _, _, ⟨_, rfl⟩ | ⟨files, _, rfl⟩⟩ := handlingProblem_cases hs
    · rfl
    · rw [List.map_map]
      exact congrArg (List.map · s.stored) (funext (hf a.header.id))
  | takeSolved problem => exact hside hs
  | giveBack atom => exact hside hs
  | restart cwd size entries =>
    obtain ⟨⟨heap, db⟩, _, hs⟩ := Option.bind_eq_some_iff.mp hs
    obtain ⟨last, _, hs⟩ := Option.bind_eq_some_iff.mp hs
    cases hs
    rfl

omit [DecidableEq κ] in
theorem Desk.Holds.stored {f : StoredProblem → α} (hf : ∀ id r, f (r.complete id) = f r)
    (h : v.Holds t v') : v'.daemon.store.stored.map f = v.daemon.store.stored.map f := by
  obtain hsame | ⟨e, hr, _, hstep⟩ := h.step
  · rw [hsame]
  · exact storeStep_stored hf hr hstep

omit [DecidableEq κ] in
theorem Desk.Holds.ids (h : v.Holds t v') : v'.problemIds = v.problemIds := by
  rw [problemIds_eq, problemIds_eq, h.registrations]

theorem onSide_stored {s s' : ProblemStore} {e : ProblemEvent} (hs : s.onSide e = some s') :
    s'.stored = s.stored := by
  obtain ⟨side, _, rfl⟩ := Option.map_eq_some_iff.mp hs
  rfl

/-- Each id that was told is stored, and each stored problem is an atom in one place. -/
def Desk.Keeps (v : Desk κ) : Prop :=
  (∃ b, v.daemon.store.Tracks b) ∧
    ∀ id ∈ v.problemIds, id ∈ v.daemon.store.stored.map StoredProblem.id

omit [DecidableEq κ] in
theorem Desk.Keeps.step (hv : v.Keeps) (ha : Asking e) (h : deskStep t v e = some v') :
    v'.Keeps := by
  obtain ⟨⟨b, hb⟩, hids⟩ := hv
  obtain hholds | ⟨i, lib, d, rfl⟩ := deskStep_cases ha h
  · constructor
    · obtain hsame | ⟨e, _, hrestart, hstep⟩ := hholds.step
      · exact ⟨b, hsame ▸ hb⟩
      · exact hb.step hrestart hstep
    · rw [hholds.ids, hholds.stored StoredProblem.complete_id]
      exact hids
  · obtain ⟨store, res, hreg, hregs, hstore⟩ := deskStep_registers h
    obtain ⟨b', hb'⟩ := hb.register hreg
    have hstored : v'.daemon.store.stored = store.stored := by
      obtain rfl | hinsert := hstore
      · rfl
      · exact onSide_stored hinsert
    constructor
    · obtain rfl | hinsert := hstore
      · exact ⟨b', hb'⟩
      · exact hb'.onSide (e := .insert _) nofun hinsert
    · rw [Desk.problemIds_registers hregs, hstored, registerProblem_stored_ids hreg]
      intro id hid
      rcases List.mem_append.mp hid with hid | hid
      · exact List.mem_append_left _ (hids id hid)
      · exact List.mem_append_right _ (List.mem_of_mem_filter hid)

/-- The files are those of the problems that the clients were told are stored. -/
structure Desk.Durable (t : Tree) (path : CString) (dir : Dir) (v : Desk κ) : Prop where
  good : v.daemon.store.Good t path dir
  ids : v.daemon.store.stored.map StoredProblem.id = v.problemIds

omit [DecidableEq κ] in
theorem Desk.Durable.step (hv : v.Durable t path dir) (hok : v.Storable e) (ha : Asking e)
    (h : deskStep t v e = some v') : v'.Durable t path dir := by
  obtain hholds | ⟨i, lib, d, rfl⟩ := deskStep_cases ha h
  · refine ⟨?_, by rw [hholds.stored StoredProblem.complete_id, hholds.ids, hv.ids]⟩
    obtain hsame | ⟨e, hregister, hrestart, hstep⟩ := hholds.step
    · exact hsame ▸ hv.good
    · apply hv.good.step ?_ ?_ hstep
      · exact ⟨fun r he => absurd he (hregister r), fun r he => absurd he (hregister r),
          fun cwd size entries he => absurd he (hrestart cwd size entries)⟩
      · exact fun cwd size entries he => absurd he (hrestart cwd size entries)
  · obtain ⟨hid, hmemory⟩ := hok lib d rfl
    obtain ⟨store, res, hreg, hregs, hstore⟩ := deskStep_registers h
    have hgood : store.Good t path dir := hv.good.register hid hmemory hreg
    have hfresh : res.toList.filter (· ≠ -1) = res.toList := by
      obtain ⟨rfl, _⟩ | ⟨bytes, rfl, _⟩ := registerProblem_cases hv.good.database hmemory hreg
      · rfl
      · have hne : v.daemon.store.side.autoIncrement ≠ -1 := by
          intro he
          rw [he] at hid
          exact absurd hid (by decide)
        simp [hne]
    constructor
    · obtain rfl | hinsert := hstore
      · exact hgood
      · exact hgood.onSide (e := .insert _) nofun hinsert
    · have hstored : v'.daemon.store.stored = store.stored := by
        obtain rfl | hinsert := hstore
        · rfl
        · exact onSide_stored hinsert
      rw [Desk.problemIds_registers hregs, hstored, registerProblem_stored_ids hreg, hv.ids,
        hfresh]

theorem durable_of_run (h : t.StartsEmpty files path dir)
    (hw : w.store = .start files cwd size path)
    (hok : StepsMeet (serverStep t) Server.Storable (.start κ w) es)
    (hr : Run (serverStep t) (.start κ w) es s) : s.desk.Durable t path dir := by
  apply Server.preserves Desk.Storable hr (hok.imp fun _ _ => Server.Storable.meets)
  · refine ⟨?_, ?_⟩
    · change w.store.Good t path dir
      exact hw ▸ ProblemStore.start_good h cwd size
    · change w.store.stored.map _ = []
      rw [hw]
      rfl
  · exact fun v e v' hv hok ha h => hv.step hok ha h

/-- Wherever the server is killed, a load that is granted its memory finds one atom for each problem
that a client was told is stored, with what it was registered with, and no other atom. -/
theorem acknowledged_survive (h : t.StartsEmpty files path dir)
    (hw : w.store = .start files cwd size path)
    (hok : StepsMeet (serverStep t) Server.Storable (.start κ w) es)
    (hr : Run (serverStep t) (.start κ w) es s)
    (hl : Lists t s.daemon.store.files dir entries) (hg : ∀ ent ∈ entries, ent.Granted)
    (cwd' : Dir) :
    ∃ heap db xs, loadDb t s.daemon.store.files cwd' path entries = some (heap, db) ∧
      Reloaded t s.daemon.store.files cwd' path s.daemon.store.stored heap db xs ∧
      (dbIds heap.valOf xs).Perm s.problemIds := by
  have hdurable := durable_of_run h hw hok hr
  obtain ⟨o, b, _, _, rfl, hf⟩ := hdurable.good
  obtain ⟨heap, db, xs, hload, hre⟩ := hf.reloaded cwd' hl hg
  refine ⟨heap, db, xs, hload, hre, ?_⟩
  change List.Perm _ s.desk.problemIds
  rw [← hdurable.ids]
  exact hre.ids

def Server.storable (s : Server κ) (e : ServerEvent κ) : Bool :=
  (e.asked s).all fun e' =>
    match e'.2 with
    | .request _ (.registerProblem d) =>
      decide (s.daemon.store.side.autoIncrement.toNat < 2 ^ 64 - 1) &&
        (packAtoms d.val).all fun atoms => decide (atoms.length < 2 ^ 60)
    | _ => true

theorem Server.storable_spec {e : ServerEvent κ} (h : s.storable e = true) : s.Storable e := by
  rintro ⟨j, e'⟩ he lib d rfl
  obtain ⟨hid, hatoms⟩ := (Bool.and_eq_true _ _).mp (List.all_eq_true.mp h _ he)
  refine ⟨of_decide_eq_true hid, fun atoms hpack => ?_⟩
  have hpack : packAtoms d.val = some atoms := hpack
  rw [hpack] at hatoms
  exact of_decide_eq_true hatoms

/-- Two clients send a problem each, byte by byte in turns, and the first one is solved. -/
def twoClientsSent : List (ServerEvent Nat) :=
  .accept 0 0 :: .accept 1 0 ::
    ((cstr "reg:problem 1 1 1 1 0 0 0 0 0.5 ").flatMap fun c =>
      [.read 0 Library.granting (.byte c), .read 1 Library.granting (.byte c)]) ++
    List.replicate 5 .dispatchProblem ++
    [.completeProblem 0 0 PackEnv.sample.metadataPadding]

theorem acknowledged_survive_twoClients :
    ∃ s entries heap db xs,
      Run (serverStep .sample) (.start Nat ⟨.start 1, .sample⟩) twoClientsSent s ∧
      s.problemIds = [1, 2] ∧
      loadDb .sample s.daemon.store.files 0 (cstr "/d") entries = some (heap, db) ∧
      Reloaded .sample s.daemon.store.files 0 (cstr "/d") s.daemon.store.stored heap db xs ∧
      (dbIds heap.valOf xs).Perm s.problemIds := by
  have hids : (twoClientsSent.foldlM (serverStep .sample)
      (Server.start Nat ⟨.start 1, .sample⟩)).map Server.problemIds = some [1, 2] := by
    decide +kernel
  obtain ⟨s, hr, hs⟩ := Option.map_eq_some_iff.mp hids
  have hok : StepsMeet (serverStep .sample) Server.Storable (.start Nat ⟨.start 1, .sample⟩)
      twoClientsSent :=
    .of_passes (fun _ _ => Server.storable_spec) (by decide +kernel)
  obtain ⟨o, b, _, _, _, hf⟩ :=
    (durable_of_run (w := ⟨.start 1, .sample⟩) Tree.sample_startsEmpty rfl hok hr).good
  obtain ⟨heap, db, xs, hload, hre, hperm⟩ :=
    acknowledged_survive (w := ⟨.start 1, .sample⟩) Tree.sample_startsEmpty rfl hok hr
      hf.sampleListed (sampleListing_granted _) 0
  exact ⟨s, _, heap, db, xs, hr, hs, hload, hre, hperm⟩

end Runs

end Aiqb
