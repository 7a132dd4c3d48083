import Aiqb.ParserLog
import Aiqb.Resolvable

namespace Aiqb
set_option autoImplicit true

def Parser.Completes (env : Env W) (s : Parser W) (c : UInt8) (d : ProblemDraft) : Prop :=
  s.EndsToken c ∧ s.token.length < 128 ∧ (s.tokenFlags.count c).isFloat ∧
    ∃ d₀, s.state = .problem d₀ ∧
      storePoint s.index.toUInt64 (env.atof s.token) d₀ = some d ∧
      (s.index + 1).toUInt64 = d.total

/-- The problem cannot be stored: the directory, the memory or the file is refused, or the packing
refuses the problem, or reports a length that has wrapped to 0. -/
def ProblemStore.CannotStore (t : Tree) (s : ProblemStore) (r : Registration) : Prop :=
  t.dir s.cwd s.side.databaseDir = none ∨ r.granted = false ∨
    r.problem.rows = 0 ∨ r.problem.sizeX.toUInt32 = 0 ∨ r.problem.data = none ∨
    ∃ atoms, packAtoms r.problem = some atoms ∧
      (48 + 8 * UInt64.ofNat atoms.length = 0 ∨
        ∀ d bytes, t.dir s.cwd s.side.databaseDir = some d →
          t.create s.files d (fileName s.side.autoIncrement) bytes = none)

def Library.registration (lib : Library) (problem : ProblemT) : Registration :=
  ⟨problem, lib.time, lib.granted, lib.pack⟩

/-- The problem is the last one of the ring, under that id, and its file is what was packed. -/
def StoredAs (t : Tree) (lib : Library) (w w' : Daemon) (problem : ProblemT) (k : UInt64) : Prop :=
  (∃ xs p, Ring w.store.side.heap w.store.side.problems xs ∧
    Ring w'.store.side.heap w'.store.side.problems (xs ++ [p]) ∧
    w'.store.side.heap.valOf p = some (registeredAtom w.store.side.databaseDir k lib.time)) ∧
  ∃ d bytes length, t.dir w.store.cwd w.store.side.databaseDir = some d ∧
    problemPack lib.pack problem (registeredAtom w.store.side.databaseDir k lib.time).header =
      some (.written bytes length) ∧
    w'.store.files d (fileName k) = some bytes

/-- The reply to a problem tells whether it is stored. -/
structure Parser.Reports (t : Tree) (s : Parser Daemon) (e : Library × UInt8) : Prop where
  stored : ∀ u events k, readStep (daemonEnv t) s e = some u → u.log = s.log ++ events →
    .reply (.problemOk k) ∈ events → ∃ d, s.Completes (daemonEnv t e.1) e.2 d ∧
      StoredAs t e.1 s.world u.world d.val k
  refused : ∀ u events d, readStep (daemonEnv t) s e = some u → u.log = s.log ++ events →
    s.Completes (daemonEnv t e.1) e.2 d →
    s.world.store.CannotStore t (e.1.registration d.val) →
    u.world.store.side.heap = s.world.store.side.heap ∧
      u.world.store.side.problems = s.world.store.side.problems ∧
      (.reply .unknownError ∈ events ∨ .reply .memoryError ∈ events) ∧
      ∀ k, .reply (.problemOk k) ∉ events

def Parser.CompletesStorable (t : Tree) (s : Parser Daemon) (e : Library × UInt8) : Prop :=
  ∀ d, s.Completes (daemonEnv t e.1) e.2 d →
    ¬ s.world.store.CannotStore t (e.1.registration d.val)

def ParserEvent.NoProblem : ParserEvent → Prop
  | .registerProblem _ => False
  | .reply (.problemOk _) => False
  | _ => True

theorem ParserEvent.Plain.noProblem {e : ParserEvent} (h : e.Plain) : e.NoProblem := by
  cases e with
  | registerProblem d => cases h
  | reply r =>
    cases r with
    | problemOk id => cases h
    | _ => trivial
  | _ => trivial

structure Quiet (s u : Parser Daemon) : Prop where
  emits : Emits ParserEvent.NoProblem s u
  store : u.world.store = s.world.store

namespace Quiet

variable {t : Tree} {lib : Library} {s u : Parser Daemon} {c : UInt8} {token : CString}

theorem refl (s : Parser Daemon) : Quiet s s := ⟨.same rfl, rfl⟩

theorem trans (h : Quiet s u) (h' : Quiet u v) : Quiet s v :=
  ⟨h.emits.trans h'.emits, h'.store.trans h.store⟩

theorem plain (h : Emits ParserEvent.Plain s u) (hs : u.world.store = s.world.store) :
    Quiet s u :=
  ⟨h.imp fun _ => ParserEvent.Plain.noProblem, hs⟩

theorem free_world (fs : List Freed) (s : Parser Daemon) :
    (fs.foldl (Parser.free (daemonEnv t lib)) s).world = s.world := by
  induction fs generalizing s with
  | nil => rfl
  | cons f fs ih => exact ih (Parser.free (daemonEnv t lib) s f)

theorem allocArray_world {put : Option Block → δ} {fs : List Freed} (w : Daemon) (n : UInt64) :
    (allocArray (daemonEnv t lib) w n put fs).2 = w := by
  unfold allocArray
  dsimp only
  split <;> rfl

theorem assignHeader_world (w : Daemon) (i : UInt16) (v : UInt64) (d : ProblemDraft) :
    (assignHeader (daemonEnv t lib) w i v d).2 = w := by
  unfold assignHeader
  split
  · rfl
  · rfl
  · rfl
  · rfl
  · exact allocArray_world w _
  · exact allocArray_world w _
  · exact allocArray_world w _
  · exact allocArray_world w _
  · rfl

theorem integerProblem (v : UInt64) (s : Parser Daemon) :
    Quiet s (Aiqb.integerProblem (daemonEnv t lib) v s) := by
  apply plain (.integerProblem v s)
  unfold Aiqb.integerProblem
  split
  · next d _ =>
    have hw : (assignHeader (daemonEnv t lib) s.world s.index v d).2 = s.world :=
      assignHeader_world s.world s.index v d
    split
    · next fs w he =>
      rw [he] at hw
      obtain rfl : w = s.world := hw
      exact congrArg Daemon.store (free_world fs _)
    · next d' w he =>
      rw [he] at hw
      obtain rfl : w = s.world := hw
      split <;> rfl
  · rfl

theorem assignAnswer_world {w w' : Daemon} {r : Except (Reply × List Freed) AnswerDraft}
    (h : assignAnswer (daemonEnv t lib) w i v d = some (r, w')) : w' = w := by
  unfold assignAnswer at h
  split at h
  · obtain ⟨problem, _, he⟩ := Option.map_eq_some_iff.mp h
    cases problem with
    | none => cases he; rfl
    | some p => cases he; rfl
  · cases h; rfl
  · simp only [Option.some.injEq, Prod.mk.injEq] at h
    rw [← h.2, allocArray_world]
  · cases h; rfl

theorem integerAnswer (v : UInt64) (s : Parser Daemon) :
    Quiet s (Aiqb.integerAnswer (daemonEnv t lib) v s) := by
  apply plain (.integerAnswer v s)
  unfold Aiqb.integerAnswer
  split
  · split
    · rfl
    · next r fs w he =>
      cases assignAnswer_world he
      exact congrArg Daemon.store (free_world fs _)
    · next d' w he =>
      cases assignAnswer_world he
      rfl
  · rfl

theorem integerSolution (v : UInt64) (s : Parser Daemon) :
    Quiet s (Aiqb.integerSolution (daemonEnv t lib) v s) := by
  apply plain (.integerSolution v s)
  unfold Aiqb.integerSolution
  split
  · split
    · rfl
    · rfl
    · split <;> rfl
  · rfl

theorem integerDeleteAnswer (v : UInt64) (s : Parser Daemon) :
    Quiet s (Aiqb.integerDeleteAnswer (daemonEnv t lib) v s) := by
  apply plain (.integerDeleteAnswer v s)
  have hextract : ∀ res w, (daemonEnv t lib).extractQueue s.world v = some (res, w) →
      w.store = s.world.store := by
    intro res w he
    simp only [daemonEnv, Option.bind_eq_bind, Option.bind_eq_some_iff] at he
    obtain ⟨_, _, he⟩ := he
    cases he
    rfl
  have hfree : ∀ w a w', (daemonEnv t lib).freeAnswer w a = some w' → w'.store = w.store := by
    intro w a w' he
    simp only [daemonEnv, Option.bind_eq_bind, Option.bind_eq_some_iff] at he
    obtain ⟨_, _, he⟩ := he
    cases he
    rfl
  unfold Aiqb.integerDeleteAnswer
  split
  · split
    · rfl
    · next w he => exact hextract _ w he
    · next a w he =>
      split
      · rfl
      · next w' hf => exact (hfree w a w' hf).trans (hextract _ w he)
  · rfl

theorem integerToken (token : CString) (hr : s.status = .reading) :
    Quiet s (Aiqb.integerToken (daemonEnv t lib) token s) :=
  integerToken_rule (.refl s) hr (fun _ _ => integerProblem _ s) (fun _ _ => integerAnswer _ s)
    (fun _ => integerSolution _ s) fun _ => integerDeleteAnswer _ s

theorem registerParsedAnswer_store {w w' : Daemon} {id : UInt64}
    (h : registerParsedAnswer w answer = some (id, w')) : w'.store = w.store := by
  simp only [registerParsedAnswer, Option.bind_eq_bind, Option.bind_eq_some_iff] at h
  obtain ⟨_, _, he⟩ := h
  cases he
  rfl

theorem floatAnswer_store (v : UInt64) (s : Parser Daemon) :
    (Aiqb.floatAnswer (daemonEnv t lib) v s).world.store = s.world.store := by
  unfold Aiqb.floatAnswer
  split
  · split
    · rfl
    · dsimp only
      split
      · simp only [completeAnswer, daemonEnv, Option.bind_some]
        split
        · rfl
        · next hreg => exact registerParsedAnswer_store hreg
      · rfl
  · rfl

theorem floatAnswer (v : UInt64) (s : Parser Daemon) :
    Quiet s (Aiqb.floatAnswer (daemonEnv t lib) v s) :=
  ⟨.floatAnswer (fun _ _ _ => trivial) (fun _ => trivial) v s, floatAnswer_store v s⟩

theorem commandToken (token : CString) (s : Parser Daemon) :
    Quiet s (Aiqb.commandToken (daemonEnv t lib) token s) := by
  apply plain (.commandToken token s)
  refine commandToken_rule (P := fun u : Parser Daemon => u.world.store = s.world.store) token rfl
    ?_ ?_ rfl rfl (fun _ => rfl) (fun _ => rfl) ?_
  · unfold registerProblemCommand
    split <;> next he => exact (congrArg (fun r => r.2.store) he).symm
  · unfold registerAnswerCommand
    split <;> next he => exact (congrArg (fun r => r.2.store) he).symm
  · unfold requestCloseCommand
    split
    · exact congrArg Daemon.store (free_world _ s)
    · exact congrArg Daemon.store (free_world _ s)
    · rfl

end Quiet

section Registration

variable {t : Tree} {lib : Library} {s u : Parser Daemon} {c : UInt8} {d : ProblemDraft}

theorem Quiet.printed (label : TokenClass) (token : CString) (s : Parser Daemon) :
    Quiet s (s.emit (.printed label token)) :=
  ⟨.emit (e := .printed label token) trivial rfl, rfl⟩

theorem parserChar_quiet (hr : s.status = .reading)
    (hc : ∀ d, ¬ s.Completes (daemonEnv t lib) c d) :
    Quiet s (parserChar (daemonEnv t lib) s c) := by
  apply parserChar_rule (P := Quiet s) (.refl s) hr
  · exact fun u u' hsame hu => hu.trans ⟨.same hsame.log, congrArg Daemon.store hsame.world⟩
  · exact ⟨.same rfl, rfl⟩
  · exact fun u label _ hu => hu.trans (.printed label s.token u)
  · exact fun _ _ _ u _ hru hu => hu.trans (.integerToken s.token hru)
  · intro hends hlen hf u hturn hru hu
    apply hu.trans
    apply floatToken_rule (P := Quiet u) (.refl u) hru
    · intro d₀ hd₀
      simp only [floatProblem, hd₀]
      split
      · exact ⟨.same rfl, rfl⟩
      · next d hstore =>
        rw [hturn.index] at hstore
        split
        · next htotal =>
          rw [hturn.index] at htotal
          exact (hc d ⟨hends, hlen, hf, d₀, hturn.state.symm.trans hd₀, hstore, htotal⟩).elim
        · exact ⟨.same rfl, rfl⟩
    · exact fun _ _ => .floatAnswer _ u
  · exact fun _ _ _ u _ hu =>
      (hu.trans (.printed .command s.token u)).trans (.commandToken s.token _)

theorem Quiet.analyseCommand (token : CString) (flags : TokenFlags) (s : Parser Daemon) :
    Quiet s (Aiqb.analyseCommand (daemonEnv t lib) token flags s) := by
  unfold Aiqb.analyseCommand
  split
  · have hc : Quiet (s.emit (.printed .command token))
        (Aiqb.commandToken (daemonEnv t lib) token (s.emit (.printed .command token))) :=
      .commandToken token _
    exact (printed .command token s).trans hc
  · exact .refl s

/-- A byte that completes a problem registers it; what may follow is a command. -/
theorem parserChar_completes (hc : s.Completes (daemonEnv t lib) c d) :
    ∃ v, Emits ParserEvent.NoProblem s v ∧ v.world = s.world ∧
      Quiet (completeProblem (daemonEnv t lib) d v) (parserChar (daemonEnv t lib) s c) := by
  obtain ⟨hends, hlen, hf, d₀, hstate, hstore, htotal⟩ := hc
  obtain ⟨u, hturn, hlog, he⟩ := parserChar_float (daemonEnv t lib) hends hlen hf
  refine ⟨{ u with state := .problem d, index := u.index + 1 }, ?_, hturn.world, ?_⟩
  · refine ⟨_, hlog, ?_⟩
    intro e he
    rcases List.mem_cons.mp he with rfl | he
    · trivial
    · cases List.mem_singleton.mp he
      trivial
  · have hfloat : floatToken (daemonEnv t lib) s.token u =
        completeProblem (daemonEnv t lib) d
          { u with state := .problem d, index := u.index + 1 } := by
      rw [floatToken_eq _ _ _ (hturn.status.trans hends.1)]
      simp only [hturn.state, hstate, floatProblem, hturn.index, hstore, htotal, ↓reduceIte]
    rw [he, hfloat]
    generalize completeProblem (daemonEnv t lib) d _ = q
    have hq : Quiet q (q.andThen
        (Aiqb.analyseCommand (daemonEnv t lib) s.token (s.tokenFlags.count c))) :=
      Parser.andThen_keeps (.refl q) fun _ => .analyseCommand _ _ q
    exact Parser.andThen_keeps hq fun _ => hq.trans ⟨.same rfl, rfl⟩

theorem completeProblem_some {w : Daemon} {id : UInt64}
    (h : aiqbdRegisterProblem t lib s.world d.val = some (id, w)) :
    (completeProblem (daemonEnv t lib) d s).log =
        s.log ++ [.registerProblem d, .reply (.problemOk id)] ∧
      (completeProblem (daemonEnv t lib) d s).world = w := by
  simp only [completeProblem, daemonEnv, Option.bind_some, h]
  exact ⟨List.append_assoc _ _ _, rfl⟩

theorem completeProblem_none (h : aiqbdRegisterProblem t lib s.world d.val = none) :
    (completeProblem (daemonEnv t lib) d s).log = s.log ++ [.registerProblem d] := by
  simp only [completeProblem, daemonEnv, Option.bind_some, h]
  rfl

theorem completeProblem_world (h : aiqbdRegisterProblem t lib s.world d.val = none) :
    (completeProblem (daemonEnv t lib) d s).world = s.world := by
  simp only [completeProblem, daemonEnv, Option.bind_some, h]
  rfl

theorem problemPack_refused_iff {env : PackEnv} {problem : ProblemT} {header : Option FileHeader} :
    problemPack env problem header = some .refused ↔
      problem.rows = 0 ∨ problem.sizeX.toUInt32 = 0 ∨ problem.data = none := by
  constructor
  · intro h
    by_contra hno
    rw [problemPack, if_neg hno] at h
    obtain ⟨_, _, he⟩ := Option.map_eq_some_iff.mp h
    cases he
  · exact fun h => if_pos h

theorem registerProblem_refused {w : ProblemStore} {r : Registration} (h : w.CannotStore t r) :
    ∃ w', registerProblem t w r = some (w', none) ∧ w'.side = skipId w.side := by
  unfold registerProblem
  cases hd : t.dir w.cwd w.side.databaseDir with
  | none => exact ⟨_, rfl, rfl⟩
  | some d =>
    cases hg : r.granted with
    | false => exact ⟨_, rfl, rfl⟩
    | true =>
      by_cases hrefuse : r.problem.rows = 0 ∨ r.problem.sizeX.toUInt32 = 0 ∨ r.problem.data = none
      · simp only [problemPack_refused_iff.mpr hrefuse]
        exact ⟨_, rfl, rfl⟩
      · rw [ProblemStore.CannotStore, hd, hg] at h
        have hatoms := ((h.resolve_left nofun).resolve_left nofun)
        rw [← or_assoc, ← or_assoc] at hatoms
        obtain ⟨atoms, hatoms, hlast⟩ := hatoms.resolve_left (by rwa [or_assoc])
        simp only [problemPack, if_neg hrefuse, hatoms, Option.map_some, Bool.not_true,
          Bool.false_eq_true, if_false]
        split
        · exact ⟨_, rfl, rfl⟩
        · next files hcreate =>
          rcases hlast with hzero | hnone
          · rw [if_pos hzero]
            exact ⟨_, rfl, rfl⟩
          · rw [hnone d _ rfl] at hcreate
            cases hcreate

/-- A problem that can be stored is, unless what is packed cannot be read. -/
theorem registerProblem_stored {w w' : ProblemStore} {r : Registration} {o : Option UInt64}
    (h : ¬ w.CannotStore t r) (he : registerProblem t w r = some (w', o)) :
    o = some w.side.autoIncrement ∧ ∃ d bytes length,
      t.dir w.cwd w.side.databaseDir = some d ∧
      problemPack r.pack r.problem
        (registeredAtom w.side.databaseDir w.side.autoIncrement r.time).header =
          some (.written bytes length) ∧
      w' = registered w d r.time bytes := by
  simp only [registerProblem] at he
  split at he
  · next hd => exact (h (.inl hd)).elim
  · next d hd =>
    split at he
    · next hg => exact (h (.inr (.inl (Bool.not_eq_true' _ |>.mp hg)))).elim
    · split at he
      · cases he
      · next hpack =>
        apply (h (.inr (.inr _))).elim
        rcases problemPack_refused_iff.mp hpack with hrows | hsize | hdata
        · exact .inl hrows
        · exact .inr (.inl hsize)
        · exact .inr (.inr (.inl hdata))
      · next bytes length hpack =>
        obtain ⟨atoms, hatoms, hlength, _⟩ := problemPack_written hpack
        have hlast : ¬ (48 + 8 * UInt64.ofNat atoms.length = 0 ∨ _) :=
          fun hlast => h (.inr (.inr (.inr (.inr (.inr ⟨atoms, hatoms, hlast⟩)))))
        obtain ⟨hne, hfile⟩ := not_or.mp hlast
        split at he
        · next hcreate =>
          apply (hfile _).elim
          intro d' bytes' hd'
          cases hd.symm.trans hd'
          exact Tree.create_none hcreate bytes'
        · next files hcreate =>
          rw [if_neg (hlength ▸ hne)] at he
          cases he
          refine ⟨rfl, d, bytes, length, hd, hpack, ?_⟩
          rw [Tree.create_fileName hcreate]
          rfl

theorem registered_insert {side side' : ProblemSide} (hr : Ring side.heap side.problems xs)
    (hs : problemStep (registerAtom side time) (.insert side.heap.size) = some side') :
    Ring side'.heap side'.problems (xs ++ [side.heap.size]) ∧
      side'.heap.valOf = Function.update side.heap.valOf side.heap.size
        (some (registeredAtom side.databaseDir side.autoIncrement time)) := by
  obtain ⟨h', db', he, hr', hv⟩ :=
    insertDb_fresh hr (registeredAtom side.databaseDir side.autoIncrement time)
  have hin : side.heap.size ∈ side.registering ++ [side.heap.size] :=
    List.mem_append_right _ (List.mem_singleton_self _)
  simp only [problemStep, insertAtom, registerAtom, if_pos hin, he, Option.bind_eq_bind,
    Option.bind_some, Option.some.injEq] at hs
  rw [← hs]
  exact ⟨hr', hv⟩

theorem aiqbdRegisterProblem_refused {w : Daemon} {problem : ProblemT}
    (h : w.store.CannotStore t (lib.registration problem)) :
    ∃ w', aiqbdRegisterProblem t lib w problem = some (-1, w') ∧
      w'.store.side = skipId w.store.side := by
  obtain ⟨store, he, hside⟩ := registerProblem_refused h
  refine ⟨{ w with store := store }, ?_, hside⟩
  have he' : registerProblem t w.store ⟨problem, lib.time, lib.granted, lib.pack⟩ =
      some (store, none) := he
  simp only [aiqbdRegisterProblem, he', Option.bind_eq_bind, Option.bind_some]

theorem aiqbdRegisterProblem_stored {w w' : Daemon} {problem : ProblemT} {id : UInt64}
    (hr : Ring w.store.side.heap w.store.side.problems xs)
    (h : ¬ w.store.CannotStore t (lib.registration problem))
    (he : aiqbdRegisterProblem t lib w problem = some (id, w')) :
    StoredAs t lib w w' problem id := by
  obtain ⟨⟨store, o⟩, hreg, he⟩ := Option.bind_eq_some_iff.mp he
  obtain ⟨rfl, d, bytes, length, hd, hpack, hstore⟩ := registerProblem_stored h hreg
  obtain ⟨store', hinsert, he⟩ := Option.bind_eq_some_iff.mp he
  cases he
  obtain ⟨side, hside, rfl⟩ := Option.map_eq_some_iff.mp hinsert
  rw [hstore] at hside
  obtain ⟨hr', hval⟩ := registered_insert hr hside
  refine ⟨⟨xs, _, hr, hr', hval ▸ Function.update_self _ _ _⟩, d, bytes, length, hd, hpack, ?_⟩
  rw [hstore]
  exact Files.put_self _ _ _ _

end Registration

section Replies

variable {t : Tree} {lib : Library} {s u : Parser Daemon} {c : UInt8} {d : ProblemDraft}
  {xs : List Ptr}

theorem ParserEvent.NoProblem.ne_reply {e : ParserEvent} (h : e.NoProblem) (k : UInt64) :
    e ≠ .reply (.problemOk k) := by
  rintro rfl
  exact h

theorem completed_log {q u : Parser Daemon} (hs : Emits ParserEvent.NoProblem s v)
    (hq : q.log = v.log ++ mid) (hu : Emits ParserEvent.NoProblem q u) :
    ∃ events, u.log = s.log ++ events ∧ (∀ e ∈ mid, e ∈ events) ∧
      ∀ k, .reply (.problemOk k) ∈ events → .reply (.problemOk k) ∈ mid := by
  obtain ⟨es, hes, hplain⟩ := hs
  obtain ⟨fs, hfs, hplain'⟩ := hu
  refine ⟨es ++ (mid ++ fs), ?_, ?_, ?_⟩
  · rw [hfs, hq, hes, List.append_assoc, List.append_assoc]
  · exact fun e he => List.mem_append_right _ (List.mem_append_left _ he)
  · intro k hk
    rcases List.mem_append.mp hk with hk | hk
    · exact ((hplain _ hk).ne_reply k rfl).elim
    · rcases List.mem_append.mp hk with hk | hk
      · exact hk
      · exact ((hplain' _ hk).ne_reply k rfl).elim

theorem StoredAs.of_store {w w' w'' : Daemon} (h : StoredAs t lib w w' problem k)
    (he : w''.store = w'.store) : StoredAs t lib w w'' problem k := by
  unfold StoredAs
  rw [he]
  exact h

theorem reports_iff (hr : s.status = .reading)
    (hring : Ring s.world.store.side.heap s.world.store.side.problems xs) :
    s.Reports t (lib, c) ↔ s.CompletesStorable t (lib, c) := by
  have hread : readStep (daemonEnv t) s (lib, c) = some (parserChar (daemonEnv t lib) s c) :=
    if_pos hr
  constructor
  · intro h d hd hno
    obtain ⟨v, hv, hworld, hquiet⟩ := parserChar_completes hd
    obtain ⟨w, hreg, _⟩ := aiqbdRegisterProblem_refused hno
    obtain ⟨hlog, _⟩ := completeProblem_some (hworld.symm ▸ hreg)
    obtain ⟨events, hevents, hmid, _⟩ := completed_log hv hlog hquiet.emits
    apply (h.refused _ events d hread hevents hd hno).2.2.2 (-1)
    exact hmid _ (List.mem_cons_of_mem _ (List.mem_singleton_self _))
  · intro h
    refine ⟨?_, fun _ _ d _ _ hd hno => (h d hd hno).elim⟩
    intro u events k hu hlog hk
    cases hread.symm.trans hu
    by_cases hsome : ∃ d, s.Completes (daemonEnv t lib) c d
    · obtain ⟨d, hd⟩ := hsome
      obtain ⟨v, hv, hworld, hquiet⟩ := parserChar_completes hd
      refine ⟨d, hd, ?_⟩
      cases hreg : aiqbdRegisterProblem t lib s.world d.val with
      | none =>
        have hq := completeProblem_none (hworld.symm ▸ hreg)
        obtain ⟨events', hlog', _, hmid⟩ := completed_log hv hq hquiet.emits
        rw [hlog', List.append_cancel_left_eq] at hlog
        cases List.mem_singleton.mp (hmid k (hlog ▸ hk))
      | some res =>
        obtain ⟨id, w⟩ := res
        obtain ⟨hq, hw⟩ := completeProblem_some (hworld.symm ▸ hreg)
        obtain ⟨events', hlog', _, hmid⟩ := completed_log hv hq hquiet.emits
        rw [hlog', List.append_cancel_left_eq] at hlog
        rcases List.mem_cons.mp (hmid k (hlog ▸ hk)) with he | he
        · cases he
        · cases List.mem_singleton.mp he
          apply (aiqbdRegisterProblem_stored hring (h d hd) hreg).of_store
          rw [hquiet.store, hw]
    · have hnone : ∀ d, ¬ s.Completes (daemonEnv t lib) c d := fun d hd => hsome ⟨d, hd⟩
      obtain ⟨es, hes, hplain⟩ := (parserChar_quiet hr hnone).emits
      rw [hes, List.append_cancel_left_eq] at hlog
      exact ((hplain _ (hlog ▸ hk)).ne_reply k rfl).elim

theorem problems_ring (hr : s.status = .reading)
    (hring : Ring s.world.store.side.heap s.world.store.side.problems xs)
    (c : UInt8) :
    ∃ ys, Ring (parserChar (daemonEnv t lib) s c).world.store.side.heap
      (parserChar (daemonEnv t lib) s c).world.store.side.problems ys := by
  by_cases hsome : ∃ d, s.Completes (daemonEnv t lib) c d
  · obtain ⟨d, hd⟩ := hsome
    obtain ⟨v, _, hworld, hquiet⟩ := parserChar_completes hd
    rw [hquiet.store]
    cases hreg : aiqbdRegisterProblem t lib s.world d.val with
    | none =>
      rw [completeProblem_world (hworld.symm ▸ hreg), hworld]
      exact ⟨xs, hring⟩
    | some res =>
      obtain ⟨id, w⟩ := res
      rw [(completeProblem_some (hworld.symm ▸ hreg)).2]
      by_cases hno : s.world.store.CannotStore t (lib.registration d.val)
      · obtain ⟨w', hrefused, hside⟩ := aiqbdRegisterProblem_refused hno
        cases hreg.symm.trans hrefused
        rw [hside]
        exact ⟨xs, hring⟩
      · obtain ⟨⟨ys, p, _, hring', _⟩, _⟩ := aiqbdRegisterProblem_stored hring hno hreg
        exact ⟨ys ++ [p], hring'⟩
  · rw [(parserChar_quiet hr fun d hd => hsome ⟨d, hd⟩).store]
    exact ⟨xs, hring⟩

end Replies

/-- Every `ok:problem` is about a problem that was stored, and every problem that could not be is
answered with an error, exactly where no problem completes that cannot be stored. -/
theorem problem_replies_iff {t : Tree} {w : Daemon} {xs : List Ptr}
    (hring : Ring w.store.side.heap w.store.side.problems xs) (c₀ : UInt8)
    (es : List (Library × UInt8)) :
    StepsMeet (readStep (daemonEnv t)) (Parser.Reports t) (.start w c₀) es ↔
      StepsMeet (readStep (daemonEnv t)) (Parser.CompletesStorable t) (.start w c₀) es := by
  have hrings : ∀ pre s, Run (readStep (daemonEnv t)) (.start w c₀) pre s →
      ∃ ys, Ring s.world.store.side.heap s.world.store.side.problems ys := by
    intro pre s hrun
    apply hrun.invariant ⟨xs, hring⟩
    rintro s e u ⟨ys, hys⟩ hstep
    obtain ⟨hr, rfl⟩ := readStep_iff.mp hstep
    exact problems_ring hr hys e.2
  apply StepsMeet.congr
  rintro pre ⟨lib, c⟩ s hrun
  obtain ⟨ys, hys⟩ := hrings pre s hrun
  by_cases hr : s.status = .reading
  · exact reports_iff hr hys
  · have hnone : ∀ u, readStep (daemonEnv t) s (lib, c) ≠ some u :=
      fun u hu => hr (readStep_iff.mp hu).1
    refine iff_of_true ⟨?_, ?_⟩ fun d hd => (hr hd.1.1).elim
    · exact fun u _ _ hu => (hnone u hu).elim
    · exact fun u _ _ hu => (hnone u hu).elim

def Library.granting : Library :=
  { Library.sample with
    malloc := fun n => some ⟨0, n, fun _ => 0⟩
    mallocProblem := some (0, .zero) }

def withoutRows : List UInt8 := cstr "reg:problem 1 1 0 1 0 0 0 1 0.0"

/-- A problem that is stored, and then one that is not. -/
def twoProblems : List UInt8 := cstr "reg:problem 1 1 1 1 0 0 0 0 0.5 " ++ withoutRows ++ [32]

theorem problem_replies_iff_twoProblems :
    StepsMeet (readStep (daemonEnv .sample)) (Parser.Reports .sample)
        (.start ⟨.start 1, .sample⟩ 0) (twoProblems.map (Library.granting, ·)) ↔
      StepsMeet (readStep (daemonEnv .sample)) (Parser.CompletesStorable .sample)
        (.start ⟨.start 1, .sample⟩ 0) (twoProblems.map (Library.granting, ·)) :=
  problem_replies_iff (.nil _) 0 _

def withoutRowsRead : Parser Daemon :=
  parse (daemonEnv .sample .granting) (.start ⟨.start 1, .sample⟩ 0) withoutRows

def ParserEvent.problemTold : ParserEvent → Option UInt64
  | .reply (.problemOk k) => some k
  | _ => none

theorem ParserEvent.problemTold_eq {e : ParserEvent} (h : e.problemTold = some k) :
    e = .reply (.problemOk k) := by
  cases e with
  | reply r =>
    cases r with
    | problemOk id => cases h; rfl
    | _ => cases h
  | _ => cases h

/-- The packing refuses this problem, and its client is told `ok:problem`. -/
theorem problem_replies_not :
    ¬ StepsMeet (readStep (daemonEnv .sample)) (Parser.Reports .sample)
      (.start ⟨.start 1, .sample⟩ 0) ((withoutRows ++ [32]).map (Library.granting, ·)) := by
  intro h
  rw [List.map_append, List.map_singleton] at h
  have hr : withoutRowsRead.status = .reading := by decide
  have hreports := h _ _ _ List.prefix_rfl (run_of_parse _ Library.granting hr)
  have hgrows : LogGrows withoutRowsRead
      (parserChar (daemonEnv .sample .granting) withoutRowsRead 32) := .parserChar 32 hr
  obtain ⟨events, hlog, _⟩ := hgrows
  have htold : (parserChar (daemonEnv .sample .granting) withoutRowsRead 32).log.filterMap
      ParserEvent.problemTold = [-1] := by decide
  have hbefore : withoutRowsRead.log.filterMap ParserEvent.problemTold = [] := by decide
  rw [hlog, List.filterMap_append, hbefore, List.nil_append] at htold
  have hmem : -1 ∈ events.filterMap ParserEvent.problemTold := htold ▸ List.mem_singleton_self _
  obtain ⟨e, he, hk⟩ := List.mem_filterMap.mp hmem
  rw [ParserEvent.problemTold_eq hk] at he
  obtain ⟨_, _, ⟨xs, p, _, hring, _⟩, _⟩ := hreports.stored _ _ _ (if_pos hr) hlog he
  have hempty : (parserChar (daemonEnv .sample .granting) withoutRowsRead
      32).world.store.side.problems = none := by decide
  have hhead : none = (xs ++ [p]).head? := hempty.symm.trans hring.head_eq
  exact List.append_ne_nil_of_right_ne_nil xs (List.cons_ne_nil p [])
    (List.head?_eq_none_iff.mp hhead.symm)

end Aiqb
