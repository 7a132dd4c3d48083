import Aiqb.ProblemReplies
import Aiqb.Server

namespace Aiqb
set_option autoImplicit true

def ParserEvent.replied : ParserEvent → Option Reply
  | .reply r => some r
  | _ => none

structure Silent (s u : Parser Daemon) : Prop where
  world : u.world = s.world
  replies : u.replies = s.replies

/-- The parser `q` has done to the daemon, and told the client, what `r` has, after `s`. -/
structure Parser.Performs (s q r : Parser Daemon) : Prop where
  world : q.world = r.world
  replies : q.replies = s.replies ++ r.replies
  status : q.status = r.status

/-- The parser does one request after the other. -/
inductive Parser.Does (t : Tree) (lib : Library) :
    Parser Daemon → List Request → Parser Daemon → Prop
  | silent (h : Silent s u) : Does t lib s [] u
  | request (h : s.Performs q (r.run t lib s.world)) (hd : ∀ f, q.status ≠ .fault f)
      (hrest : Does t lib q rs v) (hopen : v.status = .reading → q.status = .reading) :
      Does t lib s (r :: rs) v

theorem Parser.replies_append {s u : Parser W} (h : u.log = s.log ++ es) :
    u.replies = s.replies ++ es.filterMap ParserEvent.replied := by
  have heq (s : Parser W) : s.replies = s.log.filterMap ParserEvent.replied := rfl
  rw [heq, heq, h, List.filterMap_append]

namespace Silent

variable {t : Tree} {lib : Library} {s u v : Parser Daemon} {token : CString}

theorem refl (s : Parser Daemon) : Silent s s := ⟨rfl, rfl⟩

theorem trans (h : Silent s u) (h' : Silent u v) : Silent s v :=
  ⟨h'.world.trans h.world, h'.replies.trans h.replies⟩

theorem same (h : SameMessage s u) : Silent s u := by
  refine ⟨h.world, ?_⟩
  rw [Parser.replies, h.log]
  rfl

theorem logged {e : ParserEvent} (he : e.replied = none) (hw : u.world = s.world)
    (hl : u.log = s.log ++ [e]) : Silent s u := by
  refine ⟨hw, ?_⟩
  rw [Parser.replies_append hl, List.filterMap_cons_none he, List.filterMap_nil, List.append_nil]

theorem emit {e : ParserEvent} (he : e.replied = none) (s : Parser Daemon) : Silent s (s.emit e) :=
  logged he rfl rfl

theorem free (fs : List Freed) (s : Parser Daemon) :
    Silent s (fs.foldl (Parser.free (daemonEnv t lib)) s) := by
  induction fs generalizing s with
  | nil => exact refl s
  | cons f fs ih =>
    have hf : Silent s (Parser.free (daemonEnv t lib) s f) := logged (e := .freed f) rfl rfl rfl
    exact hf.trans (ih _)

theorem requestClose (s : Parser Daemon) : Silent s (requestCloseCommand (daemonEnv t lib) s) := by
  rw [requestClose_eq]
  have hfree : Silent s (s.state.frees.foldl (Parser.free (daemonEnv t lib)) s) := free _ s
  exact ⟨hfree.world, hfree.replies⟩

theorem commandToken (h : commandRequest token = none) (s : Parser Daemon) :
    Silent s (Aiqb.commandToken (daemonEnv t lib) token s) := by
  refine commandToken_rule (P := Silent s) token (refl s) ?_ ?_ ⟨rfl, rfl⟩ ⟨rfl, rfl⟩ ?_ ?_
    (requestClose s)
  · unfold registerProblemCommand
    split <;> next he => exact ⟨(congrArg Prod.snd he).symm, rfl⟩
  · unfold registerAnswerCommand
    split <;> next he => exact ⟨(congrArg Prod.snd he).symm, rfl⟩
  · rintro rfl
    cases h
  · rintro rfl
    cases h

end Silent

section Performing

variable {t : Tree} {lib : Library} {s u q v : Parser Daemon} {r : Request} {token : CString}
  {rs : List Request}

theorem Parser.Performs.of_log {r : Parser Daemon} (hw : q.world = r.world)
    (hlog : q.log = s.log ++ r.log) (hs : q.status = r.status) : s.Performs q r :=
  ⟨hw, replies_append hlog, hs⟩

theorem Silent.performs {r : Parser Daemon} (h : Silent s u) (hp : u.Performs q r) :
    s.Performs q r :=
  ⟨hp.world, hp.replies.trans (by rw [h.replies]), hp.status⟩

theorem Silent.does (h : Silent s u) (hd : Parser.Does t lib u rs v) :
    Parser.Does t lib s rs v := by
  cases hd with
  | silent h' => exact .silent (h.trans h')
  | request hp hdef hrest hopen =>
    rw [h.world] at hp
    exact .request (h.performs hp) hdef hrest hopen

theorem Parser.Does.last (h : Parser.Does t lib s rs q) (hv : Silent q v)
    (hopen : v.status = .reading → q.status = .reading) : Parser.Does t lib s rs v := by
  induction h with
  | silent h => exact .silent (h.trans hv)
  | request hp hd _ hrest ih => exact .request hp hd (ih hv hopen) fun hr => hrest (hopen hr)

theorem Parser.Performs.does (h : s.Performs q (r.run t lib s.world))
    (hd : ∀ f, q.status ≠ .fault f) (hv : Silent q v)
    (hopen : v.status = .reading → q.status = .reading) : Parser.Does t lib s [r] v :=
  .request h hd (.silent hv) hopen

end Performing

section Numbers

variable {t : Tree} {lib : Library} {u : Parser Daemon} {r : Request} {token : CString}

theorem leave_performs {v : Parser Daemon} (hw : v.world = u.world) (hl : v.log = u.log)
    (fs : List Freed) :
    u.Performs (Parser.leave (daemonEnv t lib) v .memoryError fs)
      (Request.refuse.run t lib u.world) := by
  have hfree : Silent (v.emit (.reply .memoryError))
      (fs.foldl (Parser.free (daemonEnv t lib)) (v.emit (.reply .memoryError))) := .free fs _
  have hreply : (v.emit (.reply .memoryError)).replies = u.replies ++ [.memoryError] := by
    rw [Parser.replies_emit_reply, Parser.replies, hl]
    rfl
  exact ⟨hfree.world.trans hw, hfree.replies.trans hreply, rfl⟩

theorem integerProblem_performs {d : ProblemDraft} (hst : u.state = .problem d)
    (h : (d.arrayLength u.index v).any (refusesArray lib.malloc) = true) :
    u.Performs (integerProblem (daemonEnv t lib) v u) (Request.refuse.run t lib u.world) := by
  have hok : (assignHeader (daemonEnv t lib) u.world u.index v d).1.isOk = false := by
    rw [assignHeader_isOk]
    exact congrArg not h
  have hw : (assignHeader (daemonEnv t lib) u.world u.index v d).2 = u.world :=
    Quiet.assignHeader_world u.world u.index v d
  simp only [integerProblem, hst]
  split
  · next fs w he =>
    rw [he] at hw
    obtain rfl : w = u.world := hw
    exact leave_performs (u := u) (v := { u with state := .problem d }) rfl rfl fs
  · next he =>
    rw [he] at hok
    cases hok

theorem integerProblem_silent {d : ProblemDraft} (hr : u.status = .reading)
    (hst : u.state = .problem d)
    (h : (d.arrayLength u.index v).any (refusesArray lib.malloc) = false) :
    Silent u (integerProblem (daemonEnv t lib) v u) ∧
      (integerProblem (daemonEnv t lib) v u).status ≠ .returned := by
  have hok : (assignHeader (daemonEnv t lib) u.world u.index v d).1.isOk = true := by
    rw [assignHeader_isOk]
    exact congrArg not h
  have hw : (assignHeader (daemonEnv t lib) u.world u.index v d).2 = u.world :=
    Quiet.assignHeader_world u.world u.index v d
  simp only [integerProblem, hst]
  split
  · next he =>
    rw [he] at hok
    cases hok
  · next d' w he =>
    rw [he] at hw
    split
    · exact ⟨⟨rfl, rfl⟩, Status.noConfusion⟩
    · exact ⟨⟨hw, rfl⟩, hr ▸ Status.noConfusion⟩

theorem integerAnswer_performs {d : AnswerDraft} (hst : u.state = .answer d) (hi : u.index ≠ 0)
    (h : (d.arrayLength u.index v).any (refusesArray lib.malloc) = true) :
    u.Performs (integerAnswer (daemonEnv t lib) v u) (Request.refuse.run t lib u.world) := by
  obtain ⟨x, w, he, hok⟩ := assignAnswer_isOk (daemonEnv t lib) u.world v hi d
  have hno : x.isOk = false := hok.trans (congrArg not h)
  cases Quiet.assignAnswer_world he
  simp only [integerAnswer, hst, he]
  cases x with
  | ok d' => cases hno
  | error fs => exact leave_performs (u := u) (v := { u with state := .answer d }) rfl rfl fs

theorem integerAnswer_silent {d : AnswerDraft} (hr : u.status = .reading)
    (hst : u.state = .answer d) (hi : u.index ≠ 0)
    (h : (d.arrayLength u.index v).any (refusesArray lib.malloc) = false) :
    Silent u (integerAnswer (daemonEnv t lib) v u) ∧
      (integerAnswer (daemonEnv t lib) v u).status ≠ .returned := by
  obtain ⟨x, w, he, hok⟩ := assignAnswer_isOk (daemonEnv t lib) u.world v hi d
  have hyes : x.isOk = true := hok.trans (congrArg not h)
  cases Quiet.assignAnswer_world he
  simp only [integerAnswer, hst, he]
  cases x with
  | ok d' => exact ⟨⟨rfl, rfl⟩, hr ▸ Status.noConfusion⟩
  | error fs => cases hyes

theorem integerToken_performs (hr : u.status = .reading)
    (h : u.state.integerRequest lib.malloc u.index token = some r) :
    u.Performs (integerToken (daemonEnv t lib) token u) (r.run t lib u.world) := by
  rw [integerToken_eq _ _ _ hr]
  cases hst : u.state with
  | idle =>
    rw [hst] at h
    cases h
  | problem d =>
    rw [hst, ParserState.integerRequest, Option.ite_none_right_eq_some, Option.some.injEq] at h
    obtain ⟨hrefused, rfl⟩ := h
    exact integerProblem_performs hst hrefused
  | answer d =>
    rw [hst, ParserState.integerRequest] at h
    split at h
    · next hindex =>
      cases h
      have hrun : (Request.answerProblem d token).run t lib u.world =
          integerAnswer (daemonEnv t lib) (atoul token) (.client u.world (.answer d)) :=
        integerToken_eq _ token _ rfl
      have h0 : (0 : UInt16).toNat = 0 := rfl
      rw [hrun]
      simp only [integerAnswer, assignAnswer, hst, hindex, Parser.client, Parser.start, h0]
      cases (daemonEnv t lib).findDb u.world (atoul token) with
      | none => exact .of_log rfl (List.append_nil _).symm rfl
      | some problem =>
        cases problem with
        | none => exact .of_log rfl (List.append_assoc _ _ _) rfl
        | some p => exact .of_log rfl (List.append_nil _).symm hr
    · next hindex =>
      rw [Option.ite_none_right_eq_some, Option.some.injEq] at h
      obtain ⟨hrefused, rfl⟩ := h
      exact integerAnswer_performs hst hindex hrefused
  | solution =>
    rw [hst] at h
    cases h
    have hrun : (Request.solution token).run t lib u.world =
        integerSolution (daemonEnv t lib) (atoul token) (.client u.world .solution) :=
      integerToken_eq _ token _ rfl
    rw [hrun]
    simp only [integerSolution, hst, Parser.client, Parser.start]
    cases (daemonEnv t lib).findQueue u.world (atoul token) with
    | none => exact .of_log rfl (List.append_nil _).symm rfl
    | some answer =>
      cases answer with
      | none => exact .of_log rfl rfl hr
      | some a =>
        dsimp only
        split <;> exact .of_log rfl rfl hr
  | deleteAnswer =>
    rw [hst] at h
    cases h
    have hrun : (Request.delete token).run t lib u.world =
        integerDeleteAnswer (daemonEnv t lib) (atoul token) (.client u.world .deleteAnswer) :=
      integerToken_eq _ token _ rfl
    rw [hrun]
    simp only [integerDeleteAnswer, hst, Parser.client, Parser.start]
    cases (daemonEnv t lib).extractQueue u.world (atoul token) with
    | none => exact .of_log rfl (List.append_nil _).symm rfl
    | some res =>
      obtain ⟨answer, w⟩ := res
      cases answer with
      | none => exact .of_log rfl rfl hr
      | some a =>
        dsimp only
        cases (daemonEnv t lib).freeAnswer w a with
        | none => exact .of_log rfl (List.append_nil _).symm rfl
        | some w => exact .of_log rfl rfl hr

theorem integerToken_silent (hr : u.status = .reading)
    (h : u.state.integerRequest lib.malloc u.index token = none) :
    Silent u (integerToken (daemonEnv t lib) token u) ∧
      (integerToken (daemonEnv t lib) token u).status ≠ .returned := by
  rw [integerToken_eq _ _ _ hr]
  cases hst : u.state with
  | idle => exact ⟨.refl u, hr ▸ Status.noConfusion⟩
  | problem d =>
    rw [hst, ParserState.integerRequest, ite_eq_right_iff] at h
    exact integerProblem_silent hr hst (Bool.eq_false_iff.mpr fun he => nomatch h he)
  | answer d =>
    rw [hst, ParserState.integerRequest] at h
    split at h
    · cases h
    · next hindex =>
      rw [ite_eq_right_iff] at h
      exact integerAnswer_silent hr hst hindex (Bool.eq_false_iff.mpr fun he => nomatch h he)
  | solution | deleteAnswer =>
    rw [hst] at h
    cases h

theorem completeProblem_performs (d : ProblemDraft) (hr : u.status = .reading) :
    u.Performs (completeProblem (daemonEnv t lib) d u)
      ((Request.registerProblem d).run t lib u.world) := by
  simp only [Request.run, completeProblem, daemonEnv, Parser.client, Parser.start,
    Option.bind_some]
  cases aiqbdRegisterProblem t lib u.world d.val with
  | none => exact .of_log rfl rfl rfl
  | some res => exact .of_log rfl (List.append_assoc _ _ _) hr

theorem completeAnswer_performs (d : AnswerDraft) (hr : u.status = .reading) :
    u.Performs (completeAnswer (daemonEnv t lib) d u)
      ((Request.registerAnswer d).run t lib u.world) := by
  simp only [Request.run, completeAnswer, daemonEnv, Parser.client, Parser.start,
    Option.bind_some]
  cases registerParsedAnswer u.world d.val with
  | none => exact .of_log rfl rfl rfl
  | some res => exact .of_log rfl (List.append_assoc _ _ _) hr

theorem floatToken_performs (hr : u.status = .reading)
    (h : u.state.floatRequest u.index (lib.atof token) = some r) :
    u.Performs (floatToken (daemonEnv t lib) token u) (r.run t lib u.world) := by
  rw [floatToken_eq _ _ _ hr]
  cases hst : u.state with
  | idle | solution | deleteAnswer =>
    rw [hst] at h
    cases h
  | problem d =>
    rw [hst, ParserState.floatRequest, Option.bind_eq_some_iff] at h
    obtain ⟨d', hstore, h⟩ := h
    rw [Option.ite_none_right_eq_some, Option.some.injEq] at h
    obtain ⟨htotal, rfl⟩ := h
    have hstore' : storePoint u.index.toUInt64 ((daemonEnv t lib).atof token) d = some d' := hstore
    simp only [floatProblem, hst, hstore', htotal, ↓reduceIte]
    let v : Parser Daemon := { u with state := .problem d', index := u.index + 1 }
    have hp : v.Performs (completeProblem (daemonEnv t lib) d' v) _ :=
      completeProblem_performs d' hr
    exact ⟨hp.world, hp.replies, hp.status⟩
  | answer d =>
    rw [hst, ParserState.floatRequest, Option.bind_eq_some_iff] at h
    obtain ⟨d', hstore, h⟩ := h
    rw [Option.ite_none_right_eq_some, Option.some.injEq] at h
    obtain ⟨htotal, rfl⟩ := h
    have hstore' : storeOutput u.index.toUInt64 ((daemonEnv t lib).atof token) d = some d' := hstore
    simp only [floatAnswer, hst, hstore', htotal, ↓reduceIte]
    let v : Parser Daemon := { u with state := .answer d', index := u.index + 1 }
    have hp : v.Performs (completeAnswer (daemonEnv t lib) d' v) _ :=
      completeAnswer_performs d' hr
    exact ⟨hp.world, hp.replies, hp.status⟩

theorem floatToken_silent (hr : u.status = .reading)
    (h : u.state.floatRequest u.index (lib.atof token) = none) :
    Silent u (floatToken (daemonEnv t lib) token u) ∧
      (floatToken (daemonEnv t lib) token u).status ≠ .returned := by
  have hreading : u.status ≠ .returned := hr ▸ Status.noConfusion
  rw [floatToken_eq _ _ _ hr]
  cases hst : u.state with
  | idle | solution | deleteAnswer => exact ⟨.refl u, hreading⟩
  | problem d =>
    rw [hst, ParserState.floatRequest] at h
    simp only [floatProblem, hst]
    split
    · exact ⟨⟨rfl, rfl⟩, Status.noConfusion⟩
    · next d' hstore =>
      have hstore' : storePoint u.index.toUInt64 (lib.atof token) d = some d' := hstore
      rw [hstore', Option.bind_some, ite_eq_right_iff] at h
      split
      · next htotal => cases h htotal
      · exact ⟨⟨rfl, rfl⟩, hreading⟩
  | answer d =>
    rw [hst, ParserState.floatRequest] at h
    simp only [floatAnswer, hst]
    split
    · exact ⟨⟨rfl, rfl⟩, Status.noConfusion⟩
    · next d' hstore =>
      have hstore' : storeOutput u.index.toUInt64 (lib.atof token) d = some d' := hstore
      rw [hstore', Option.bind_some, ite_eq_right_iff] at h
      split
      · next htotal => cases h htotal
      · exact ⟨⟨rfl, rfl⟩, hreading⟩

end Numbers

section Commands

variable {u : Parser Daemon} {r : Request} {token : CString}

theorem commandToken_performs (t : Tree) (lib : Library) (hr : u.status = .reading)
    (h : commandRequest token = some r) :
    u.Performs (commandToken (daemonEnv t lib) token u) (r.run t lib u.world) ∧
      (commandToken (daemonEnv t lib) token u).status = .reading := by
  unfold commandRequest at h
  split at h
  · next ht =>
    cases h
    subst ht
    exact ⟨.of_log rfl rfl hr, hr⟩
  · rw [Option.ite_none_right_eq_some] at h
    obtain ⟨rfl, h⟩ := h
    cases h
    exact ⟨.of_log rfl rfl hr, hr⟩

end Commands

section Bytes

variable {t : Tree} {lib : Library} {s u v : Parser Daemon} {c : UInt8} {r : Request}
  {token : CString} {flags : TokenFlags}

theorem Request.run_status (r : Request) (t : Tree) (lib : Library) {w : Daemon}
    (hd : ∀ f, (r.run t lib w).status ≠ .fault f) :
    (r.run t lib w).status = if r.closes w then .returned else .reading := by
  cases r with
  | solution token =>
    have hrun : (Request.solution token).run t lib w =
        integerSolution (daemonEnv t lib) (atoul token) (.client w .solution) :=
      integerToken_eq _ token _ rfl
    rw [hrun] at hd ⊢
    simp only [integerSolution, Parser.client, Parser.start] at hd ⊢
    split
    · next hfind =>
      rw [hfind] at hd
      exact absurd rfl (hd .undefinedCall)
    · rfl
    · split <;> rfl
  | delete token =>
    have hrun : (Request.delete token).run t lib w =
        integerDeleteAnswer (daemonEnv t lib) (atoul token) (.client w .deleteAnswer) :=
      integerToken_eq _ token _ rfl
    rw [hrun] at hd ⊢
    simp only [integerDeleteAnswer, Parser.client, Parser.start] at hd ⊢
    split at hd
    · exact absurd rfl (hd .undefinedCall)
    · rfl
    · split at hd
      · exact absurd rfl (hd .undefinedCall)
      · rfl
  | answerProblem d token =>
    have hrun : (Request.answerProblem d token).run t lib w =
        integerAnswer (daemonEnv t lib) (atoul token) (.client w (.answer d)) :=
      integerToken_eq _ token _ rfl
    have hindex : (0 : UInt16).toNat = 0 := rfl
    have hcloses : (Request.answerProblem d token).closes w =
        decide ((daemonEnv t lib).findDb w (atoul token) = some none) := rfl
    rw [hrun] at hd ⊢
    rw [hcloses]
    simp only [integerAnswer, assignAnswer, Parser.client, Parser.start, hindex] at hd ⊢
    cases hfind : (daemonEnv t lib).findDb w (atoul token) with
    | none =>
      rw [hfind] at hd
      exact absurd rfl (hd .undefinedCall)
    | some problem => cases problem <;> rfl
  | registerAnswer d =>
    simp only [Request.run, completeAnswer, daemonEnv, Parser.client, Parser.start,
      Option.bind_some] at hd ⊢
    split at hd
    · exact absurd rfl (hd .undefinedCall)
    · rfl
  | registerProblem d =>
    simp only [Request.run, completeProblem, daemonEnv, Parser.client, Parser.start,
      Option.bind_some] at hd ⊢
    split at hd
    · exact absurd rfl (hd .undefinedCall)
    · rfl
  | listProblems => rfl
  | listAnswers => rfl
  | refuse => rfl

theorem analyseNumber_does (t : Tree) (lib : Library) (token : CString) (flags : TokenFlags)
    (hr : u.status = .reading) :
    match u.state.numberRequest lib flags u.index token with
    | none =>
      Silent u ((analyseInteger (daemonEnv t lib) token flags u).andThen
        (analyseFloat (daemonEnv t lib) token flags)) ∧
      ((analyseInteger (daemonEnv t lib) token flags u).andThen
        (analyseFloat (daemonEnv t lib) token flags)).status ≠ .returned
    | some r =>
      u.Performs ((analyseInteger (daemonEnv t lib) token flags u).andThen
        (analyseFloat (daemonEnv t lib) token flags)) (r.run t lib u.world) := by
  unfold ParserState.numberRequest
  by_cases hi : flags.isInteger
  · have hf : ¬ flags.isFloat := TokenFlags.isInteger_not_isFloat hi
    have hemit : Silent u (u.emit (.printed .integer token)) :=
      .emit (e := .printed .integer token) rfl u
    rw [Parser.andThen_same (analyseFloat_other hf _), analyseInteger, if_pos hi, if_pos hi]
    cases h : u.state.integerRequest lib.malloc u.index token with
    | none =>
      obtain ⟨hsilent, hst⟩ := integerToken_silent (u := u.emit (.printed .integer token)) hr h
      exact ⟨hemit.trans hsilent, hst⟩
    | some r =>
      exact hemit.performs (integerToken_performs (u := u.emit (.printed .integer token)) hr h)
  rw [analyseInteger, if_neg hi, if_neg hi, Parser.andThen_reading hr, analyseFloat]
  by_cases hf : flags.isFloat
  · have hemit : Silent u (u.emit (.printed .float token)) :=
      .emit (e := .printed .float token) rfl u
    rw [if_pos hf, if_pos hf]
    cases h : u.state.floatRequest u.index (lib.atof token) with
    | none =>
      obtain ⟨hsilent, hst⟩ := floatToken_silent (u := u.emit (.printed .float token)) hr h
      exact ⟨hemit.trans hsilent, hst⟩
    | some r =>
      exact hemit.performs (floatToken_performs (u := u.emit (.printed .float token)) hr h)
  · rw [if_neg hf, if_neg hf]
    exact ⟨.refl u, hr ▸ Status.noConfusion⟩

theorem analyseCommand_does (t : Tree) (lib : Library) (hr : u.status = .reading) :
    Parser.Does t lib u (if flags.isCommand then commandRequest token else none).toList
      (analyseCommand (daemonEnv t lib) token flags u) := by
  have hemit : Silent u (u.emit (.printed .command token)) :=
    .emit (e := .printed .command token) rfl u
  unfold analyseCommand
  split
  · cases h : commandRequest token with
    | none => exact .silent (hemit.trans (.commandToken h _))
    | some r =>
      obtain ⟨hp, hst⟩ := commandToken_performs t lib
        (u := u.emit (.printed .command token)) hr h
      have hd : ∀ f, (commandToken (daemonEnv t lib) token
          (u.emit (.printed .command token))).status ≠ .fault f :=
        fun f => hst ▸ Status.noConfusion
      exact (hemit.performs hp).does hd (.refl _) id
  · exact .silent (.refl u)

theorem analyse_does (hr : u.status = .reading)
    (hd : ∀ f, (analyse (daemonEnv t lib) token flags u).status ≠ .fault f) :
    Parser.Does t lib u (u.state.requests lib u.world flags u.index token)
      (analyse (daemonEnv t lib) token flags u) := by
  let v : Parser Daemon := u.emit (.printed .any token)
  have hv : Silent u v := .emit (e := .printed .any token) rfl u
  have hnumber := analyseNumber_does t lib token flags (u := v) hr
  change Parser.Does t lib u (v.state.requests lib v.world flags v.index token) _
  unfold analyse ParserState.requests at *
  change ∀ f, (Parser.andThen (Parser.andThen (analyseInteger _ _ flags v) _) _).status ≠ _ at hd
  change Parser.Does t lib u _ (Parser.andThen (Parser.andThen (analyseInteger _ _ flags v) _) _)
  generalize hn : (analyseInteger (daemonEnv t lib) token flags v).andThen
    (analyseFloat (daemonEnv t lib) token flags) = n at hnumber hd ⊢
  apply hv.does
  cases hnum : v.state.numberRequest lib flags v.index token with
  | none =>
    rw [hnum] at hnumber
    obtain ⟨hsilent, hst⟩ := hnumber
    have hreading : n.status = .reading := by
      by_contra hno
      rw [Parser.andThen_left hno] at hd
      cases he : n.status with
      | reading => exact hno he
      | returned => exact hst he
      | fault f => exact hd f he
    rw [Parser.andThen_reading hreading]
    refine hsilent.does ?_
    simpa using analyseCommand_does t lib hreading
  | some r =>
    rw [hnum] at hnumber
    have hp : v.Performs n (r.run t lib v.world) := hnumber
    have hdn : ∀ f, n.status ≠ .fault f := by
      intro f hf
      have hno : n.status ≠ .reading := hf ▸ Status.noConfusion
      rw [Parser.andThen_left hno] at hd
      exact hd f hf
    have hst := r.run_status t lib fun f => hp.status ▸ hdn f
    rw [← hp.status] at hst
    by_cases hc : r.closes v.world
    · have hno : n.status ≠ .reading := by
        rw [hst, if_pos hc]
        exact Status.noConfusion
      rw [Parser.andThen_left hno]
      simpa [hc] using hp.does hdn (.refl n) id
    · rw [if_neg hc] at hst
      rw [Parser.andThen_reading hst]
      refine .request hp hdn ?_ fun _ => hst
      simpa [hc] using analyseCommand_does t lib hst

/-- A byte has done what it asks for, in order, and nothing else. -/
theorem parserChar_does (hr : s.status = .reading)
    (hd : ∀ f, (parserChar (daemonEnv t lib) s c).status ≠ .fault f) :
    Parser.Does t lib s (s.requests lib s.world c) (parserChar (daemonEnv t lib) s c) := by
  unfold Parser.requests
  split
  · next h =>
    obtain ⟨hends, hlen⟩ := h
    let u : Parser Daemon := { s with char := 0, tokenFlags := s.tokenFlags.count c }
    have hu : Silent s u := ⟨rfl, rfl⟩
    rw [parserChar_ends hends hlen] at hd ⊢
    change ∀ f, (Parser.andThen (analyse _ _ _ u) _).status ≠ _ at hd
    change Parser.Does t lib s (u.state.requests lib u.world _ u.index s.token)
      (Parser.andThen (analyse _ _ _ u) _)
    by_cases hreading :
        (analyse (daemonEnv t lib) s.token (s.tokenFlags.count c) u).status = .reading
    · rw [Parser.andThen_reading hreading] at hd ⊢
      exact (hu.does (analyse_does hr hd)).last ⟨rfl, rfl⟩ id
    · rw [Parser.andThen_left hreading] at hd ⊢
      exact hu.does (analyse_does hr hd)
  · next h =>
    apply Parser.Does.silent
    apply parserChar_rule (P := Silent s) (.refl s) hr
    · exact fun u u' hsame hu => hu.trans (.same hsame)
    · exact ⟨rfl, rfl⟩
    · exact fun u label _ hu => hu.trans (.emit (e := .printed label s.token) rfl u)
    · exact fun hends hlen => absurd ⟨hends, hlen⟩ h
    · exact fun hends hlen => absurd ⟨hends, hlen⟩ h
    · exact fun hends hlen => absurd ⟨hends, hlen⟩ h

end Bytes

end Aiqb
