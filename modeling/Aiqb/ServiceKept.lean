import Aiqb.AnswerTold
import Aiqb.Daemon
import Aiqb.ParserFrame
import Aiqb.StoreTracks

namespace Aiqb
set_option autoImplicit true

/-- What holds of the daemon in every run. -/
structure Service.Kept (s : Service) (b : AnswerBook) (c : ProblemBook) : Prop where
  answers : Represents s.daemon.answers b
  told : b.Told s.told
  store : s.daemon.store.Tracks c

@[simp] theorem Parser.replies_emit_reply (s : Parser W) (r : Reply) :
    (s.emit (.reply r)).replies = s.replies ++ [r] :=
  List.filterMap_append

@[simp] theorem Parser.replies_emit_printed (s : Parser W) (label : TokenClass) (token : CString) :
    (s.emit (.printed label token)).replies = s.replies := by
  rw [replies, emit_log, List.filterMap_append]
  exact List.append_nil _

section Requests

variable {t : Tree} {lib : Library} {w : Daemon} {b : AnswerBook} {c : ProblemBook}

theorem ring_findQueue (hr : Ring w.answers.heap w.answers.answers xs) (id : UInt64) :
    (daemonEnv t lib).findQueue w id =
      some ((lookupId w.answers.heap.valOf xs id).bind w.answers.heap.valOf) := by
  simp only [daemonEnv, findQueue_spec hr, Option.bind_eq_bind, Option.bind_some]
  cases hl : lookupId w.answers.heap.valOf xs id with
  | none => rfl
  | some p =>
    obtain ⟨a, ha⟩ := Heap.live_iff_val.mp (hr.live (lookupId_mem hl))
    simp only [Option.bind_some, ha, Option.map_some]

theorem daemon_findDb (hk : w.store.side.Keeps c) (id : UInt64) :
    (daemonEnv t lib).findDb w id = some (lookupDb c.val c.problems (some (.byId id))) := by
  simp only [daemonEnv, findDb_spec hk.problems, hk.val]

def Reply.ofAnswer : Option AnswerT → Reply
  | none => .unknownError
  | some a => if a.status = statusSolved then .solution a else .notReady

theorem integerSolution_eq (t : Tree) (lib : Library) (id : UInt64) {u : Parser Daemon}
    (hstate : u.state = .solution)
    (hr : Ring u.world.answers.heap u.world.answers.answers xs) :
    integerSolution (daemonEnv t lib) id u = u.idle.emit
      (.reply (.ofAnswer ((lookupId u.world.answers.heap.valOf xs id).bind
        u.world.answers.heap.valOf))) := by
  simp only [integerSolution, hstate, ring_findQueue hr]
  cases (lookupId u.world.answers.heap.valOf xs id).bind u.world.answers.heap.valOf with
  | none => rfl
  | some a =>
    by_cases ha : a.status = statusSolved
    · simp only [Reply.ofAnswer, ha, ne_eq, not_true_eq_false, ↓reduceIte]
    · simp only [Reply.ofAnswer, ha, ne_eq, not_false_eq_true, ↓reduceIte]

theorem integerSolution_run (t : Tree) (lib : Library) (id : UInt64) {u : Parser Daemon}
    (hstate : u.state = .solution)
    (hr : Ring u.world.answers.heap u.world.answers.answers xs) (hread : u.status = .reading) :
    (integerSolution (daemonEnv t lib) id u).world = u.world ∧
      (integerSolution (daemonEnv t lib) id u).replies = u.replies ++
        [.ofAnswer ((lookupId u.world.answers.heap.valOf xs id).bind
          u.world.answers.heap.valOf)] ∧
      (integerSolution (daemonEnv t lib) id u).status = .reading := by
  rw [integerSolution_eq t lib id hstate hr]
  exact ⟨rfl, Parser.replies_emit_reply _ _, hread⟩

theorem solution_run (hr : Represents w.answers b) (token : CString) :
    ((Request.solution token).run t lib w).world = w ∧
      ((Request.solution token).run t lib w).replies =
        [.ofAnswer ((lookupId b.val b.answers (atoul token)).bind b.val)] := by
  have hrun : (Request.solution token).run t lib w =
      integerSolution (daemonEnv t lib) (atoul token) (.client w .solution) :=
    integerToken_eq _ token _ rfl
  obtain ⟨hworld, hreplies, _⟩ := integerSolution_run t lib (atoul token)
    (u := .client w .solution) rfl hr.holds.answers rfl
  rw [hrun]
  refine ⟨hworld, ?_⟩
  rw [hreplies, ← hr.val]
  rfl

theorem delete_run (t : Tree) (lib : Library) (hr : Represents w.answers b) (token : CString) :
    ∃ answers, ((Request.delete token).run t lib w).world = { w with answers := answers } ∧
      Represents answers (b.delete (atoul token)) := by
  have hrun : (Request.delete token).run t lib w =
      integerDeleteAnswer (daemonEnv t lib) (atoul token) (.client w .deleteAnswer) :=
    integerToken_eq _ token _ rfl
  obtain ⟨answers, hdelete, hr'⟩ := hr.delete (atoul token)
  refine ⟨answers, ?_, hr'⟩
  rw [hrun]
  simp only [integerDeleteAnswer, Parser.client, Parser.start, daemonEnv]
  unfold deleteAnswer at hdelete
  cases he : extractQueue w.answers.heap w.answers.answers (atoul token) with
  | none =>
    rw [he] at hdelete
    cases hdelete
  | some res =>
    obtain ⟨h, queue, answer⟩ := res
    simp only [he, Option.bind_eq_bind, Option.bind_some] at hdelete ⊢
    cases answer with
    | none =>
      simp only [Option.some.injEq, Prod.mk.injEq] at hdelete
      rw [← hdelete.1]
      rfl
    | some p =>
      cases hf : h.free p with
      | none =>
        simp only [hf, Option.bind_none] at hdelete
        cases hdelete
      | some h' =>
        simp only [hf, Option.bind_some, Option.some.injEq, Prod.mk.injEq] at hdelete ⊢
        rw [← hdelete.1]
        rfl

theorem answer_problem_run (hk : w.store.side.Keeps c) (d : AnswerDraft) (token : CString) :
    ((Request.answerProblem d token).run t lib w).world = w ∧
      ((Request.answerProblem d token).run t lib w).replies =
        match lookupDb c.val c.problems (some (.byId (atoul token))) with
        | none => [.unknownError]
        | some _ => [] := by
  have hrun : (Request.answerProblem d token).run t lib w =
      integerAnswer (daemonEnv t lib) (atoul token) (.client w (.answer d)) :=
    integerToken_eq _ token _ rfl
  have hindex : (0 : UInt16).toNat = 0 := rfl
  rw [hrun]
  simp only [integerAnswer, assignAnswer, Parser.client, Parser.start, hindex, daemon_findDb hk,
    Option.map_some]
  cases lookupDb c.val c.problems (some (.byId (atoul token))) with
  | none => exact ⟨rfl, rfl⟩
  | some p => exact ⟨rfl, rfl⟩

theorem register_answer_run (t : Tree) (lib : Library) (hr : Represents w.answers b)
    (d : AnswerDraft) :
    ∃ answers, ((Request.registerAnswer d).run t lib w).world = { w with answers := answers } ∧
      ((Request.registerAnswer d).run t lib w).replies =
        [.answerOk (assignedId (idsOf b.val b.answers) d.val.id)] ∧
      Represents answers (b.join d.val) := by
  obtain ⟨answers, hjoin, hr'⟩ := hr.join d.val
  have hreg : registerParsedAnswer w d.val =
      some (assignedId (idsOf b.val b.answers) d.val.id, { w with answers := answers }) := by
    rw [registerParsedAnswer, hjoin]
    rfl
  refine ⟨answers, ?_, ?_, hr'⟩
  · simp only [Request.run, completeAnswer, daemonEnv, Parser.client, Parser.start,
      Option.bind_some, hreg]
    rfl
  · simp only [Request.run, completeAnswer, daemonEnv, Parser.client, Parser.start,
      Option.bind_some, hreg]
    rfl

theorem register_problem_run (d : ProblemDraft)
    (hs : ∀ f, ((Request.registerProblem d).run t lib w).status ≠ .fault f) :
    ∃ id, aiqbdRegisterProblem t lib w d.val =
      some (id, ((Request.registerProblem d).run t lib w).world) := by
  simp only [Request.run, completeProblem, daemonEnv, Parser.client, Parser.start,
    Option.bind_some] at hs ⊢
  cases hreg : aiqbdRegisterProblem t lib w d.val with
  | none =>
    rw [hreg] at hs
    exact absurd rfl (hs .undefinedCall)
  | some res => exact ⟨res.1, rfl⟩

theorem aiqbdRegisterProblem_tracks {w' : Daemon} {id : UInt64} (h : w.store.Tracks c)
    (hs : aiqbdRegisterProblem t lib w problem = some (id, w')) :
    w'.answers = w.answers ∧ ∃ c', w'.store.Tracks c' := by
  simp only [aiqbdRegisterProblem, Option.bind_eq_bind, Option.bind_eq_some_iff] at hs
  obtain ⟨⟨store, id⟩, hreg, hs⟩ := hs
  obtain ⟨c₁, h₁⟩ := h.register hreg
  cases id with
  | none =>
    cases hs
    exact ⟨rfl, c₁, h₁⟩
  | some id =>
    obtain ⟨store', hinsert, hs⟩ := Option.bind_eq_some_iff.mp hs
    cases hs
    exact ⟨rfl, h₁.onSide (e := .insert _) nofun hinsert⟩

theorem Request.tells_other {r : Request} (hr : ∀ d, r ≠ .registerAnswer d)
    (replies : List Reply) : r.tells w replies = [] := by
  cases r with
  | registerAnswer d => exact absurd rfl (hr d)
  | _ => rfl

theorem requestStep_some {s s' : Service} {r : Request} (hs : requestStep t s lib r = some s') :
    (∀ f, (r.run t lib s.daemon).status ≠ .fault f) ∧
      s' = ⟨(r.run t lib s.daemon).world, s.sent ++ (r.run t lib s.daemon).replies,
        s.told ++ r.tells s.daemon (r.run t lib s.daemon).replies⟩ := by
  simp only [requestStep] at hs
  split at hs
  · cases hs
  · next hst => exact ⟨hst, (Option.some.inj hs).symm⟩

end Requests

/-- All that a step of the daemon can do: a request, a step of the answers, or one of the store that
neither registers a problem nor starts anew. -/
theorem serviceStep_cases {t : Tree} {s s' : Service} {e : ServiceEvent}
    (hs : serviceStep t s e = some s') :
    (∃ lib r, e = .request lib r ∧ requestStep t s lib r = some s') ∨
    (∃ a, (a = .dispatch ∨ ∃ p, a = .complete p ∧ e = .completeAnswer p) ∧
      s.onAnswers a = some s') ∨
    ∃ a, (∀ r, a ≠ .register r) ∧ (∀ cwd size entries, a ≠ .restart cwd size entries) ∧
      s.onStore t a = some s' := by
  cases e with
  | request lib r => exact .inl ⟨lib, r, rfl, hs⟩
  | dispatchAnswer => exact .inr (.inl ⟨_, .inl rfl, hs⟩)
  | completeAnswer answer => exact .inr (.inl ⟨_, .inr ⟨answer, rfl, rfl⟩, hs⟩)
  | dispatchProblem => exact .inr (.inr ⟨.dispatch, nofun, nofun, hs⟩)
  | completeProblem problem now pad =>
    exact .inr (.inr ⟨.complete problem now pad, nofun, nofun, hs⟩)
  | takeSolved problem => exact .inr (.inr ⟨.takeSolved problem, nofun, nofun, hs⟩)
  | giveBack atom => exact .inr (.inr ⟨.giveBack atom, nofun, nofun, hs⟩)

namespace Service.Kept

variable {t : Tree} {s s' : Service} {b : AnswerBook} {c : ProblemBook} {xs : List Ptr}

theorem request (h : s.Kept b c) (hs : requestStep t s lib r = some s') :
    ∃ b' c', s'.Kept b' c' := by
  obtain ⟨hfault, rfl⟩ := requestStep_some hs
  cases r with
  | solution token =>
    rw [(solution_run h.answers token).1, Request.tells_other (r := .solution token) nofun,
      List.append_nil]
    exact ⟨b, c, h.answers, h.told, h.store⟩
  | delete token =>
    obtain ⟨answers, hworld, hr⟩ := delete_run t lib h.answers token
    rw [hworld, Request.tells_other (r := .delete token) nofun, List.append_nil]
    exact ⟨_, c, hr, h.told.delete _, h.store⟩
  | answerProblem d token =>
    rw [(answer_problem_run h.store.keeps d token).1,
      Request.tells_other (r := .answerProblem d token) nofun, List.append_nil]
    exact ⟨b, c, h.answers, h.told, h.store⟩
  | registerAnswer d =>
    obtain ⟨answers, hworld, hreplies, hr⟩ := register_answer_run t lib h.answers d
    rw [hworld, hreplies]
    refine ⟨_, c, hr, ?_, h.store⟩
    rw [Request.tells, h.answers.size]
    exact h.told.join d.val
  | registerProblem d =>
    obtain ⟨id, hreg⟩ := register_problem_run d hfault
    obtain ⟨hanswers, c', htracks⟩ := aiqbdRegisterProblem_tracks h.store hreg
    rw [Request.tells_other (r := .registerProblem d) nofun, List.append_nil]
    exact ⟨b, c', hanswers ▸ h.answers, h.told, htracks⟩
  | listProblems =>
    rw [Request.tells_other (r := .listProblems) nofun, List.append_nil]
    exact ⟨b, c, h.answers, h.told, h.store⟩
  | listAnswers =>
    rw [Request.tells_other (r := .listAnswers) nofun, List.append_nil]
    exact ⟨b, c, h.answers, h.told, h.store⟩
  | refuse =>
    rw [Request.tells_other (r := .refuse) nofun, List.append_nil]
    exact ⟨b, c, h.answers, h.told, h.store⟩

theorem onAnswers (h : s.Kept b c) (hs : s.onAnswers e = some s') : ∃ b', s'.Kept b' c := by
  obtain ⟨answers, hstep, rfl⟩ := Option.map_eq_some_iff.mp hs
  obtain ⟨b', hb, hr⟩ := optionRel_left (h.answers.step e) hstep
  exact ⟨b', hr, h.told.step hb, h.store⟩

theorem onStore (h : s.Kept b c) (he : ∀ cwd size entries, e ≠ .restart cwd size entries)
    (hs : s.onStore t e = some s') : ∃ c', s'.Kept b c' := by
  obtain ⟨store, hstep, rfl⟩ := Option.map_eq_some_iff.mp hs
  obtain ⟨c', hc⟩ := h.store.step he hstep
  exact ⟨c', h.answers, h.told, hc⟩

theorem step (h : s.Kept b c) (hs : serviceStep t s e = some s') : ∃ b' c', s'.Kept b' c' := by
  rcases serviceStep_cases hs with ⟨lib, r, rfl, hs⟩ | ⟨a, _, hs⟩ | ⟨a, _, hrestart, hs⟩
  · exact h.request hs
  · obtain ⟨b', hb⟩ := h.onAnswers hs
    exact ⟨b', c, hb⟩
  · obtain ⟨c', hc⟩ := h.onStore hrestart hs
    exact ⟨b, c', hc⟩

end Service.Kept

end Aiqb
