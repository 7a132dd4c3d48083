import Aiqb.SentStored
import Aiqb.SolutionsSent

namespace Aiqb
set_option autoImplicit true

/-- A request is answered from some state of the answers. After an answer whose problem was not
found the connection would be closed. -/
structure Request.Told (r : Request) (rs : List Reply) : Prop where
  answers : ∃ b, r.Answers b rs
  problem : ∀ d token, r = .answerProblem d token → rs = []

/-- What a client is told for a message: nothing for a state, and only that it was done for a list
or an answer that is deleted. -/
def ClientMessage.Told : ClientMessage → List Reply → Prop
  | .problem _, rs => ∃ id, rs = [.problemOk id]
  | .answer _, rs => ∃ id, rs = [.answerOk id]
  | .solution token, rs => rs = [.unknownError] ∨ rs = [.notReady] ∨
      ∃ a, rs = [.solution a] ∧ a.status = statusSolved ∧ (atoul token ≠ 0 → a.id = atoul token)
  | .deleteAnswer _, rs => rs = [.idle] ∨ rs = [.unknownError]
  | .state, rs => rs = []
  | .problems, rs => rs = [.idle]
  | .answers, rs => rs = [.idle]

section Steps

variable {κ : Type} [DecidableEq κ] {t : Tree} {lib : Library} {s s' : Server κ} {i : κ}
  {e : ServerEvent κ} {p q : Parser Daemon} {rs : List Request} {b : AnswerBook}

theorem Parser.Does.told (h : Parser.Does t lib p rs q) (hr : Represents p.world.answers b)
    (hreading : q.status = .reading) :
    ∃ rss, List.Forall₂ Request.Told rs rss ∧ q.replies = p.replies ++ rss.flatten := by
  induction h generalizing b with
  | silent h => exact ⟨[], .nil, h.replies.trans (List.append_nil _).symm⟩
  | @request q rs v p r hp hd _ hopen ih =>
    have hst : (r.run t lib p.world).status = .reading := hp.status ▸ hopen hreading
    have hdef : ∀ f, (r.run t lib p.world).status ≠ .fault f := fun f => hp.status ▸ hd f
    obtain ⟨hr', hanswers⟩ := request_answers hr hdef
    rw [← hp.world] at hr'
    obtain ⟨rss, hrss, hreplies⟩ := ih hr' hreading
    refine ⟨(r.run t lib p.world).replies :: rss, .cons ⟨⟨b, hanswers⟩, ?_⟩ hrss, ?_⟩
    · rintro d token rfl
      exact (answer_problem_replies d token hdef).2.2 hst
    · rw [hreplies, hp.replies, List.append_assoc]
      rfl

end Steps

section Runs

variable {κ : Type} [DecidableEq κ] {t : Tree} {s s' : Server κ} {i : κ}
  {es pre : List (ServerEvent κ)} {w : Daemon} {limit : UInt32} {ms : List ClientMessage}

theorem Request.Told.solution {token : CString} {rs : List Reply}
    (h : (Request.solution token).Told rs) : (ClientMessage.solution token).Told rs := by
  obtain ⟨b, hb⟩ := h.answers
  rw [Request.Answers] at hb
  rw [ClientMessage.Told, hb]
  cases hl : lookupId b.val b.answers (atoul token) with
  | none => exact .inl rfl
  | some p =>
    rw [Option.bind_some]
    cases hv : b.val p with
    | none => exact .inl rfl
    | some a =>
      rw [Reply.ofAnswer]
      split
      · next hsolved =>
        refine .inr (.inr ⟨a, rfl, hsolved, fun h0 => ?_⟩)
        rw [lookupId, if_neg h0] at hl
        have hfound := List.find?_some hl
        rw [hv, Option.any_some, beq_iff_eq] at hfound
        exact hfound.symm
      · exact .inr (.inl rfl)

/-- The requests that a message makes are answered as the message is. -/
theorem ClientMessage.Makes.told {m : ClientMessage} {rs : List Request} {rss : List (List Reply)}
    (h : m.Makes atof rs) (hrss : List.Forall₂ Request.Told rs rss) : m.Told rss.flatten := by
  cases h with
  | problem hd =>
    obtain _ | ⟨htold, ⟨⟩⟩ := hrss
    obtain ⟨b, hb⟩ := htold.answers
    obtain ⟨id, rfl⟩ := hb
    exact ⟨id, rfl⟩
  | answer hd =>
    obtain _ | ⟨hproblem, _ | ⟨htold, ⟨⟩⟩⟩ := hrss
    obtain rfl := hproblem.problem _ _ rfl
    obtain ⟨b, hb⟩ := htold.answers
    rw [Request.Answers] at hb
    subst hb
    exact ⟨_, rfl⟩
  | solution token =>
    obtain _ | ⟨htold, ⟨⟩⟩ := hrss
    rw [List.flatten_cons, List.flatten_nil, List.append_nil]
    exact htold.solution
  | deleteAnswer token =>
    obtain _ | ⟨htold, ⟨⟩⟩ := hrss
    obtain ⟨b, hb⟩ := htold.answers
    rw [Request.Answers] at hb
    rw [ClientMessage.Told, hb]
    split
    · exact .inl rfl
    · exact .inr rfl
  | state =>
    cases hrss
    rfl
  | problems | answers =>
    obtain _ | ⟨htold, ⟨⟩⟩ := hrss
    obtain ⟨b, hb⟩ := htold.answers
    rw [Request.Answers] at hb
    subst hb
    rfl

end Runs

section Sample

end Sample

end Aiqb
