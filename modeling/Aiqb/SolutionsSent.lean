import Aiqb.ServerStored

namespace Aiqb
set_option autoImplicit true

def Request.answerBook (b : AnswerBook) : Request → AnswerBook
  | .delete token => b.delete (atoul token)
  | .registerAnswer d => b.join d.val
  | _ => b

/-- What the client is told for a request, from the answers. -/
def Request.Answers (b : AnswerBook) (rs : List Reply) : Request → Prop
  | .solution token => rs = [.ofAnswer ((lookupId b.val b.answers (atoul token)).bind b.val)]
  | .delete token =>
    rs = if (lookupId b.val b.answers (atoul token)).isSome then [.idle] else [.unknownError]
  | .answerProblem _ _ => rs = [] ∨ rs = [.unknownError]
  | .registerAnswer d => rs = [.answerOk (assignedId (idsOf b.val b.answers) d.val.id)]
  | .registerProblem _ => ∃ id, rs = [.problemOk id]
  | .listProblems => rs = [.idle]
  | .listAnswers => rs = [.idle]
  | .refuse => rs = [.memoryError]

structure AnswerT.Keeps (a c : AnswerT) : Prop where
  problem : a.problem = c.problem
  sizeX : a.sizeX = c.sizeX
  sizeY : a.sizeY = c.sizeY
  data : a.data = c.data

/-- The answer at an address was there before. It has its numbers, its id unless that was 0, and it
is not solved if it was not, unless it is done now. -/
structure AnswerT.Follows (a' a : AnswerT) (done : Prop) : Prop where
  keeps : a'.Keeps a
  id : a.id ≠ 0 → a'.id = a.id
  solved : a'.status = statusSolved → a.status = statusSolved ∨ done

def FollowAll (done : Ptr → Prop) (val val' : Ptr → Option AnswerT) : Prop :=
  ∀ p a', val' p = some a' → ∃ a, val p = some a ∧ a'.Follows a (done p)

def answerAsked : Option κ × ServiceEvent → Option (κ × AnswerT)
  | (some i, .request _ (.registerAnswer d)) => some (i, d.val)
  | _ => none

def Reply.answerId : Reply → Option UInt64
  | .answerOk id => some id
  | _ => none

def Reply.solved : Reply → Option AnswerT
  | .solution a => some a
  | _ => none

def answersTold (rs : List (κ × Reply)) : List (κ × UInt64) :=
  rs.filterMap fun r => r.2.answerId.map (r.1, ·)

/-- The answer goes back to the registration that has its address as its number: the client sent its
numbers and was told its id (unless it was told 0), and if the answer is solved, then by a solver
thread that was done with it. -/
def AnswerT.GoesBack (a : AnswerT) (p : Ptr) (es : List (Option κ × ServiceEvent))
    (told : List (κ × Reply)) : Prop :=
  ∃ i c k, (es.filterMap answerAsked)[p]? = some (i, c) ∧ (answersTold told)[p]? = some (i, k) ∧
    (k ≠ 0 → a.id = k) ∧ a.Keeps c ∧
    (a.status = statusSolved → .completeAnswer p ∈ es.map Prod.snd)

section Requests

variable {t : Tree} {lib : Library} {w : Daemon} {b : AnswerBook} {r : Request}

theorem answer_problem_replies (d : AnswerDraft) (token : CString)
    (hd : ∀ f, ((Request.answerProblem d token).run t lib w).status ≠ .fault f) :
    ((Request.answerProblem d token).run t lib w).world = w ∧
      (((Request.answerProblem d token).run t lib w).replies = [] ∨
        ((Request.answerProblem d token).run t lib w).replies = [.unknownError]) ∧
      (((Request.answerProblem d token).run t lib w).status = .reading →
        ((Request.answerProblem d token).run t lib w).replies = []) := by
  have hrun : (Request.answerProblem d token).run t lib w =
      integerAnswer (daemonEnv t lib) (atoul token) (.client w (.answer d)) :=
    integerToken_eq _ token _ rfl
  have hindex : (0 : UInt16).toNat = 0 := rfl
  rw [hrun] at hd ⊢
  simp only [integerAnswer, assignAnswer, Parser.client, Parser.start, hindex] at hd ⊢
  cases hfind : (daemonEnv t lib).findDb w (atoul token) with
  | none =>
    rw [hfind] at hd
    exact absurd rfl (hd .undefinedCall)
  | some problem =>
    cases problem with
    | none => exact ⟨rfl, .inr rfl, fun hst => Status.noConfusion hst⟩
    | some p => exact ⟨rfl, .inl rfl, fun _ => rfl⟩

theorem delete_replies (hr : Represents w.answers b) (token : CString) :
    ((Request.delete token).run t lib w).replies =
      if (lookupId b.val b.answers (atoul token)).isSome then [.idle] else [.unknownError] := by
  have hrun : (Request.delete token).run t lib w =
      integerDeleteAnswer (daemonEnv t lib) (atoul token) (.client w .deleteAnswer) :=
    integerToken_eq _ token _ rfl
  obtain ⟨answers, hdelete, _⟩ := hr.delete (atoul token)
  obtain ⟨⟨h, queue, answer⟩, hextract, hdelete⟩ := Option.bind_eq_some_iff.mp hdelete
  have henv : (daemonEnv t lib).extractQueue w (atoul token) =
      some (answer, { w with answers := { w.answers with heap := h, answers := queue } }) := by
    simp only [daemonEnv, hextract, Option.bind_eq_bind, Option.bind_some]
  rw [hrun]
  simp only [integerDeleteAnswer, Parser.client, Parser.start, henv]
  cases answer with
  | none =>
    have hp : none = lookupId b.val b.answers (atoul token) :=
      congrArg Prod.snd (Option.some.inj hdelete)
    rw [← hp]
    rfl
  | some p =>
    obtain ⟨h', hfree, hdelete⟩ := Option.bind_eq_some_iff.mp hdelete
    have hp : some p = lookupId b.val b.answers (atoul token) :=
      congrArg Prod.snd (Option.some.inj hdelete)
    have hfreed : (daemonEnv t lib).freeAnswer
        { w with answers := { w.answers with heap := h, answers := queue } } p =
        some { w with answers := { w.answers with heap := h', answers := queue } } := by
      simp only [daemonEnv, hfree, Option.bind_eq_bind, Option.bind_some]
    rw [← hp]
    simp only [hfreed]
    rfl

theorem Reply.ofAnswer_solution {o : Option AnswerT} {a : AnswerT} (h : .solution a = ofAnswer o) :
    o = some a ∧ a.status = statusSolved := by
  cases o with
  | none => cases h
  | some a' =>
    rw [ofAnswer] at h
    split at h
    · next hsolved =>
      cases h
      exact ⟨rfl, hsolved⟩
    · cases h

theorem aiqbdRegisterProblem_answers {w' : Daemon} {problem : ProblemT} {id : UInt64}
    (h : aiqbdRegisterProblem t lib w problem = some (id, w')) : w'.answers = w.answers := by
  obtain ⟨⟨store, res⟩, _, h⟩ := Option.bind_eq_some_iff.mp h
  cases res with
  | none =>
    cases h
    rfl
  | some k =>
    obtain ⟨store', _, h⟩ := Option.bind_eq_some_iff.mp h
    cases h
    rfl

theorem register_problem_replies {d : ProblemDraft}
    (hd : ∀ f, ((Request.registerProblem d).run t lib w).status ≠ .fault f) :
    ((Request.registerProblem d).run t lib w).world.answers = w.answers ∧
      ∃ id, ((Request.registerProblem d).run t lib w).replies = [.problemOk id] := by
  obtain ⟨id, hreg⟩ := register_problem_run d hd
  refine ⟨aiqbdRegisterProblem_answers hreg, id, ?_⟩
  exact Parser.replies_append (completeProblem_some (s := .client w (.problem d)) hreg).1

/-- A request is answered from the book, and does to the memory what it does to the book. -/
theorem request_answers (hr : Represents w.answers b)
    (hd : ∀ f, (r.run t lib w).status ≠ .fault f) :
    Represents (r.run t lib w).world.answers (r.answerBook b) ∧
      r.Answers b (r.run t lib w).replies := by
  cases r with
  | solution token =>
    have hworld : ((Request.solution token).run t lib w).world = w := (solution_run hr token).1
    have hreplies : ((Request.solution token).run t lib w).replies =
        [.ofAnswer ((lookupId b.val b.answers (atoul token)).bind b.val)] :=
      (solution_run hr token).2
    refine ⟨?_, hreplies⟩
    rwa [hworld]
  | delete token =>
    obtain ⟨answers, hworld, hr'⟩ := delete_run t lib hr token
    exact ⟨hworld ▸ hr', delete_replies hr token⟩
  | answerProblem d token =>
    obtain ⟨hworld, htold, _⟩ := answer_problem_replies d token hd
    refine ⟨?_, htold⟩
    rwa [hworld]
  | registerAnswer d =>
    obtain ⟨answers, hworld, hreplies, hr'⟩ := register_answer_run t lib hr d
    exact ⟨hworld ▸ hr', hreplies⟩
  | registerProblem d =>
    obtain ⟨hanswers, htold⟩ := register_problem_replies hd
    exact ⟨hanswers ▸ hr, htold⟩
  | listProblems => exact ⟨hr, rfl⟩
  | listAnswers => exact ⟨hr, rfl⟩
  | refuse => exact ⟨hr, rfl⟩

end Requests

section Following

variable {val val' val'' : Ptr → Option AnswerT} {done : Ptr → Prop} {a a' a'' c : AnswerT}
  {p : Ptr} {b b' : AnswerBook}

theorem AnswerT.Keeps.refl (a : AnswerT) : a.Keeps a := ⟨rfl, rfl, rfl, rfl⟩

theorem AnswerT.Keeps.trans (h : a'.Keeps a) (h' : a''.Keeps a') : a''.Keeps a :=
  ⟨h'.problem.trans h.problem, h'.sizeX.trans h.sizeX, h'.sizeY.trans h.sizeY,
    h'.data.trans h.data⟩

theorem FollowAll.refl (val : Ptr → Option AnswerT) : FollowAll done val val :=
  fun _ a ha => ⟨a, ha, .refl a, fun _ => rfl, .inl⟩

theorem FollowAll.trans (h : FollowAll done val val') (h' : FollowAll done val' val'') :
    FollowAll done val val'' := by
  intro p a'' ha''
  obtain ⟨a', ha', hkeeps', hid', hsolved'⟩ := h' p a'' ha''
  obtain ⟨a, ha, hkeeps, hid, hsolved⟩ := h p a' ha'
  refine ⟨a, ha, hkeeps.trans hkeeps', fun h0 => ?_, fun hs => ?_⟩
  · have he := hid h0
    exact (hid' (he ▸ h0)).trans he
  · exact (hsolved' hs).elim hsolved .inr

theorem FollowAll.update (hv : val p = some c) (ha : a.Follows c (done p)) :
    FollowAll done val (Function.update val p (some a)) := by
  intro q a' ha'
  rw [Function.update_apply] at ha'
  split at ha'
  · next hq =>
    cases ha'
    exact ⟨c, hq ▸ hv, hq ▸ ha⟩
  · exact FollowAll.refl val q a' ha'

theorem FollowAll.remove (val : Ptr → Option AnswerT) (p : Ptr) :
    FollowAll done val (Function.update val p none) := by
  intro q a' ha'
  rw [Function.update_apply] at ha'
  split at ha'
  · cases ha'
  · exact FollowAll.refl val q a' ha'

theorem FollowAll.number (hv : val p = some c) (xs : List Ptr) :
    FollowAll done val (AnswerBook.number val xs p c) :=
  .update hv ⟨⟨rfl, rfl, rfl, rfl⟩, fun h0 => if_neg h0, .inl⟩

theorem AnswerBook.delete_follows (b : AnswerBook) (id : UInt64) :
    FollowAll done b.val (b.delete id).val := by
  rcases delete_cases b id with he | ⟨p, _, he⟩
  · rw [he]
    exact .refl _
  · rw [he]
    exact .remove b.val p

theorem AnswerBook.dispatch_follows (h : b.dispatch = some b') :
    FollowAll done b.val b'.val := by
  rcases dispatch_cases h with rfl | ⟨p, rest, a, _, hv, ⟨_, rfl⟩ | ⟨_, rfl⟩⟩
  · exact .refl _
  · have hne : statusInProgress ≠ statusSolved := by decide
    have hbegun : FollowAll done b.val
        (Function.update b.val p (some { a with status := statusInProgress })) :=
      .update hv ⟨⟨rfl, rfl, rfl, rfl⟩, fun _ => rfl, fun hs => absurd hs hne⟩
    exact hbegun.trans (.number (Function.update_self _ _ _) b.answerQueue)
  · exact .number hv rest

theorem AnswerBook.complete_follows (h : b.complete p = some b') :
    FollowAll (fun q => q = p) b.val b'.val := by
  obtain ⟨_, a, hv, hcases⟩ := complete_cases h
  have hsolved : FollowAll (fun q => q = p) b.val
      (Function.update b.val p (some { a with status := statusSolved })) :=
    .update hv ⟨⟨rfl, rfl, rfl, rfl⟩, fun _ => rfl, fun _ => .inr rfl⟩
  obtain ⟨_, rfl⟩ | ⟨q, c, _, hc, rfl⟩ := hcases
  · exact hsolved
  · exact hsolved.trans (.number hc b.answers)

end Following

/-- Each answer of the daemon goes back to its registration, and so does each that was sent. -/
structure Desk.Accounts (v : Desk κ) (es : List (Option κ × ServiceEvent)) (b : AnswerBook) :
    Prop where
  represents : Represents v.daemon.answers b
  asked : b.size = (es.filterMap answerAsked).length
  told : b.size = (answersTold v.told).length
  answers : ∀ p a, b.val p = some a → a.GoesBack p es v.told
  solutions : ∀ i a, (i, .solution a) ∈ v.told →
    a.status = statusSolved ∧ ∃ p, a.GoesBack p es v.told

section Steps

variable {κ : Type} {t : Tree} {v v' : Desk κ} {e : Option κ × ServiceEvent} {b b' : AnswerBook}
  {es es' : List (Option κ × ServiceEvent)} {told told' : List (κ × Reply)} {a a' : AnswerT}
  {p : Ptr} {r : Request} {rs : List Reply} {i : κ}

theorem answersTold_append (rs rs' : List (κ × Reply)) :
    answersTold (rs ++ rs') = answersTold rs ++ answersTold rs' :=
  List.filterMap_append

theorem getElem?_prefix {α : Type} {xs ys : List α} {n : Nat} {x : α} (h : xs <+: ys)
    (hx : xs[n]? = some x) : ys[n]? = some x := by
  obtain ⟨hn, rfl⟩ := List.getElem?_eq_some_iff.mp hx
  exact List.prefix_iff_getElem?.mp h n hn

theorem AnswerT.GoesBack.follows {done : Prop} (h : a.GoesBack p es told)
    (ha : a'.Follows a done) (hes : es <+: es') (htold : answersTold told <+: answersTold told')
    (hdone : done → .completeAnswer p ∈ es'.map Prod.snd) : a'.GoesBack p es' told' := by
  obtain ⟨i, c, k, hasked, hsaid, hid, hkeeps, hsolved⟩ := h
  refine ⟨i, c, k, getElem?_prefix (hes.filterMap _) hasked, getElem?_prefix htold hsaid, ?_,
    hkeeps.trans ha.keeps, fun hs => ?_⟩
  · intro hk
    have he := hid hk
    exact (ha.id (he ▸ hk)).trans he
  · exact (ha.solved hs).elim (fun hs => (hes.map Prod.snd).subset (hsolved hs)) hdone

theorem AnswerT.GoesBack.mono (h : a.GoesBack p es told) (hes : es <+: es')
    (htold : answersTold told <+: answersTold told') : a.GoesBack p es' told' := by
  have hsame : a.Follows a False := ⟨.refl a, fun _ => rfl, .inl⟩
  exact h.follows hsame hes htold False.elim

/-- A step that registers no answer. -/
theorem Desk.Accounts.follows {done : Ptr → Prop} (h : v.Accounts es b)
    (hr : Represents v'.daemon.answers b') (hsize : b'.size = b.size)
    (hf : FollowAll done b.val b'.val) (hnone : answerAsked e = none)
    (hdone : ∀ p, done p → e.2 = .completeAnswer p)
    (htold : answersTold v'.told = answersTold v.told)
    (hsaid : ∀ i a, (i, .solution a) ∈ v'.told →
      (i, .solution a) ∈ v.told ∨ a.status = statusSolved ∧ ∃ p, b.val p = some a) :
    v'.Accounts (es ++ [e]) b' := by
  have hes : es <+: es ++ [e] := List.prefix_append _ _
  have htold' : answersTold v.told <+: answersTold v'.told := htold ▸ List.prefix_refl _
  refine ⟨hr, ?_, ?_, ?_, ?_⟩
  · rw [hsize, h.asked, List.filterMap_append, List.filterMap_cons_none hnone,
      List.filterMap_nil, List.append_nil]
  · rw [hsize, h.told, htold]
  · intro p a' ha'
    obtain ⟨a, ha, hfollows⟩ := hf p a' ha'
    refine (h.answers p a ha).follows hfollows hes htold' fun hp => ?_
    rw [List.map_append, List.map_singleton, hdone p hp]
    exact List.mem_append_right _ (List.mem_singleton_self _)
  · intro i a hia
    obtain hold | ⟨hsolved, p, ha⟩ := hsaid i a hia
    · obtain ⟨hsolved, p, hp⟩ := h.solutions i a hold
      exact ⟨hsolved, p, hp.mono hes htold'⟩
    · exact ⟨hsolved, p, (h.answers p a ha).mono hes htold'⟩

theorem Request.Answers.solution (h : r.Answers b rs) (ha : .solution a ∈ rs) :
    a.status = statusSolved ∧ ∃ p, b.val p = some a := by
  cases r with
  | solution token =>
    rw [Answers] at h
    rw [h, List.mem_singleton] at ha
    obtain ⟨hval, hsolved⟩ := Reply.ofAnswer_solution ha
    obtain ⟨p, _, hp⟩ := Option.bind_eq_some_iff.mp hval
    exact ⟨hsolved, p, hp⟩
  | delete token =>
    rw [Answers] at h
    rw [h] at ha
    split at ha <;> cases List.mem_singleton.mp ha
  | answerProblem d token =>
    rcases h with rfl | rfl
    · cases ha
    · cases List.mem_singleton.mp ha
  | registerAnswer d =>
    rw [Answers] at h
    rw [h] at ha
    cases List.mem_singleton.mp ha
  | registerProblem d =>
    obtain ⟨id, rfl⟩ := h
    cases List.mem_singleton.mp ha
  | listProblems | listAnswers | refuse =>
    rw [Answers] at h
    rw [h] at ha
    cases List.mem_singleton.mp ha

theorem Request.Answers.noAnswer (h : r.Answers b rs) (hr : ∀ d, r ≠ .registerAnswer d) :
    answersTold (rs.map (i, ·)) = [] := by
  cases r with
  | solution token =>
    rw [Answers] at h
    rw [h]
    cases (lookupId b.val b.answers (atoul token)).bind b.val with
    | none => rfl
    | some a =>
      rw [Reply.ofAnswer]
      split <;> rfl
  | delete token =>
    rw [Answers] at h
    rw [h]
    split <;> rfl
  | answerProblem d token => rcases h with rfl | rfl <;> rfl
  | registerAnswer d => exact absurd rfl (hr d)
  | registerProblem d =>
    obtain ⟨id, rfl⟩ := h
    rfl
  | listProblems | listAnswers | refuse =>
    rw [Answers] at h
    rw [h]
    rfl

theorem Desk.Accounts.join (h : v.Accounts es b) {d : AnswerDraft} {lib : Library}
    (hr : Represents v'.daemon.answers (b.join d.val))
    (htold : v'.told =
      v.told ++ [(i, .answerOk (assignedId (idsOf b.val b.answers) d.val.id))]) :
    v'.Accounts (es ++ [(some i, .request lib (.registerAnswer d))]) (b.join d.val) := by
  let e : Option κ × ServiceEvent := (some i, .request lib (.registerAnswer d))
  have hes : es <+: es ++ [e] := List.prefix_append _ _
  have hasked : (es ++ [e]).filterMap answerAsked = es.filterMap answerAsked ++ [(i, d.val)] :=
    List.filterMap_append
  have hsaid : answersTold v'.told = answersTold v.told ++
      [(i, assignedId (idsOf b.val b.answers) d.val.id)] := by
    rw [htold, answersTold_append]
    rfl
  have htold' : answersTold v.told <+: answersTold v'.told := hsaid ▸ List.prefix_append _ _
  refine ⟨hr, ?_, ?_, ?_, ?_⟩
  · rw [hasked, List.length_append, ← h.asked]
    rfl
  · rw [hsaid, List.length_append, ← h.told]
    rfl
  · intro p a ha
    have hval : Function.update b.val b.size (some { d.val with
        id := assignedId (idsOf b.val b.answers) d.val.id, status := statusNew }) p = some a := ha
    rw [Function.update_apply] at hval
    split at hval
    · next hp =>
      cases hval
      have hne : statusNew ≠ statusSolved := by decide
      refine ⟨i, d.val, _, ?_, ?_, fun _ => rfl, ⟨rfl, rfl, rfl, rfl⟩, fun hs => absurd hs hne⟩
      · rw [hasked, hp, h.asked, List.getElem?_concat_length]
      · rw [hsaid, hp, h.told, List.getElem?_concat_length]
    · exact (h.answers p a hval).mono hes htold'
  · intro j a hja
    rw [htold, List.mem_append] at hja
    rcases hja with hold | hnew
    · obtain ⟨hsolved, p, hp⟩ := h.solutions j a hold
      exact ⟨hsolved, p, hp.mono hes htold'⟩
    · cases List.mem_singleton.mp hnew

theorem Desk.Accounts.request (h : v.Accounts es b) {lib : Library}
    (hs : deskStep t v (some i, .request lib r) = some v') :
    ∃ b', v'.Accounts (es ++ [(some i, .request lib r)]) b' := by
  obtain ⟨hdef, hdaemon, htold⟩ := deskStep_told hs
  obtain ⟨hr, hanswers⟩ := request_answers h.represents hdef
  rw [← hdaemon] at hr
  rw [Option.toList_some, List.flatMap_singleton] at htold
  by_cases hnew : ∃ d, r = .registerAnswer d
  · obtain ⟨d, rfl⟩ := hnew
    rw [Request.Answers] at hanswers
    rw [hanswers] at htold
    exact ⟨_, h.join hr htold⟩
  have hother : ∀ d, r ≠ .registerAnswer d := fun d hd => hnew ⟨d, hd⟩
  have hbook : (r.answerBook b).size = b.size ∧
      FollowAll (fun _ => False) b.val (r.answerBook b).val := by
    cases r with
    | delete token => exact ⟨b.delete_size _, b.delete_follows _⟩
    | registerAnswer d => exact absurd rfl (hother d)
    | _ => exact ⟨rfl, .refl _⟩
  refine ⟨_, h.follows hr hbook.1 hbook.2 ?_ (fun _ hp => hp.elim) ?_ ?_⟩
  · cases r with
    | registerAnswer d => exact absurd rfl (hother d)
    | _ => rfl
  · rw [htold, answersTold_append, hanswers.noAnswer hother, List.append_nil]
  · intro j a hja
    rw [htold, List.mem_append] at hja
    refine hja.imp_right fun hja => ?_
    obtain ⟨rep, hrep, he⟩ := List.mem_map.mp hja
    cases he
    exact hanswers.solution hrep

theorem Desk.Accounts.step (h : v.Accounts es b) (ha : Asking e) (hs : deskStep t v e = some v') :
    ∃ b', v'.Accounts (es ++ [e]) b' := by
  by_cases hrequest : ∃ lib r, e.2 = .request lib r
  · obtain ⟨lib, r, he⟩ := hrequest
    obtain ⟨i, hi⟩ := Option.isSome_iff_exists.mp (ha lib r he)
    obtain rfl : e = (some i, .request lib r) := Prod.ext hi he
    exact h.request hs
  have hnone : answerAsked e = none := by
    obtain ⟨i, e⟩ := e
    cases e with
    | request lib r => exact absurd ⟨lib, r, rfl⟩ hrequest
    | _ => cases i <;> rfl
  obtain ⟨u, hu, hdaemon, htold⟩ := deskStep_some hs
  have hsilent (hsent : u.sent = []) : v'.told = v.told := by
    rw [htold, hsent]
    cases e.1 <;> exact List.append_nil _
  have hstays {b' : AnswerBook} {done : Ptr → Prop} (hsent : u.sent = [])
      (hr : Represents u.daemon.answers b') (hsize : b'.size = b.size)
      (hf : FollowAll done b.val b'.val) (hdone : ∀ p, done p → e.2 = .completeAnswer p) :
      ∃ b', v'.Accounts (es ++ [e]) b' := by
    rw [← hdaemon] at hr
    have hsame := hsilent hsent
    refine ⟨b', h.follows hr hsize hf hnone hdone (congrArg answersTold hsame) ?_⟩
    exact fun i a hia => .inl (hsame ▸ hia)
  rcases serviceStep_cases hu with
    ⟨lib, r, he, _⟩ | ⟨a, rfl | ⟨p, rfl, he⟩, hu⟩ | ⟨a, _, _, hu⟩
  · exact absurd ⟨lib, r, he⟩ hrequest
  · obtain ⟨answers, hstep, rfl⟩ := Option.map_eq_some_iff.mp hu
    obtain ⟨b', hb, hr⟩ := optionRel_left (h.represents.step .dispatch) hstep
    have hf : FollowAll (fun _ => False) b.val b'.val := AnswerBook.dispatch_follows hb
    exact hstays rfl hr (AnswerBook.dispatch_moves hb).size hf fun _ hp => hp.elim
  · obtain ⟨answers, hstep, rfl⟩ := Option.map_eq_some_iff.mp hu
    obtain ⟨b', hb, hr⟩ := optionRel_left (h.represents.step (.complete p)) hstep
    exact hstays rfl hr (AnswerBook.complete_moves hb).size (AnswerBook.complete_follows hb)
      fun q hq => hq ▸ he
  · obtain ⟨store, _, rfl⟩ := Option.map_eq_some_iff.mp hu
    have hsame : FollowAll (fun _ => False) b.val b.val := .refl _
    exact hstays rfl h.represents rfl hsame fun _ hp => hp.elim

end Steps

section Runs

variable {κ : Type} [DecidableEq κ] {t : Tree} {s : Server κ} {es : List (ServerEvent κ)}
  {w : Daemon} {limit : UInt32}

omit [DecidableEq κ] in
theorem Desk.Accounts.start (hw : w.answers = .start limit) :
    (Desk.start κ w).Accounts [] (.start limit) := by
  refine ⟨hw ▸ represents_start limit, rfl, rfl, ?_, ?_⟩
  · intro p a ha
    cases ha
  · intro i a ha
    cases ha

/-- Whatever the clients send, and however their bytes are interleaved with the other threads: each
solution that is sent carries the problem and the numbers that a client sent for it, under the id
that this client was told, and a solver thread was done with it. -/
theorem solutions_go_back (hw : w.answers = .start limit)
    (hr : Run (serverStep t) (.start κ w) es s) (hs : (i, .solution a) ∈ s.sent) :
    a.status = statusSolved ∧
      ∃ p, a.GoesBack p (emittedAll (serverStep t) ServerEvent.asked (.start κ w) es) s.sent := by
  obtain ⟨v, hrun, _, rfl⟩ :=
    Run.stutters (R := fun s v => s.Waits ∧ v = s.desk) desk_follows
      ⟨Server.start_waits w, rfl⟩ hr
  have haccounts : ∃ b, s.desk.Accounts
      (emittedAll (serverStep t) ServerEvent.asked (.start κ w) es) b := by
    apply hrun.preserves_history (I := fun es v => ∃ b, v.Accounts es b)
      (StepsMeet.trivial _ _ _) ⟨_, .start hw⟩
    rintro pre v e v' hp ⟨b, hb⟩ _ hstep
    have hmem : e ∈ emittedAll (serverStep t) ServerEvent.asked (.start κ w) es :=
      hp.subset (List.mem_append_right _ (List.mem_singleton_self e))
    obtain ⟨_, _, _, hasked⟩ := mem_emittedAll hmem
    exact hb.step (ServerEvent.asked_asking hasked) hstep
  obtain ⟨b, hb⟩ := haccounts
  exact hb.solutions i a hs

end Runs

section Sample

def Library.answering : Library :=
  { Library.granting with mallocAnswer := some (0, ⟨0, 0, 0, 0, none, none⟩) }

def bytesOf (i : Nat) (text : CString) : List (ServerEvent Nat) :=
  text.map fun c => .read i Library.answering (.byte c)

/-- A client sends a problem and an answer, and another one asks for the solution. -/
def solutionSent : List (ServerEvent Nat) :=
  .accept 0 0 :: bytesOf 0 (cstr "reg:problem 1 1 1 1 0 0 0 0 0.5 reg:answer 1 0 1 2.5 ") ++
    [.dispatchAnswer, .completeAnswer 0, .accept 1 0] ++ bytesOf 1 (cstr "req:solution 1 ")

theorem solutions_go_back_one :
    ∃ s a, Run (serverStep .sample) (.start Nat ⟨.start 1, .sample⟩) solutionSent s ∧
      (1, .solution a) ∈ s.sent ∧
      ∃ p, a.GoesBack p
        (emittedAll (serverStep .sample) ServerEvent.asked (.start Nat ⟨.start 1, .sample⟩)
          solutionSent) s.sent := by
  have hlast : (solutionSent.foldlM (serverStep .sample)
      (Server.start Nat ⟨.start 1, .sample⟩)).any (fun s => s.sent.any fun r =>
        r.1 == 1 && r.2.solved.isSome) = true := by
    decide +kernel
  obtain ⟨s, hr, hs⟩ := (Option.any_eq_true _ _).mp hlast
  obtain ⟨⟨i, rep⟩, hmem, hrep⟩ := List.any_eq_true.mp hs
  obtain ⟨hi, hrep⟩ := (Bool.and_eq_true _ _).mp hrep
  obtain rfl : i = 1 := beq_iff_eq.mp hi
  cases rep with
  | solution a => exact ⟨s, a, hr, hmem, (solutions_go_back rfl hr hmem).2⟩
  | _ => cases hrep

end Sample

end Aiqb
