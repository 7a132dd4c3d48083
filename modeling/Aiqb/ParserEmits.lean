import Aiqb.ParserRule

namespace Aiqb
set_option autoImplicit true

variable {W : Type} {env : Env W} {s s' t : Parser W} {Q : ParserEvent → Prop}

def Emits (Q : ParserEvent → Prop) (s s' : Parser W) : Prop :=
  ∃ es, s'.log = s.log ++ es ∧ ∀ e ∈ es, Q e

/-- Nothing printed, and neither a structure that is handed over nor the reply to it. -/
def ParserEvent.Plain : ParserEvent → Prop
  | .printed _ _ => False
  | .registerProblem _ => False
  | .registerAnswer _ => False
  | .reply (.problemOk _) => False
  | .reply (.answerOk _) => False
  | _ => True

namespace Emits

theorem same (h : s'.log = s.log) : Emits Q s s' :=
  ⟨[], by rw [h, List.append_nil], fun _ he => absurd he List.not_mem_nil⟩

theorem trans (h : Emits Q s t) (h' : Emits Q t s') : Emits Q s s' := by
  obtain ⟨es, hl, hes⟩ := h
  obtain ⟨fs, hl', hfs⟩ := h'
  refine ⟨es ++ fs, by rw [hl', hl, List.append_assoc], ?_⟩
  intro e he
  exact (List.mem_append.mp he).elim (hes e) (hfs e)

theorem emit {e : ParserEvent} (he : Q e) (hl : s'.log = s.log ++ [e]) : Emits Q s s' :=
  ⟨[e], hl, fun _ hm => List.mem_singleton.mp hm ▸ he⟩

theorem imp (h : Emits Q s s') (hq : ∀ e, Q e → Q' e) : Emits Q' s s' := by
  obtain ⟨es, hl, hes⟩ := h
  exact ⟨es, hl, fun e he => hq e (hes e he)⟩

theorem free (fs : List Freed) (s : Parser W) :
    Emits ParserEvent.Plain s (fs.foldl (Parser.free env) s) := by
  induction fs generalizing s with
  | nil => exact .same rfl
  | cons f fs ih =>
    have h : Emits ParserEvent.Plain s (Parser.free env s f) := .emit (e := .freed f) trivial rfl
    exact h.trans (ih (Parser.free env s f))

theorem leave {r : Reply} (hr : ParserEvent.Plain (.reply r)) (fs : List Freed) (s : Parser W) :
    Emits ParserEvent.Plain s (s.leave env r fs) := by
  have h : Emits ParserEvent.Plain s (s.emit (.reply r)) := .emit hr rfl
  exact h.trans ((free fs _).trans (.same rfl))

theorem integerProblem (v : UInt64) (s : Parser W) :
    Emits ParserEvent.Plain s (Aiqb.integerProblem env v s) := by
  unfold Aiqb.integerProblem
  split
  · split
    · next w _ =>
      have hw : Emits ParserEvent.Plain s { s with world := w } := .same rfl
      exact hw.trans (leave (r := .memoryError) trivial _ _)
    · split <;> exact .same rfl
  · exact .same rfl

end Emits

theorem assignAnswer_error {w w' : W}
    (h : assignAnswer env w i v d = some (.error (r, fs), w')) :
    r = .unknownError ∨ r = .memoryError := by
  unfold assignAnswer at h
  split at h
  · obtain ⟨problem, _, he⟩ := Option.map_eq_some_iff.mp h
    cases problem with
    | none =>
      cases he
      exact .inl rfl
    | some p => cases he
  · cases h
  · simp only [Option.some.injEq, Prod.mk.injEq] at h
    cases ha : (allocArray env w (d.val.sizeX + v)
      (fun b => (d.assign .sizeY { d.val with sizeY := v, data := b }).renew AnswerSlot.isData)
      [.answer d.ptr]).1 with
    | error fs' =>
      rw [ha] at h
      cases h.1
      exact .inr rfl
    | ok d' =>
      rw [ha] at h
      cases h.1
  · cases h

namespace Emits

theorem integerAnswer (v : UInt64) (s : Parser W) :
    Emits ParserEvent.Plain s (Aiqb.integerAnswer env v s) := by
  unfold Aiqb.integerAnswer
  split
  · split
    · exact .same rfl
    · next r fs w he =>
      have hr : ParserEvent.Plain (.reply r) := by
        rcases assignAnswer_error he with rfl | rfl <;> trivial
      exact .trans (t := { s with world := w }) (.same rfl) (leave hr _ _)
    · exact .same rfl
  · exact .same rfl

theorem integerSolution (v : UInt64) (s : Parser W) :
    Emits ParserEvent.Plain s (Aiqb.integerSolution env v s) := by
  unfold Aiqb.integerSolution
  split
  · split
    · exact .same rfl
    · exact .emit (e := .reply .unknownError) trivial rfl
    · next a _ =>
      split
      · exact .emit (e := .reply .notReady) trivial rfl
      · exact .emit (e := .reply (.solution a)) trivial rfl
  · exact .same rfl

theorem integerDeleteAnswer (v : UInt64) (s : Parser W) :
    Emits ParserEvent.Plain s (Aiqb.integerDeleteAnswer env v s) := by
  unfold Aiqb.integerDeleteAnswer
  split
  · split
    · exact .same rfl
    · exact .emit (e := .reply .unknownError) trivial rfl
    · split
      · exact .same rfl
      · exact .emit (e := .reply .idle) trivial rfl
  · exact .same rfl

theorem integerToken (token : CString) (hr : s.status = .reading) :
    Emits ParserEvent.Plain s (Aiqb.integerToken env token s) :=
  integerToken_rule (.same rfl) hr (fun _ _ => integerProblem _ s) (fun _ _ => integerAnswer _ s)
    (fun _ => integerSolution _ s) fun _ => integerDeleteAnswer _ s

theorem listCommand (list : Option (W → W)) (s : Parser W) :
    Emits ParserEvent.Plain s (Aiqb.listCommand list s) := by
  cases list with
  | none => exact .same rfl
  | some f => exact .emit (e := .reply .idle) trivial rfl

theorem commandToken (token : CString) (s : Parser W) :
    Emits ParserEvent.Plain s (Aiqb.commandToken env token s) := by
  apply commandToken_rule (P := Emits ParserEvent.Plain s) token (.same rfl)
  · unfold registerProblemCommand
    split <;> exact .same rfl
  · unfold registerAnswerCommand
    split <;> exact .same rfl
  · exact .same rfl
  · exact .same rfl
  · exact fun _ => listCommand _ s
  · exact fun _ => listCommand _ s
  · unfold requestCloseCommand
    split
    · exact (free _ s).trans (.same rfl)
    · exact (free _ s).trans (.same rfl)
    · exact .same rfl

theorem completeProblem (hd : Q (.registerProblem d)) (hk : ∀ id, Q (.reply (.problemOk id)))
    (s : Parser W) : Emits Q s (Aiqb.completeProblem env d s) := by
  unfold Aiqb.completeProblem
  split
  · exact .emit (hk 1) rfl
  · split
    · exact .emit hd rfl
    · next id w _ =>
      have h : Emits Q s { s.emit (.registerProblem d) with world := w } := .emit hd rfl
      exact h.trans (.emit (hk id) rfl)

theorem completeAnswer (hd : Q (.registerAnswer d)) (hk : ∀ id, Q (.reply (.answerOk id)))
    (s : Parser W) : Emits Q s (Aiqb.completeAnswer env d s) := by
  unfold Aiqb.completeAnswer
  split
  · exact .emit (hk 1) rfl
  · split
    · exact .emit hd rfl
    · next id w _ =>
      have h : Emits Q s { s.emit (.registerAnswer d) with world := w } := .emit hd rfl
      exact h.trans (.emit (hk id) rfl)

theorem floatProblem (hd : ∀ (i : UInt16) d, i.toUInt64 = d.total → Q (.registerProblem d))
    (hk : ∀ id, Q (.reply (.problemOk id))) (v : UInt64) (s : Parser W) :
    Emits Q s (Aiqb.floatProblem env v s) := by
  unfold Aiqb.floatProblem
  split
  · split
    · exact .same rfl
    · next d _ =>
      have hnext : Emits Q s { s with state := .problem d, index := s.index + 1 } := .same rfl
      dsimp only
      split
      · next htotal => exact hnext.trans (completeProblem (hd _ d htotal) hk _)
      · exact hnext
  · exact .same rfl

theorem floatAnswer (hd : ∀ (i : UInt16) d, i.toUInt64 = d.total → Q (.registerAnswer d))
    (hk : ∀ id, Q (.reply (.answerOk id))) (v : UInt64) (s : Parser W) :
    Emits Q s (Aiqb.floatAnswer env v s) := by
  unfold Aiqb.floatAnswer
  split
  · split
    · exact .same rfl
    · next d _ =>
      have hnext : Emits Q s { s with state := .answer d, index := s.index + 1 } := .same rfl
      dsimp only
      split
      · next htotal => exact hnext.trans (completeAnswer (hd _ d htotal) hk _)
      · exact hnext
  · exact .same rfl

end Emits

end Aiqb
