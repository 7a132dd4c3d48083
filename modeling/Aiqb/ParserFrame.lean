import Aiqb.Parser

namespace Aiqb
set_option autoImplicit true

variable {W : Type} {env : Env W} {s s' t : Parser W}

theorem Parser.andThen_reading (hr : s.status = .reading) (f : Parser W → Parser W) :
    s.andThen f = f s := if_pos hr

theorem Parser.andThen_left (hr : s.status ≠ .reading) (f : Parser W → Parser W) :
    s.andThen f = s := if_neg hr

theorem Parser.andThen_keeps {P : Parser W → Prop} {f : Parser W → Parser W} (hs : P s)
    (hf : s.status = .reading → P (f s)) : P (s.andThen f) := by
  by_cases hr : s.status = .reading
  · rw [Parser.andThen_reading hr]
    exact hf hr
  · rw [Parser.andThen_left hr]
    exact hs

theorem Parser.reading_of_andThen {f : Parser W → Parser W}
    (h : (s.andThen f).status = .reading) : s.status = .reading := by
  by_contra hr
  rw [Parser.andThen_left hr] at h
  exact hr h

@[simp] theorem Parser.emit_status (s : Parser W) (e : ParserEvent) :
    (s.emit e).status = s.status := rfl

@[simp] theorem Parser.emit_state (s : Parser W) (e : ParserEvent) :
    (s.emit e).state = s.state := rfl

@[simp] theorem Parser.emit_index (s : Parser W) (e : ParserEvent) :
    (s.emit e).index = s.index := rfl

@[simp] theorem Parser.emit_log (s : Parser W) (e : ParserEvent) :
    (s.emit e).log = s.log ++ [e] := rfl

@[simp] theorem Parser.emit_world (s : Parser W) (e : ParserEvent) :
    (s.emit e).world = s.world := rfl

def ParserState.frees : ParserState → List Freed
  | .problem d =>
    [.array d.val.cvData, .array d.val.testData, .array d.val.data, .array d.val.state,
      .problem d.ptr]
  | .answer d => [.array d.val.data, .answer d.ptr]
  | _ => []

theorem requestClose_eq (env : Env W) (s : Parser W) : requestCloseCommand env s =
    { s.state.frees.foldl (Parser.free env) s with status := .returned } := by
  obtain ⟨_, _, _, _, state, _, _, _, _⟩ := s
  cases state <;> rfl

structure SameLexer (s s' : Parser W) : Prop where
  char : s'.char = s.char
  tokenState : s'.tokenState = s.tokenState
  tokenFlags : s'.tokenFlags = s.tokenFlags
  token : s'.token = s.token

namespace SameLexer

theorem refl (s : Parser W) : SameLexer s s := ⟨rfl, rfl, rfl, rfl⟩

theorem trans (h : SameLexer s s') (h' : SameLexer s' t) : SameLexer s t :=
  ⟨h'.char.trans h.char, h'.tokenState.trans h.tokenState, h'.tokenFlags.trans h.tokenFlags,
    h'.token.trans h.token⟩

theorem andThen {f : Parser W → Parser W} (h : SameLexer s s') (hf : SameLexer s' (f s')) :
    SameLexer s (s'.andThen f) :=
  Parser.andThen_keeps h fun _ => h.trans hf

theorem free (env : Env W) (fs : List Freed) (s : Parser W) :
    SameLexer s (fs.foldl (Parser.free env) s) := by
  induction fs generalizing s with
  | nil => exact .refl s
  | cons f fs ih =>
    have h : SameLexer s (Parser.free env s f) := ⟨rfl, rfl, rfl, rfl⟩
    exact h.trans (ih (Parser.free env s f))

theorem leave (env : Env W) (r : Reply) (fs : List Freed) (s : Parser W) :
    SameLexer s (s.leave env r fs) := by
  have h := free env fs (s.emit (.reply r))
  exact ⟨h.char, h.tokenState, h.tokenFlags, h.token⟩

theorem integerProblem (v : UInt64) (s : Parser W) :
    SameLexer s (Aiqb.integerProblem env v s) := by
  unfold Aiqb.integerProblem
  split
  · split
    · next w _ =>
      have h := leave env .memoryError ‹List Freed› { s with world := w }
      exact ⟨h.char, h.tokenState, h.tokenFlags, h.token⟩
    · split <;> exact ⟨rfl, rfl, rfl, rfl⟩
  · exact .refl s

theorem integerAnswer (v : UInt64) (s : Parser W) :
    SameLexer s (Aiqb.integerAnswer env v s) := by
  unfold Aiqb.integerAnswer
  split
  · split
    · exact ⟨rfl, rfl, rfl, rfl⟩
    · next r fs w _ =>
      have h := leave env r fs { s with world := w }
      exact ⟨h.char, h.tokenState, h.tokenFlags, h.token⟩
    · exact ⟨rfl, rfl, rfl, rfl⟩
  · exact .refl s

theorem integerSolution (v : UInt64) (s : Parser W) :
    SameLexer s (Aiqb.integerSolution env v s) := by
  unfold Aiqb.integerSolution
  split
  · split
    · exact ⟨rfl, rfl, rfl, rfl⟩
    · exact ⟨rfl, rfl, rfl, rfl⟩
    · split <;> exact ⟨rfl, rfl, rfl, rfl⟩
  · exact .refl s

theorem integerDeleteAnswer (v : UInt64) (s : Parser W) :
    SameLexer s (Aiqb.integerDeleteAnswer env v s) := by
  unfold Aiqb.integerDeleteAnswer
  split
  · split
    · exact ⟨rfl, rfl, rfl, rfl⟩
    · exact ⟨rfl, rfl, rfl, rfl⟩
    · split <;> exact ⟨rfl, rfl, rfl, rfl⟩
  · exact .refl s

theorem integerToken (token : CString) (s : Parser W) :
    SameLexer s (Aiqb.integerToken env token s) :=
  (((integerProblem _ s).andThen (integerAnswer _ _)).andThen (integerSolution _ _)).andThen
    (integerDeleteAnswer _ _)

theorem completeProblem (d : ProblemDraft) (s : Parser W) :
    SameLexer s (Aiqb.completeProblem env d s) := by
  unfold Aiqb.completeProblem
  split
  · exact ⟨rfl, rfl, rfl, rfl⟩
  · split <;> exact ⟨rfl, rfl, rfl, rfl⟩

theorem floatProblem (v : UInt64) (s : Parser W) :
    SameLexer s (Aiqb.floatProblem env v s) := by
  unfold Aiqb.floatProblem
  split
  · split
    · exact ⟨rfl, rfl, rfl, rfl⟩
    · next d _ =>
      have h : SameLexer s { s with state := .problem d, index := s.index + 1 } :=
        ⟨rfl, rfl, rfl, rfl⟩
      dsimp only
      split
      · exact h.trans (completeProblem d _)
      · exact h
  · exact .refl s

theorem completeAnswer (d : AnswerDraft) (s : Parser W) :
    SameLexer s (Aiqb.completeAnswer env d s) := by
  unfold Aiqb.completeAnswer
  split
  · exact ⟨rfl, rfl, rfl, rfl⟩
  · split <;> exact ⟨rfl, rfl, rfl, rfl⟩

theorem floatAnswer (v : UInt64) (s : Parser W) :
    SameLexer s (Aiqb.floatAnswer env v s) := by
  unfold Aiqb.floatAnswer
  split
  · split
    · exact ⟨rfl, rfl, rfl, rfl⟩
    · next d _ =>
      have h : SameLexer s { s with state := .answer d, index := s.index + 1 } :=
        ⟨rfl, rfl, rfl, rfl⟩
      dsimp only
      split
      · exact h.trans (completeAnswer d _)
      · exact h
  · exact .refl s

theorem floatToken (token : CString) (s : Parser W) :
    SameLexer s (Aiqb.floatToken env token s) :=
  (floatProblem _ s).andThen (floatAnswer _ _)

theorem listCommand (list : Option (W → W)) (s : Parser W) :
    SameLexer s (Aiqb.listCommand list s) := by
  cases list <;> exact ⟨rfl, rfl, rfl, rfl⟩

theorem requestCloseCommand (s : Parser W) : SameLexer s (Aiqb.requestCloseCommand env s) := by
  have hf := free env s.state.frees s
  rw [requestClose_eq]
  exact ⟨hf.char, hf.tokenState, hf.tokenFlags, hf.token⟩

theorem registerProblemCommand (s : Parser W) :
    SameLexer s (Aiqb.registerProblemCommand env s) := by
  unfold Aiqb.registerProblemCommand
  split <;> exact ⟨rfl, rfl, rfl, rfl⟩

theorem registerAnswerCommand (s : Parser W) :
    SameLexer s (Aiqb.registerAnswerCommand env s) := by
  unfold Aiqb.registerAnswerCommand
  split <;> exact ⟨rfl, rfl, rfl, rfl⟩

theorem commandToken (token : CString) (s : Parser W) :
    SameLexer s (Aiqb.commandToken env token s) := by
  unfold Aiqb.commandToken
  split
  · exact registerProblemCommand s
  split
  · exact registerAnswerCommand s
  split
  · exact ⟨rfl, rfl, rfl, rfl⟩
  split
  · exact ⟨rfl, rfl, rfl, rfl⟩
  split
  · exact .refl s
  split
  · exact listCommand _ s
  split
  · exact listCommand _ s
  split
  · exact requestCloseCommand s
  · exact .refl s

theorem emit (s : Parser W) (e : ParserEvent) : SameLexer s (s.emit e) := ⟨rfl, rfl, rfl, rfl⟩

theorem analyse (env : Env W) (token : CString) (flags : TokenFlags) (s : Parser W) :
    SameLexer s (Aiqb.analyse env token flags s) := by
  have hi (s : Parser W) : SameLexer s (analyseInteger env token flags s) := by
    unfold analyseInteger
    split
    · exact (emit s _).trans (integerToken token _)
    · exact .refl s
  have hf (s : Parser W) : SameLexer s (analyseFloat env token flags s) := by
    unfold analyseFloat
    split
    · exact (emit s _).trans (floatToken token _)
    · exact .refl s
  have hc (s : Parser W) : SameLexer s (analyseCommand env token flags s) := by
    unfold analyseCommand
    split
    · exact (emit s _).trans (commandToken token _)
    · exact .refl s
  exact (((emit s _).trans (hi _)).andThen (hf _)).andThen (hc _)

end SameLexer

theorem Parser.andThen_same {f : Parser W → Parser W} (h : f s = s) : s.andThen f = s :=
  Parser.andThen_keeps (P := (· = s)) rfl fun _ => h

theorem free_state (fs : List Freed) (s : Parser W) :
    (fs.foldl (Parser.free env) s).state = s.state := by
  induction fs generalizing s with
  | nil => rfl
  | cons f fs ih => exact ih (Parser.free env s f)

@[simp] theorem leave_state (r : Reply) (fs : List Freed) (s : Parser W) :
    (s.leave env r fs).state = s.state := free_state fs (s.emit (.reply r))

theorem integerProblem_state (env : Env W) (hs : s.state = .problem d) (v : UInt64) :
    ∃ d', (integerProblem env v s).state = .problem d' := by
  simp only [integerProblem, hs]
  split
  · exact ⟨d, leave_state _ _ _⟩
  · split
    · exact ⟨d, hs⟩
    · exact ⟨_, rfl⟩

theorem integerAnswer_state (env : Env W) (hs : s.state = .answer d) (v : UInt64) :
    ∃ d', (integerAnswer env v s).state = .answer d' := by
  simp only [integerAnswer, hs]
  split
  · exact ⟨d, hs⟩
  · exact ⟨d, leave_state _ _ _⟩
  · exact ⟨_, rfl⟩

theorem integerSolution_state (env : Env W) (hs : s.state = .solution) (v : UInt64) :
    (integerSolution env v s).state = .idle := by
  simp only [integerSolution, hs]
  split
  · rfl
  · rfl
  · split <;> rfl

theorem integerProblem_other (hs : ∀ d, s.state ≠ .problem d) (v : UInt64) :
    integerProblem env v s = s := by
  unfold integerProblem
  split
  · next d hd => exact absurd hd (hs d)
  · rfl

theorem integerAnswer_other (hs : ∀ d, s.state ≠ .answer d) (v : UInt64) :
    integerAnswer env v s = s := by
  unfold integerAnswer
  split
  · next d hd => exact absurd hd (hs d)
  · rfl

theorem integerSolution_other (hs : s.state ≠ .solution) (v : UInt64) :
    integerSolution env v s = s := by
  unfold integerSolution
  split
  · next hd => exact absurd hd hs
  · rfl

theorem integerDeleteAnswer_other (hs : s.state ≠ .deleteAnswer) (v : UInt64) :
    integerDeleteAnswer env v s = s := by
  unfold integerDeleteAnswer
  split
  · next hd => exact absurd hd hs
  · rfl

theorem integerToken_eq (env : Env W) (token : CString) (s : Parser W) (hr : s.status = .reading) :
    integerToken env token s =
      match s.state with
      | .idle => s
      | .problem _ => integerProblem env (atoul token) s
      | .answer _ => integerAnswer env (atoul token) s
      | .solution => integerSolution env (atoul token) s
      | .deleteAnswer => integerDeleteAnswer env (atoul token) s := by
  unfold integerToken
  cases hs : s.state with
  | idle =>
    rw [integerProblem_other (by simp [hs]),
      Parser.andThen_same (integerAnswer_other (by simp [hs]) _),
      Parser.andThen_same (integerSolution_other (by simp [hs]) _),
      Parser.andThen_same (integerDeleteAnswer_other (by simp [hs]) _)]
  | problem d =>
    obtain ⟨d', hd⟩ := integerProblem_state env hs (atoul token)
    rw [Parser.andThen_same (integerAnswer_other (by simp [hd]) _),
      Parser.andThen_same (integerSolution_other (by simp [hd]) _),
      Parser.andThen_same (integerDeleteAnswer_other (by simp [hd]) _)]
  | answer d =>
    obtain ⟨d', hd⟩ := integerAnswer_state env hs (atoul token)
    rw [integerProblem_other (by simp [hs]), Parser.andThen_reading hr,
      Parser.andThen_same (integerSolution_other (by simp [hd]) _),
      Parser.andThen_same (integerDeleteAnswer_other (by simp [hd]) _)]
  | solution =>
    have hd := integerSolution_state env hs (atoul token)
    rw [integerProblem_other (by simp [hs]),
      Parser.andThen_same (integerAnswer_other (by simp [hs]) _),
      Parser.andThen_reading hr,
      Parser.andThen_same (integerDeleteAnswer_other (by simp [hd]) _)]
  | deleteAnswer =>
    rw [integerProblem_other (by simp [hs]),
      Parser.andThen_same (integerAnswer_other (by simp [hs]) _),
      Parser.andThen_same (integerSolution_other (by simp [hs]) _), Parser.andThen_reading hr]

theorem floatProblem_state (hs : s.state = .problem d) (v : UInt64) :
    ∀ a, (floatProblem env v s).state ≠ .answer a := by
  intro a
  simp only [floatProblem, hs]
  split
  · simp only [Parser.faulted, hs, ne_eq, reduceCtorEq, not_false_eq_true]
  · split
    · unfold completeProblem
      split
      · exact fun h => nomatch h
      · split <;> exact fun h => nomatch h
    · exact fun h => nomatch h

theorem floatProblem_other (hs : ∀ d, s.state ≠ .problem d) (v : UInt64) :
    floatProblem env v s = s := by
  unfold floatProblem
  split
  · next d hd => exact absurd hd (hs d)
  · rfl

theorem floatAnswer_other (hs : ∀ a, s.state ≠ .answer a) (v : UInt64) :
    floatAnswer env v s = s := by
  unfold floatAnswer
  split
  · next d hd => exact absurd hd (hs d)
  · rfl

theorem floatToken_eq (env : Env W) (token : CString) (s : Parser W) (hr : s.status = .reading) :
    floatToken env token s =
      match s.state with
      | .problem _ => floatProblem env (env.atof token) s
      | .answer _ => floatAnswer env (env.atof token) s
      | _ => s := by
  unfold floatToken
  cases hs : s.state with
  | problem d => exact Parser.andThen_same (floatAnswer_other (floatProblem_state hs _) _)
  | answer d => rw [floatProblem_other (by simp [hs]), Parser.andThen_reading hr]
  | idle =>
    rw [floatProblem_other (by simp [hs])]
    exact Parser.andThen_same (floatAnswer_other (by simp [hs]) _)
  | solution =>
    rw [floatProblem_other (by simp [hs])]
    exact Parser.andThen_same (floatAnswer_other (by simp [hs]) _)
  | deleteAnswer =>
    rw [floatProblem_other (by simp [hs])]
    exact Parser.andThen_same (floatAnswer_other (by simp [hs]) _)

@[simp] theorem parse_nil (env : Env W) (s : Parser W) : parse env s [] = s := rfl

theorem parse_append (env : Env W) (s : Parser W) (xs ys : List UInt8) :
    parse env s (xs ++ ys) = parse env (parse env s xs) ys := by
  unfold parse parser
  rw [List.map_append, List.foldl_append]

theorem parse_cons (env : Env W) (s : Parser W) (c : UInt8) (cs : List UInt8) :
    parse env s (c :: cs) = parse env (s.andThen fun s => parserChar env s c) cs := rfl

theorem parse_snoc (env : Env W) (s : Parser W) (cs : List UInt8) (c : UInt8) :
    parse env s (cs ++ [c]) = (parse env s cs).andThen fun s => parserChar env s c := by
  rw [parse_append]
  rfl

end Aiqb
