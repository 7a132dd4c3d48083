import Aiqb.ParserFrame
import Aiqb.Runs

namespace Aiqb
set_option autoImplicit true

variable {W : Type} {env : Env W} {s : Parser W} {c : UInt8} {token : CString}

def Parser.EndsToken (s : Parser W) (c : UInt8) : Prop :=
  s.status = .reading ∧ s.tokenState = .idle ∧ (isSeparator c ∨ c = 0) ∧ s.token ≠ []

structure SameMessage (s s' : Parser W) : Prop where
  state : s'.state = s.state
  index : s'.index = s.index
  world : s'.world = s.world
  log : s'.log = s.log
  status : s'.status = s.status

/-- What the analysis of a token starts from. -/
structure SameTurn (s s' : Parser W) : Prop where
  state : s'.state = s.state
  index : s'.index = s.index
  world : s'.world = s.world
  status : s'.status = s.status

theorem SameMessage.turn (h : SameMessage s s') : SameTurn s s' :=
  ⟨h.state, h.index, h.world, h.status⟩

theorem SameTurn.emit (h : SameTurn s u) (e : ParserEvent) : SameTurn s (u.emit e) :=
  ⟨h.state, h.index, h.world, h.status⟩

theorem TokenFlags.isInteger_not_isFloat {flags : TokenFlags} (hi : flags.isInteger) :
    ¬ flags.isFloat := by
  intro hf
  simp only [TokenFlags.isInteger, decide_eq_true_eq] at hi
  simp only [TokenFlags.isFloat, hi, Bool.and_eq_true, decide_eq_true_eq] at hf
  omega

/-- What the analysis of a token keeps: it is enough that the numbers do, which come first, and
the commands. -/
theorem analyse_rule {P : Parser W → Prop} {flags : TokenFlags} (ht : SameTurn s u) (hu : P u)
    (hr : u.status = .reading)
    (printed : ∀ u label, label ≠ .command → P u → P (u.emit (.printed label token)))
    (integer : flags.isInteger → ∀ u, SameTurn s u → u.status = .reading → P u →
      P (integerToken env token u))
    (float : flags.isFloat → ∀ u, SameTurn s u → u.status = .reading → P u →
      P (floatToken env token u))
    (command : flags.isCommand → ∀ u, u.status = .reading → P u →
      P (commandToken env token (u.emit (.printed .command token)))) :
    P (analyse env token flags u) := by
  have hany := printed u .any TokenClass.noConfusion hu
  have hnumber : P ((analyseInteger env token flags (u.emit (.printed .any token))).andThen
      (analyseFloat env token flags)) := by
    by_cases hi : flags.isInteger
    · have hint : P (analyseInteger env token flags (u.emit (.printed .any token))) := by
        rw [analyseInteger, if_pos hi]
        exact integer hi _ ((ht.emit _).emit _) hr (printed _ .integer TokenClass.noConfusion hany)
      apply Parser.andThen_keeps hint
      intro _
      rw [analyseFloat, if_neg (TokenFlags.isInteger_not_isFloat hi)]
      exact hint
    · rw [analyseInteger, if_neg hi]
      apply Parser.andThen_keeps hany
      intro _
      unfold analyseFloat
      split
      · next hf =>
        exact float hf _ ((ht.emit _).emit _) hr (printed _ .float TokenClass.noConfusion hany)
      · exact hany
  apply Parser.andThen_keeps hnumber
  intro hreading
  unfold analyseCommand
  split
  · next hc => exact command hc _ hreading hnumber
  · exact hnumber

/-- The invariant rule of the parser, for one byte. -/
theorem parserChar_rule {P : Parser W → Prop} (hs : P s) (hr : s.status = .reading)
    (lexer : ∀ u u', SameMessage u u' → P u → P u') (overrun : P (s.faulted .tokenOverrun))
    (printed : ∀ u label, label ≠ .command → P u → P (u.emit (.printed label s.token)))
    (integer : s.EndsToken c → s.token.length < 128 → (s.tokenFlags.count c).isInteger →
      ∀ u, SameTurn s u → u.status = .reading → P u → P (integerToken env s.token u))
    (float : s.EndsToken c → s.token.length < 128 → (s.tokenFlags.count c).isFloat →
      ∀ u, SameTurn s u → u.status = .reading → P u → P (floatToken env s.token u))
    (command : s.EndsToken c → s.token.length < 128 → (s.tokenFlags.count c).isCommand →
      ∀ u, u.status = .reading → P u →
        P (commandToken env s.token (u.emit (.printed .command s.token)))) :
    P (parserChar env s c) := by
  unfold parserChar
  split
  · split <;> exact lexer s _ ⟨rfl, rfl, rfl, rfl, rfl⟩ hs
  · next hidle =>
    split
    · exact lexer s _ ⟨rfl, rfl, rfl, rfl, rfl⟩ hs
    · unfold storeChar
      dsimp only
      split
      · next hlen =>
        split
        · next hend =>
          have hsame : SameMessage s { s with char := 0, tokenFlags := s.tokenFlags.count c } :=
            ⟨rfl, rfl, rfl, rfl, rfl⟩
          split
          · exact lexer s _ hsame hs
          · next hne =>
            have hends : s.EndsToken c := ⟨hr, hidle, hend, hne⟩
            have ha := analyse_rule hsame.turn (lexer s _ hsame hs) hr printed
              (integer hends hlen) (float hends hlen) (command hends hlen)
            apply Parser.andThen_keeps ha
            intro _
            apply lexer _ _ ?_ ha
            exact ⟨rfl, rfl, rfl, rfl, rfl⟩
        · exact lexer s _ ⟨rfl, rfl, rfl, rfl, rfl⟩ hs
      · exact overrun

theorem commandToken_rule {P : Parser W → Prop} (token : CString) (hs : P s)
    (problem : P (registerProblemCommand env s)) (answer : P (registerAnswerCommand env s))
    (solution : P { s with state := .solution, index := 0 })
    (delete : P { s with state := .deleteAnswer, index := 0 })
    (problems : token = tokenListProblems →
      P (listCommand (env.handler.bind ParserHandle.listProblems) s))
    (answers : token = tokenListAnswers →
      P (listCommand (env.handler.bind ParserHandle.listAnswers) s))
    (close : P (requestCloseCommand env s)) : P (commandToken env token s) := by
  unfold commandToken
  split
  · exact problem
  split
  · exact answer
  split
  · exact solution
  split
  · exact delete
  split
  · exact hs
  split
  · next ht => exact problems ht
  split
  · next ht => exact answers ht
  split
  · exact close
  · exact hs

theorem integerToken_rule {P : Parser W → Prop} (hs : P s) (hr : s.status = .reading)
    (problem : ∀ d, s.state = .problem d → P (integerProblem env (atoul token) s))
    (answer : ∀ d, s.state = .answer d → P (integerAnswer env (atoul token) s))
    (solution : s.state = .solution → P (integerSolution env (atoul token) s))
    (delete : s.state = .deleteAnswer → P (integerDeleteAnswer env (atoul token) s)) :
    P (integerToken env token s) := by
  rw [integerToken_eq env token s hr]
  cases hst : s.state with
  | idle => exact hs
  | problem d => exact problem d hst
  | answer d => exact answer d hst
  | solution => exact solution hst
  | deleteAnswer => exact delete hst

theorem floatToken_rule {P : Parser W → Prop} (hs : P s) (hr : s.status = .reading)
    (problem : ∀ d, s.state = .problem d → P (floatProblem env (env.atof token) s))
    (answer : ∀ d, s.state = .answer d → P (floatAnswer env (env.atof token) s)) :
    P (floatToken env token s) := by
  rw [floatToken_eq env token s hr]
  cases hst : s.state with
  | problem d => exact problem d hst
  | answer d => exact answer d hst
  | _ => exact hs

/-- The next byte, in the environment that it comes with. -/
def readStep (env : ι → Env W) (s : Parser W) (e : ι × UInt8) : Option (Parser W) :=
  if s.status = .reading then some (parserChar (env e.1) s e.2) else none

theorem readStep_iff {env : ι → Env W} : readStep env s e = some t ↔
    s.status = .reading ∧ parserChar (env e.1) s e.2 = t := by
  rw [readStep, Option.ite_none_right_eq_some, Option.some.injEq]

theorem Parser.EndsToken.not_isComment (h : s.EndsToken c) : ¬ isComment c := by
  rcases h.2.2.1 with hsep | rfl
  · simp only [isSeparator, Bool.or_eq_true, decide_eq_true_eq] at hsep
    rcases hsep with (((rfl | rfl) | rfl) | rfl) | rfl <;> decide
  · decide

theorem parserChar_ends (h : s.EndsToken c) (hlen : s.token.length < 128) :
    parserChar env s c =
      (analyse env s.token (s.tokenFlags.count c)
        { s with char := 0, tokenFlags := s.tokenFlags.count c }).andThen fun s =>
          { s with tokenFlags := .zero, token := [] } := by
  have hcomment := h.not_isComment
  obtain ⟨_, hidle, hend, hne⟩ := h
  simp only [parserChar, hidle, hcomment, storeChar, hlen, hend, hne, ↓reduceIte]
  rfl

theorem parserChar_reading_length (h : s.EndsToken c)
    (hr : (parserChar env s c).status = .reading) : s.token.length < 128 := by
  by_contra hlong
  simp only [parserChar, h.2.1, h.not_isComment, storeChar, hlong, ↓reduceIte,
    Bool.false_eq_true] at hr
  cases hr

theorem parserChar_no_token (h : ¬ s.EndsToken c) (hr : s.status = .reading) :
    (parserChar env s c).state = s.state := by
  apply parserChar_rule (P := fun u : Parser W => u.state = s.state) rfl hr
  · exact fun u u' hsame hu => hsame.state.trans hu
  · rfl
  · exact fun u label _ hu => hu
  · exact fun hends => (h hends).elim
  · exact fun hends => (h hends).elim
  · exact fun hends => (h hends).elim

theorem analyse_isFloat {flags : TokenFlags} (hf : flags.isFloat) (hr : s.status = .reading) :
    analyse env token flags s =
      (floatToken env token ((s.emit (.printed .any token)).emit (.printed .float token))).andThen
        (analyseCommand env token flags) := by
  have hi : ¬ flags.isInteger := fun hi => TokenFlags.isInteger_not_isFloat hi hf
  have hany : (s.emit (.printed .any token)).status = .reading := hr
  rw [analyse, analyseInteger, if_neg hi, Parser.andThen_reading hany, analyseFloat, if_pos hf]

/-- A byte that ends a float: the float comes first, and nothing but a command can follow. -/
theorem parserChar_float (env : Env W) (hends : s.EndsToken c) (hlen : s.token.length < 128)
    (hf : (s.tokenFlags.count c).isFloat) :
    ∃ u, SameTurn s u ∧
      u.log = s.log ++ [.printed .any s.token, .printed .float s.token] ∧
      parserChar env s c =
        ((floatToken env s.token u).andThen
          (analyseCommand env s.token (s.tokenFlags.count c))).andThen fun s =>
            { s with tokenFlags := .zero, token := [] } := by
  refine ⟨({ s with char := 0, tokenFlags := s.tokenFlags.count c }.emit
    (.printed .any s.token)).emit (.printed .float s.token), ⟨rfl, rfl, rfl, rfl⟩,
    List.append_assoc _ _ _, ?_⟩
  rw [parserChar_ends hends hlen]
  congr 1
  exact analyse_isFloat hf hends.1

/-- A parser that still reads has read all bytes. -/
theorem run_of_parse (env : ι → Env W) (i : ι) {bytes : List UInt8}
    (hr : (parse (env i) s bytes).status = .reading) :
    Run (readStep env) s (bytes.map (i, ·)) (parse (env i) s bytes) := by
  induction bytes using List.reverseRecOn with
  | nil => exact Run.nil_iff.mpr rfl
  | append_singleton bytes c ih =>
    rw [parse_snoc] at hr ⊢
    have hpre := Parser.reading_of_andThen hr
    rw [List.map_append, List.map_singleton, Run.snoc_iff, Parser.andThen_reading hpre]
    exact ⟨_, ih hpre, if_pos hpre⟩

theorem parse_of_run {env : ι → Env W} {bytes : List UInt8}
    (h : Run (readStep env) s (bytes.map (i, ·)) t) : parse (env i) s bytes = t := by
  induction bytes generalizing s with
  | nil => exact Run.nil_iff.mp h
  | cons c bytes ih =>
    obtain ⟨u, hu, ht⟩ := Run.cons_iff.mp h
    obtain ⟨hr, rfl⟩ := readStep_iff.mp hu
    rw [parse_cons, Parser.andThen_reading hr]
    exact ih ht

end Aiqb
