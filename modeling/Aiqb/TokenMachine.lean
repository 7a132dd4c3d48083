import Aiqb.LexerGrammar

namespace Aiqb
set_option autoImplicit true

variable {W : Type} {env : Env W} {s u : Parser W}

section Lexers

/-- The parser `s` with the variables of the lexer that `l` has. -/
def Parser.relex (s l : Parser W) : Parser W :=
  { s with
    char := l.char
    tokenState := l.tokenState
    tokenFlags := l.tokenFlags
    token := l.token }

theorem SameMessage.relex_eq (h : SameMessage s u) : s.relex u = u := by
  obtain ⟨_, _, _, _, _, _, _, _, _⟩ := s
  obtain ⟨_, _, _, _, _, _, _, _, _⟩ := u
  obtain ⟨hstate, hindex, hworld, hlog, hstatus⟩ := h
  cases hstate
  cases hindex
  cases hworld
  cases hlog
  cases hstatus
  rfl

theorem Parser.relex_same (s l : Parser W) : SameMessage s (s.relex l) := ⟨rfl, rfl, rfl, rfl, rfl⟩

def LexerFree (f : Parser W → Parser W) : Prop := ∀ s l, f (s.relex l) = (f s).relex l

namespace LexerFree

variable {f g : Parser W → Parser W}

theorem same (h : LexerFree f) (hs : SameMessage s u) : SameMessage (f s) (f u) := by
  rw [← hs.relex_eq, h]
  exact Parser.relex_same _ _

theorem comp (hg : LexerFree g) (hf : LexerFree f) : LexerFree fun s => g (f s) := by
  intro s l
  dsimp only
  rw [hf, hg]

theorem andThen (hf : LexerFree f) (hg : LexerFree g) : LexerFree fun s => (f s).andThen g := by
  intro s l
  have hstatus : ((f s).relex l).status = (f s).status := rfl
  dsimp only
  rw [hf, Parser.andThen, Parser.andThen, hstatus, hg]
  split <;> rfl

theorem emit (e : ParserEvent) : LexerFree fun s : Parser W => s.emit e := fun _ _ => rfl

theorem free (env : Env W) (fs : List Freed) : LexerFree fun s => fs.foldl (Parser.free env) s := by
  induction fs with
  | nil => exact fun _ _ => rfl
  | cons f fs ih =>
    have hf : LexerFree fun s => Parser.free env s f := fun _ _ => rfl
    exact ih.comp hf

theorem leave (env : Env W) (r : Reply) (fs : List Freed) :
    LexerFree fun s => s.leave env r fs := by
  intro s l
  have h := (free env fs).comp (emit (.reply r)) s l
  exact congrArg (fun s : Parser W => { s with status := .returned }) h

theorem integerProblem (v : UInt64) : LexerFree (Aiqb.integerProblem env v) := by
  intro s l
  unfold Aiqb.integerProblem
  dsimp only [Parser.relex]
  split
  · split
    · next w _ => exact leave env .memoryError _ { s with world := w } l
    · split <;> rfl
  · rfl

theorem integerAnswer (v : UInt64) : LexerFree (Aiqb.integerAnswer env v) := by
  intro s l
  unfold Aiqb.integerAnswer
  dsimp only [Parser.relex]
  split
  · split
    · rfl
    · next w _ => exact leave env _ _ { s with world := w } l
    · rfl
  · rfl

theorem integerSolution (v : UInt64) : LexerFree (Aiqb.integerSolution env v) := by
  intro s l
  unfold Aiqb.integerSolution
  dsimp only [Parser.relex]
  split
  · split
    · rfl
    · rfl
    · split <;> rfl
  · rfl

theorem integerDeleteAnswer (v : UInt64) : LexerFree (Aiqb.integerDeleteAnswer env v) := by
  intro s l
  unfold Aiqb.integerDeleteAnswer
  dsimp only [Parser.relex]
  split
  · split
    · rfl
    · rfl
    · split <;> rfl
  · rfl

theorem integerToken (token : CString) : LexerFree (Aiqb.integerToken env token) :=
  (((integerProblem _).andThen (integerAnswer _)).andThen (integerSolution _)).andThen
    (integerDeleteAnswer _)

theorem completeProblem (d : ProblemDraft) : LexerFree (Aiqb.completeProblem env d) := by
  intro s l
  unfold Aiqb.completeProblem
  dsimp only [Parser.relex]
  split
  · rfl
  · split <;> rfl

theorem floatProblem (v : UInt64) : LexerFree (Aiqb.floatProblem env v) := by
  intro s l
  unfold Aiqb.floatProblem
  dsimp only [Parser.relex]
  split
  · split
    · rfl
    · next d _ =>
      split
      · exact completeProblem d { s with state := .problem d, index := s.index + 1 } l
      · rfl
  · rfl

theorem completeAnswer (d : AnswerDraft) : LexerFree (Aiqb.completeAnswer env d) := by
  intro s l
  unfold Aiqb.completeAnswer
  dsimp only [Parser.relex]
  split
  · rfl
  · split <;> rfl

theorem floatAnswer (v : UInt64) : LexerFree (Aiqb.floatAnswer env v) := by
  intro s l
  unfold Aiqb.floatAnswer
  dsimp only [Parser.relex]
  split
  · split
    · rfl
    · next d _ =>
      split
      · exact completeAnswer d { s with state := .answer d, index := s.index + 1 } l
      · rfl
  · rfl

theorem floatToken (token : CString) : LexerFree (Aiqb.floatToken env token) :=
  (floatProblem _).andThen (floatAnswer _)

theorem listCommand (list : Option (W → W)) : LexerFree (Aiqb.listCommand list) := by
  cases list <;> exact fun _ _ => rfl

theorem requestCloseCommand : LexerFree (Aiqb.requestCloseCommand env) := by
  intro s l
  have hfree := free env s.state.frees s l
  rw [requestClose_eq, requestClose_eq]
  exact congrArg (fun s : Parser W => { s with status := .returned }) hfree

theorem registerProblemCommand : LexerFree (Aiqb.registerProblemCommand env) := by
  intro s l
  unfold Aiqb.registerProblemCommand
  dsimp only [Parser.relex]
  split <;> rfl

theorem registerAnswerCommand : LexerFree (Aiqb.registerAnswerCommand env) := by
  intro s l
  unfold Aiqb.registerAnswerCommand
  dsimp only [Parser.relex]
  split <;> rfl

theorem commandToken (token : CString) : LexerFree (Aiqb.commandToken env token) := by
  intro s l
  unfold Aiqb.commandToken
  split
  · exact registerProblemCommand s l
  split
  · exact registerAnswerCommand s l
  split
  · rfl
  split
  · rfl
  split
  · rfl
  split
  · exact listCommand _ s l
  split
  · exact listCommand _ s l
  split
  · exact requestCloseCommand s l
  · rfl

theorem analyse (env : Env W) (token : CString) (flags : TokenFlags) :
    LexerFree (Aiqb.analyse env token flags) := by
  have hinteger : LexerFree (analyseInteger env token flags) := by
    unfold analyseInteger
    split
    · exact (integerToken token).comp (emit _)
    · exact fun _ _ => rfl
  have hfloat : LexerFree (analyseFloat env token flags) := by
    unfold analyseFloat
    split
    · exact (floatToken token).comp (emit _)
    · exact fun _ _ => rfl
  have hcommand : LexerFree (analyseCommand env token flags) := by
    unfold analyseCommand
    split
    · exact (commandToken token).comp (emit _)
    · exact fun _ _ => rfl
  exact ((hinteger.comp (emit _)).andThen hfloat).andThen hcommand

end LexerFree

end Lexers

section Bytes

variable {pre bytes : List UInt8} {c : UInt8} {token : CString}

/-- What a token does, however it is set apart from the one before. -/
def Parser.take (env : Env W) (s : Parser W) (token : CString) : Parser W :=
  s.andThen (analyse env token (token.foldl TokenFlags.count .zero))

theorem SameMessage.refl (s : Parser W) : SameMessage s s := ⟨rfl, rfl, rfl, rfl, rfl⟩

theorem SameMessage.trans {v : Parser W} (h : SameMessage s u) (h' : SameMessage u v) :
    SameMessage s v :=
  ⟨h'.state.trans h.state, h'.index.trans h.index, h'.world.trans h.world, h'.log.trans h.log,
    h'.status.trans h.status⟩

theorem SameMessage.take (h : SameMessage s u) (env : Env W) (token : CString) :
    SameMessage (s.take env token) (u.take env token) := by
  have hid : LexerFree fun s : Parser W => s := fun _ _ => rfl
  exact (hid.andThen (.analyse env token _)).same h

def endedToken (pre : List UInt8) (c : UInt8) : Option CString :=
  if ¬ endsInComment false pre ∧ isSeparator c ∧ openToken pre ≠ [] then some (openToken pre)
  else none

theorem endedToken_some (h : endedToken pre c = some token) :
    ¬ InComment pre ∧ isSeparator c ∧ openToken pre ≠ [] ∧ openToken pre = token := by
  obtain ⟨⟨hin, hsep, hne⟩, he⟩ := Option.ite_none_right_eq_some.mp h
  exact ⟨fun h => hin ((endsInComment_iff pre).mpr h), hsep, hne, Option.some.inj he⟩

theorem endedToken_none (h : endedToken pre c = none) (hin : ¬ InComment pre) (hc : isSeparator c) :
    openToken pre = [] := by
  by_contra hne
  rw [endedToken, if_pos ⟨fun h => hin ((endsInComment_iff pre).mp h), hc, hne⟩] at h
  cases h

theorem tokensOf_ended (hin : ¬ InComment pre) (hc : isComment c ∨ isSeparator c) :
    tokensOf (pre ++ [c]) = tokensOf pre ++ [openToken pre].filter (· ≠ []) := by
  rw [tokensOf, pieces_ended hin hc, List.dropLast_concat, pieces_eq, List.filter_append, tokensOf]

theorem tokensOf_snoc (hb : LexesByte pre c) :
    tokensOf (pre ++ [c]) = tokensOf pre ++ (endedToken pre c).toList := by
  cases he : endedToken pre c with
  | some token =>
    obtain ⟨hin, hsep, hne, rfl⟩ := endedToken_some he
    rw [tokensOf_ended hin (.inr hsep), List.filter_eq_self.mpr]
    · rfl
    · exact List.forall_mem_singleton.mpr (decide_eq_true hne)
  | none =>
    rw [Option.toList_none, List.append_nil]
    by_cases hin : InComment pre
    · rw [tokensOf, pieces_comment hin]
      rfl
    · by_cases hc : isComment c ∨ isSeparator c
      · have hopen : openToken pre = [] := hc.elim (hb.comment hin) (endedToken_none he hin)
        rw [tokensOf_ended hin hc, hopen]
        exact List.append_nil _
      · obtain ⟨hcomment, hsep⟩ := not_or.mp hc
        rw [tokensOf, pieces_continued hin hcomment hsep, List.dropLast_concat]
        rfl

theorem parserChar_same (env : Env W) (h : ¬ s.EndsToken c) (hr : s.status = .reading)
    (hlen : s.token.length < 128) : SameMessage s (parserChar env s c) := by
  unfold parserChar
  split
  · split <;> exact ⟨rfl, rfl, rfl, rfl, rfl⟩
  · next hidle =>
    split
    · exact ⟨rfl, rfl, rfl, rfl, rfl⟩
    · unfold storeChar
      rw [if_pos hlen]
      split
      · next hend =>
        have hnone : s.token = [] := by
          by_contra hne
          exact h ⟨hr, hidle, hend, hne⟩
        dsimp only
        rw [if_pos hnone]
        exact ⟨rfl, rfl, rfl, rfl, rfl⟩
      · exact ⟨rfl, rfl, rfl, rfl, rfl⟩

theorem Lexes.endsToken (h : Lexes pre s) (hb : LexesByte pre c) (hr : s.status = .reading)
    (he : endedToken pre c = some token) :
    s.EndsToken c ∧ s.token = token ∧
      s.tokenFlags.count c = token.foldl TokenFlags.count .zero := by
  obtain ⟨hin, hsep, hne, rfl⟩ := endedToken_some he
  have hnul := hb.separator hin hsep
  have htoken := h.token_eq hnul
  refine ⟨⟨hr, h.idle hin, .inl hsep, htoken ▸ hne⟩, htoken, ?_⟩
  rw [TokenFlags.count_separator _ hsep, h.flags hnul]

theorem Lexes.endsNoToken (h : Lexes pre s) (hb : LexesByte pre c) (he : endedToken pre c = none) :
    ¬ s.EndsToken c := by
  rintro ⟨_, hidle, hend, hne⟩
  have hin : ¬ InComment pre := by
    rw [← h.comment, hidle]
    decide
  obtain ⟨zeros, hopen, _, hclean⟩ := h.token
  have hzero : ∀ d ∈ s.token, d = 0 := by
    intro d hd
    have hd' : d ∈ openToken pre := hopen ▸ List.mem_append_right _ hd
    rcases hend with hsep | hnul
    · rw [endedToken_none he hin hsep] at hd'
      cases hd'
    · exact hb.nul hin hnul d hd'
  obtain ⟨d, hd⟩ := List.exists_mem_of_ne_nil s.token hne
  exact hclean (hzero d hd ▸ hd)

/-- A byte does what the token does that it ends, if any. -/
theorem Lexes.takes (env : Env W) (h : Lexes pre s) (hb : LexesByte pre c)
    (hlen : (openToken pre).length ≤ 127) (hr : s.status = .reading) :
    SameMessage ((endedToken pre c).toList.foldl (Parser.take env) s) (parserChar env s c) := by
  cases he : endedToken pre c with
  | none => exact parserChar_same env (h.endsNoToken hb he) hr (h.length hlen)
  | some token =>
    obtain ⟨hends, rfl, hflags⟩ := h.endsToken hb hr he
    have hchar : SameMessage s { s with char := 0, tokenFlags := s.tokenFlags.count c } :=
      ⟨rfl, rfl, rfl, rfl, rfl⟩
    have hanalyse := (LexerFree.analyse env s.token (s.tokenFlags.count c)).same hchar
    rw [parserChar_ends hends (h.length hlen), Option.toList_some, List.foldl_cons, List.foldl_nil,
      Parser.take, Parser.andThen_reading hr, ← hflags]
    exact hanalyse.trans (Parser.andThen_keeps (P := SameMessage _) (.refl _)
      fun _ => ⟨rfl, rfl, rfl, rfl, rfl⟩)

theorem Parser.takes_left (hr : s.status ≠ .reading) (env : Env W) (tokens : List CString) :
    tokens.foldl (Parser.take env) s = s := by
  induction tokens with
  | nil => rfl
  | cons token tokens ih =>
    rw [List.foldl_cons, Parser.take, Parser.andThen_left hr]
    exact ih

theorem SameMessage.takes (h : SameMessage s u) (env : Env W) (tokens : List CString) :
    SameMessage (tokens.foldl (Parser.take env) s) (tokens.foldl (Parser.take env) u) := by
  induction tokens generalizing s u with
  | nil => exact h
  | cons token tokens ih => exact ih (h.take env token)

/-- What the bytes of a client do is what their tokens do, one after the other: neither separators
nor comments nor where the stream is cut make a difference. -/
theorem parse_takes (env : Env W) (w : W) (c₀ : UInt8)
    (hlex : ∀ pre c, pre ++ [c] <+: bytes → LexesByte pre c)
    (hshort : ∀ token ∈ pieces bytes, token.length ≤ 127) :
    SameMessage ((tokensOf bytes).foldl (Parser.take env) (.start w c₀))
      (parse env (.start w c₀) bytes) := by
  have hall : ∀ pre, pre <+: bytes →
      SameMessage ((tokensOf pre).foldl (Parser.take env) (.start w c₀))
        (parse env (.start w c₀) pre) ∧
      ((parse env (.start w c₀) pre).status = .reading →
        Lexes pre (parse env (.start w c₀) pre)) := by
    intro pre hp
    induction pre using List.reverseRecOn with
    | nil => exact ⟨.refl _, fun _ => .start w c₀⟩
    | append_singleton pre c ih =>
      have hold := (List.prefix_append pre [c]).trans hp
      obtain ⟨hsame, hlexes⟩ := ih hold
      have hb := hlex pre c hp
      rw [tokensOf_snoc hb, List.foldl_append]
      have hnext := hsame.takes env (endedToken pre c).toList
      by_cases hr : (parse env (.start w c₀) pre).status = .reading
      · obtain ⟨token, hmem, hopen⟩ := openToken_prefix hold
        have hlen := hopen.length_le.trans (hshort token hmem)
        rw [parse_snoc_reading rfl hr]
        exact ⟨hnext.trans ((hlexes hr).takes env hb hlen hr),
          ((hlexes hr).step hlen hr c).lexes hb⟩
      · rw [Parser.takes_left hr] at hnext
        rw [parse_snoc, Parser.andThen_left hr]
        exact ⟨hnext, fun hreading => absurd hreading hr⟩
  exact (hall bytes List.prefix_rfl).1

def lexesByte (pre : List UInt8) (c : UInt8) : Bool :=
  endsInComment false pre ||
    ((!isComment c || (openToken pre).isEmpty) && (c != 0 || (openToken pre).all (· == 0)) &&
      (!isSeparator c || (openToken pre).all (· != 0)))

theorem lexesByte_spec (h : lexesByte pre c) : LexesByte pre c := by
  by_cases hin : InComment pre
  · exact ⟨fun hno => (hno hin).elim, fun hno => (hno hin).elim, fun hno => (hno hin).elim⟩
  · have hout : endsInComment false pre = false :=
      eq_false_of_ne_true fun h => hin ((endsInComment_iff pre).mp h)
    simp only [lexesByte, hout, Bool.false_or, Bool.and_eq_true, Bool.or_eq_true,
      Bool.not_eq_true', List.isEmpty_iff, List.all_eq_true, bne_iff_ne, beq_iff_eq] at h
    obtain ⟨⟨hcomment, hnul⟩, hseparator⟩ := h
    refine ⟨fun _ hc => ?_, fun _ hc => ?_, fun _ hc hmem => ?_⟩
    · exact hcomment.resolve_left fun hno => Bool.false_ne_true (hno.symm.trans hc)
    · exact hnul.resolve_left fun hno => hno hc
    · exact hseparator.resolve_left (fun hno => Bool.false_ne_true (hno.symm.trans hc)) 0 hmem rfl

theorem lexes_of_take (h : ∀ i < bytes.length, lexesByte (bytes.take i) (bytes.getD i 0)) :
    ∀ pre c, pre ++ [c] <+: bytes → LexesByte pre c := by
  rintro pre c ⟨rest, rfl⟩
  have hbyte := h pre.length (by simp)
  rw [List.append_assoc, List.take_left] at hbyte
  apply lexesByte_spec
  simpa using hbyte

/-- A problem with a comment between its numbers. -/
theorem parse_takes_oneRow :
    tokensOf (cstr "reg:problem 1 1 ;x\n1,1 0 0 0 0 0.5 ") =
        tokensOf (cstr "reg:problem 1 1 1 1 0 0 0 0 0.5 ") ∧
      SameMessage
        ((tokensOf (cstr "reg:problem 1 1 ;x\n1,1 0 0 0 0 0.5 ")).foldl
          (Parser.take Env.sample) (.start 0 0))
        (parse Env.sample (.start 0 0) (cstr "reg:problem 1 1 ;x\n1,1 0 0 0 0 0.5 ")) :=
  ⟨by decide +kernel, parse_takes _ _ _ (lexes_of_take (by decide +kernel)) (by decide +kernel)⟩

end Bytes

end Aiqb
