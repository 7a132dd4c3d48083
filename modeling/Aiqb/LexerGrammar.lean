import Aiqb.ParserEmits
import Aiqb.TokenGrammar

namespace Aiqb
set_option autoImplicit true

variable {W : Type} {env : Env W} {s s' : Parser W} {token : CString} {flags : TokenFlags}

def ParserEvent.printedToken : ParserEvent → Option (TokenClass × CString)
  | .printed label token => some (label, token)
  | _ => none

def Parser.printed (s : Parser W) : List (TokenClass × CString) :=
  s.log.filterMap ParserEvent.printedToken

/-- Outside comments, no comment begins directly behind a token, no NUL follows anything but NULs
in a token, and no separator ends a token that has a NUL. -/
structure LexesByte (pre : List UInt8) (c : UInt8) : Prop where
  comment : ¬ InComment pre → isComment c → openToken pre = []
  nul : ¬ InComment pre → c = 0 → ∀ d ∈ openToken pre, d = 0
  separator : ¬ InComment pre → isSeparator c → 0 ∉ openToken pre

section Printing

theorem ParserEvent.Plain.unprinted {e : ParserEvent} (h : e.Plain) : e.printedToken = none := by
  cases e with
  | printed label token => cases h
  | _ => rfl

theorem Emits.printed_eq (h : Emits (fun e => e.printedToken = none) s s') :
    s'.printed = s.printed := by
  obtain ⟨es, hlog, hes⟩ := h
  rw [Parser.printed, hlog, List.filterMap_append, List.filterMap_eq_nil_iff.mpr hes,
    List.append_nil]
  rfl

theorem Emits.unprinted (h : Emits ParserEvent.Plain s s') : s'.printed = s.printed :=
  (h.imp fun _ => ParserEvent.Plain.unprinted).printed_eq

theorem Emits.floatToken (hr : s.status = .reading) :
    Emits (fun e => e.printedToken = none) s (Aiqb.floatToken env token s) :=
  floatToken_rule (.same rfl) hr (fun _ _ => .floatProblem (fun _ _ _ => rfl) (fun _ => rfl) _ s)
    fun _ _ => .floatAnswer (fun _ _ _ => rfl) (fun _ => rfl) _ s

theorem Parser.printed_emit (s : Parser W) (label : TokenClass) (token : CString) :
    (s.emit (.printed label token)).printed = s.printed ++ [(label, token)] :=
  List.filterMap_append

/-- A token whose characters were counted is printed with the class that the grammar gives it. -/
theorem analyse_printed (hne : token ≠ []) (hlen : token.length ≤ 127) (hf : flags.Counts token)
    (hr : s.status = .reading) :
    (analyse env token flags s).printed = s.printed ++ lexeme token := by
  by_cases hdigits : token.all isDigit
  · have hint : flags.isInteger := (hf.isInteger_iff hlen).mpr hdigits
    have hfloat : ¬ flags.isFloat := TokenFlags.isInteger_not_isFloat hint
    have hcom : ¬ flags.isCommand := by
      rw [hf.isCommand_iff hlen]
      intro hletters
      obtain ⟨c, hc⟩ := List.exists_mem_of_ne_nil token hne
      have hletter := List.all_eq_true.mp hletters c hc
      rw [isDigit_not_letter (List.all_eq_true.mp hdigits c hc)] at hletter
      cases hletter
    have hemits : Emits ParserEvent.Plain
        ((s.emit (.printed .any token)).emit (.printed .integer token))
        (integerToken env token
          ((s.emit (.printed .any token)).emit (.printed .integer token))) :=
      .integerToken token hr
    rw [analyse, Parser.andThen_same (analyseFloat_other hfloat _),
      Parser.andThen_same (analyseCommand_other hcom _), analyseInteger, if_pos hint,
      hemits.unprinted, Parser.printed_emit, Parser.printed_emit, List.append_assoc, lexeme,
      classify, if_pos hdigits]
    rfl
  · have hint : ¬ flags.isInteger := fun h => hdigits ((hf.isInteger_iff hlen).mp h)
    by_cases hdot : token.count 46 = 1 ∧ token.all fun c => isDigit c || c == 46
    · have hfloat : flags.isFloat := (hf.isFloat_iff hlen).mpr hdot
      have hcom : ¬ flags.isCommand := by
        rw [hf.isCommand_iff hlen]
        intro hletters
        have hmem : 46 ∈ token := List.count_pos_iff.mp (hdot.1 ▸ Nat.one_pos)
        cases List.all_eq_true.mp hletters 46 hmem
      have hemits : Emits (fun e => e.printedToken = none)
          ((s.emit (.printed .any token)).emit (.printed .float token))
          (floatToken env token ((s.emit (.printed .any token)).emit (.printed .float token))) :=
        .floatToken hr
      rw [analyse_isFloat hfloat hr, Parser.andThen_same (analyseCommand_other hcom _),
        hemits.printed_eq, Parser.printed_emit, Parser.printed_emit, List.append_assoc, lexeme,
        classify, if_neg hdigits, if_pos hdot]
      rfl
    · have hfloat : ¬ flags.isFloat := fun h => hdot ((hf.isFloat_iff hlen).mp h)
      rw [analyse, analyseInteger_other hint, Parser.andThen_same (analyseFloat_other hfloat _),
        Parser.andThen_reading (s := s.emit (.printed .any token)) hr, lexeme, classify,
        if_neg hdigits, if_neg hdot]
      by_cases hletters : token.all isLetter
      · rw [analyseCommand, if_pos ((hf.isCommand_iff hlen).mpr hletters), if_pos hletters,
          (Emits.commandToken token _).unprinted, Parser.printed_emit, Parser.printed_emit,
          List.append_assoc]
        rfl
      · rw [analyseCommand_other fun h => hletters ((hf.isCommand_iff hlen).mp h),
          if_neg hletters, Parser.printed_emit]
        rfl

theorem Emits.some {Q : ParserEvent → Prop} (h : Emits Q s s') : Emits (fun _ => True) s s' :=
  h.imp fun _ _ => trivial

theorem Emits.analyseInteger (token : CString) (flags : TokenFlags) (hr : s.status = .reading) :
    Emits (fun _ => True) s (Aiqb.analyseInteger env token flags s) := by
  unfold Aiqb.analyseInteger
  split
  · have hp : Emits (fun _ => True) s (s.emit (.printed .integer token)) := .emit trivial rfl
    have hr' : (s.emit (.printed .integer token)).status = .reading := hr
    exact hp.trans (Emits.integerToken token hr').some
  · exact .same rfl

theorem Emits.analyseFloat (token : CString) (flags : TokenFlags) (hr : s.status = .reading) :
    Emits (fun _ => True) s (Aiqb.analyseFloat env token flags s) := by
  unfold Aiqb.analyseFloat
  split
  · have hp : Emits (fun _ => True) s (s.emit (.printed .float token)) := .emit trivial rfl
    have hr' : (s.emit (.printed .float token)).status = .reading := hr
    exact hp.trans (Emits.floatToken hr').some
  · exact .same rfl

theorem Emits.analyseCommand (token : CString) (flags : TokenFlags) :
    Emits (fun _ => True) s (Aiqb.analyseCommand env token flags s) := by
  unfold Aiqb.analyseCommand
  split
  · have hp : Emits (fun _ => True) s (s.emit (.printed .command token)) := .emit trivial rfl
    exact hp.trans (Emits.commandToken token _).some
  · exact .same rfl

theorem analyse_prints (env : Env W) (token : CString) (flags : TokenFlags)
    (hr : s.status = .reading) :
    ∃ rest, (analyse env token flags s).printed = s.printed ++ (.any, token) :: rest := by
  have hint : Emits (fun _ => True) (s.emit (.printed .any token))
      (analyseInteger env token flags (s.emit (.printed .any token))) := .analyseInteger _ _ hr
  have hnumber : Emits (fun _ => True) (s.emit (.printed .any token))
      ((analyseInteger env token flags (s.emit (.printed .any token))).andThen
        (analyseFloat env token flags)) :=
    Parser.andThen_keeps hint fun hreading => hint.trans (.analyseFloat _ _ hreading)
  have hall : Emits (fun _ => True) (s.emit (.printed .any token)) (analyse env token flags s) :=
    Parser.andThen_keeps hnumber fun _ => hnumber.trans (.analyseCommand _ _)
  obtain ⟨es, hlog, _⟩ := hall
  refine ⟨es.filterMap ParserEvent.printedToken, ?_⟩
  rw [Parser.printed, hlog, List.filterMap_append]
  change (s.emit (.printed .any token)).printed ++ _ = _
  rw [Parser.printed_emit, List.append_assoc]
  rfl

end Printing

section Lexing

variable {pre : List UInt8} {c : UInt8}

structure Lexes (pre : List UInt8) (s : Parser W) : Prop where
  comment : s.tokenState = .comment ↔ InComment pre
  token : ∃ zeros, openToken pre = zeros ++ s.token ∧ (∀ z ∈ zeros, z = 0) ∧ 0 ∉ s.token
  flags : 0 ∉ openToken pre → s.tokenFlags = (openToken pre).foldl TokenFlags.count .zero
  printed : s.printed = lexemes pre

theorem Lexes.start (w : W) (c : UInt8) : Lexes [] (Parser.start w c) where
  comment := iff_of_false nofun not_inComment_nil
  token := ⟨[], rfl, fun _ hz => (List.not_mem_nil hz).elim, List.not_mem_nil⟩
  flags _ := rfl
  printed := rfl

theorem Lexes.idle (h : Lexes pre s) (hin : ¬ InComment pre) : s.tokenState = .idle := by
  cases hs : s.tokenState with
  | idle => rfl
  | comment => exact (hin (h.comment.mp hs)).elim

theorem Lexes.token_eq (h : Lexes pre s) (hnul : 0 ∉ openToken pre) : s.token = openToken pre := by
  obtain ⟨zeros, hopen, hzeros, _⟩ := h.token
  cases zeros with
  | nil => exact hopen.symm
  | cons z zeros =>
    rw [hopen, hzeros z List.mem_cons_self] at hnul
    exact (hnul List.mem_cons_self).elim

theorem Lexes.length (h : Lexes pre s) (hlen : (openToken pre).length ≤ 127) :
    s.token.length < 128 := by
  obtain ⟨zeros, hopen, _⟩ := h.token
  rw [hopen, List.length_append] at hlen
  omega

theorem append_ne_self (xs : List α) (y : α) (ys : List α) : xs ++ y :: ys ≠ xs := by
  intro h
  cases List.append_right_eq_self.mp h

/-- What a byte does: it is printed as the grammar has it under the condition, and then the parser
is where the grammar is. -/
structure LexesStep (env : Env W) (pre : List UInt8) (s : Parser W) (c : UInt8) : Prop where
  printed_iff : (parserChar env s c).printed = lexemes (pre ++ [c]) ↔ LexesByte pre c
  lexes : LexesByte pre c → (parserChar env s c).status = .reading →
    Lexes (pre ++ [c]) (parserChar env s c)

theorem Lexes.step_inside (h : Lexes pre s) (hin : InComment pre) (c : UInt8) :
    LexesStep env pre s c := by
  have hbyte : LexesByte pre c :=
    ⟨fun hno => (hno hin).elim, fun hno => (hno hin).elim, fun hno => (hno hin).elim⟩
  have hopen := openToken_inComment hin
  have htoken : s.token = [] := by
    rw [h.token_eq (hopen ▸ List.not_mem_nil), hopen]
  have hflags := h.flags (hopen ▸ List.not_mem_nil)
  have hstate : ((parserChar env s c).tokenState = .comment ↔ ¬ isNewline c) ∧
      (parserChar env s c).token = [] ∧ (parserChar env s c).tokenFlags = s.tokenFlags ∧
      (parserChar env s c).printed = s.printed := by
    simp only [parserChar, h.comment.mpr hin]
    split
    · next hn =>
      have hidle : TokenState.idle ≠ .comment := by decide
      exact ⟨iff_of_false hidle (not_not_intro hn), rfl, rfl, rfl⟩
    · next hn => exact ⟨iff_of_true rfl hn, htoken, rfl, rfl⟩
  obtain ⟨hcomment, htoken', hflags', hprinted⟩ := hstate
  have hlexed : (parserChar env s c).printed = lexemes (pre ++ [c]) := by
    rw [hprinted, h.printed, lexemes_comment hin]
  refine ⟨iff_of_true hlexed hbyte, fun _ _ => ⟨?_, ?_, ?_, hlexed⟩⟩
  · rw [hcomment, inComment_snoc, and_iff_right hin, or_iff_right_of_imp isNewline_ne_isComment]
  · rw [openToken_comment hin, hopen, htoken']
    exact ⟨[], rfl, fun _ hz => (List.not_mem_nil hz).elim, List.not_mem_nil⟩
  · rw [openToken_comment hin, hflags']
    exact fun _ => hflags

theorem Lexes.step_comment (h : Lexes pre s) (hin : ¬ InComment pre) (hc : isComment c) :
    LexesStep env pre s c := by
  have hchar : parserChar env s c = { s with char := c, tokenState := .comment, token := [] } := by
    simp only [parserChar, h.idle hin, hc, if_true]
  have hbyte : LexesByte pre c ↔ openToken pre = [] := by
    refine ⟨fun hb => hb.comment hin hc, fun hopen => ⟨fun _ _ => hopen, ?_, ?_⟩⟩
    · exact fun _ _ d hd => (List.not_mem_nil (hopen ▸ hd)).elim
    · exact fun _ _ => hopen ▸ List.not_mem_nil
  have hprinted : (parserChar env s c).printed = lexemes pre := by
    rw [hchar]
    exact h.printed
  refine ⟨?_, fun hb _ => ⟨?_, ?_, ?_, ?_⟩⟩
  · rw [hprinted, hbyte, lexemes_ended hin (.inl hc)]
    by_cases hopen : openToken pre = []
    · rw [if_pos hopen, List.append_nil]
      exact iff_of_true rfl hopen
    · rw [if_neg hopen]
      exact iff_of_false (fun he => append_ne_self _ _ _ he.symm) hopen
  · rw [hchar, inComment_snoc]
    exact iff_of_true rfl (.inl hc)
  · rw [hchar, openToken_ended hin (.inl hc)]
    exact ⟨[], rfl, fun _ hz => (List.not_mem_nil hz).elim, List.not_mem_nil⟩
  · intro _
    have hopen := hbyte.mp hb
    rw [hchar, openToken_ended hin (.inl hc)]
    exact (h.flags (hopen ▸ List.not_mem_nil)).trans (by rw [hopen])
  · rw [hprinted, lexemes_ended hin (.inl hc), if_pos (hbyte.mp hb), List.append_nil]

theorem parserChar_ends_none (env : Env W) (hi : s.tokenState = .idle)
    (hend : isSeparator c ∨ c = 0) (ht : s.token = []) :
    parserChar env s c = { s with char := 0, tokenFlags := s.tokenFlags.count c } := by
  have hcomment : ¬ isComment c := by
    rcases hend with hsep | rfl
    · exact not_isComment_of_isSeparator hsep
    · decide
  have hlen : ([] : CString).length < 128 := by decide
  simp only [parserChar, hi, hcomment, storeChar, ht, hlen, hend, if_true, if_false,
    Bool.false_eq_true]

theorem parserChar_prints (env : Env W) (h : s.EndsToken c) (hlen : s.token.length < 128) :
    ∃ rest, (parserChar env s c).printed = s.printed ++ (.any, s.token) :: rest := by
  obtain ⟨rest, hrest⟩ := analyse_prints env s.token (s.tokenFlags.count c)
    (s := { s with char := 0, tokenFlags := s.tokenFlags.count c }) h.1
  refine ⟨rest, ?_⟩
  rw [parserChar_ends h hlen]
  exact Parser.andThen_keeps (P := fun u : Parser W => u.printed = _) hrest fun _ => hrest

theorem parserChar_lexeme (h : s.EndsToken c) (hlen : s.token.length ≤ 127)
    (hf : (s.tokenFlags.count c).Counts s.token) :
    (parserChar env s c).printed = s.printed ++ lexeme s.token := by
  have hone : (analyse env s.token (s.tokenFlags.count c)
      { s with char := 0, tokenFlags := s.tokenFlags.count c }).printed =
        s.printed ++ lexeme s.token := analyse_printed h.2.2.2 hlen hf h.1
  rw [parserChar_ends h (Nat.lt_succ_of_le hlen)]
  exact Parser.andThen_keeps (P := fun u : Parser W => u.printed = _) hone fun _ => hone

theorem parserChar_renews (h : s.EndsToken c) (hlen : s.token.length < 128)
    (hr : (parserChar env s c).status = .reading) :
    (parserChar env s c).tokenState = .idle ∧ (parserChar env s c).token = [] ∧
      (parserChar env s c).tokenFlags = .zero := by
  have hsame := SameLexer.analyse env s.token (s.tokenFlags.count c)
    { s with char := 0, tokenFlags := s.tokenFlags.count c }
  rw [parserChar_ends h hlen] at hr ⊢
  rw [Parser.andThen_reading (Parser.reading_of_andThen hr)]
  exact ⟨hsame.tokenState.trans h.2.1, rfl, rfl⟩

theorem lexesByte_separator (hin : ¬ InComment pre) (hc : isSeparator c) :
    LexesByte pre c ↔ 0 ∉ openToken pre := by
  constructor
  · exact fun hb => hb.separator hin hc
  · intro hnul
    refine ⟨fun _ hcom => (not_isComment_of_isSeparator hc hcom).elim, ?_, fun _ _ => hnul⟩
    rintro _ rfl
    cases hc

theorem Lexes.ended (env : Env W) (h : Lexes pre s) (hin : ¬ InComment pre) (hc : isSeparator c)
    (hlen : (openToken pre).length ≤ 127) (hnul : 0 ∉ openToken pre) (hr : s.status = .reading) :
    (parserChar env s c).printed = lexemes (pre ++ [c]) ∧
      ((parserChar env s c).status = .reading → Lexes (pre ++ [c]) (parserChar env s c)) := by
  have hi := h.idle hin
  have htoken := h.token_eq hnul
  have hflags := h.flags hnul
  have hout : ¬ InComment (pre ++ [c]) := by
    rw [inComment_snoc]
    exact not_or.mpr ⟨not_isComment_of_isSeparator hc, fun hold => hin hold.1⟩
  have hlexes {u : Parser W} (hidle : u.tokenState = .idle) (hnone : u.token = [])
      (hzero : u.tokenFlags = .zero) (hprinted : u.printed = lexemes (pre ++ [c])) :
      Lexes (pre ++ [c]) u := by
    refine ⟨iff_of_false (hidle ▸ nofun) hout, ?_, ?_, hprinted⟩
    · rw [openToken_ended hin (.inr hc), hnone]
      exact ⟨[], rfl, fun _ hz => (List.not_mem_nil hz).elim, List.not_mem_nil⟩
    · rw [openToken_ended hin (.inr hc)]
      exact fun _ => hzero
  rw [lexemes_ended hin (.inr hc)] at hlexes ⊢
  by_cases hopen : openToken pre = []
  · rw [if_pos hopen, List.append_nil] at hlexes ⊢
    rw [hopen] at htoken hflags
    have hzero : s.tokenFlags = .zero := hflags
    rw [parserChar_ends_none env hi (.inl hc) htoken, TokenFlags.count_separator _ hc]
    refine ⟨h.printed, fun _ => ?_⟩
    apply hlexes
    · exact hi
    · exact htoken
    · exact hzero
    · exact h.printed
  · rw [if_neg hopen] at hlexes ⊢
    have hends : s.EndsToken c := ⟨hr, hi, .inl hc, htoken ▸ hopen⟩
    have hcounts : (s.tokenFlags.count c).Counts s.token := by
      rw [TokenFlags.count_separator _ hc, hflags, htoken]
      exact TokenFlags.counts (openToken_plain pre)
    have hprinted : (parserChar env s c).printed = lexemes pre ++ lexeme (openToken pre) := by
      rw [parserChar_lexeme hends (htoken ▸ hlen) hcounts, h.printed, htoken]
    refine ⟨hprinted, fun hreading => ?_⟩
    obtain ⟨hidle, hnone, hzero⟩ := parserChar_renews hends (h.length hlen) hreading
    exact hlexes hidle hnone hzero hprinted

theorem Lexes.step_separator (h : Lexes pre s) (hin : ¬ InComment pre) (hc : isSeparator c)
    (hlen : (openToken pre).length ≤ 127) (hr : s.status = .reading) :
    LexesStep env pre s c := by
  have hbyte := lexesByte_separator hin hc
  by_cases hnul : 0 ∈ openToken pre
  · have hno : ¬ LexesByte pre c := fun hb => hbyte.mp hb hnul
    refine ⟨iff_of_false ?_ hno, fun hb => (hno hb).elim⟩
    rw [lexemes_ended hin (.inr hc), if_neg (List.ne_nil_of_mem hnul), lexeme]
    by_cases htoken : s.token = []
    · rw [parserChar_ends_none env (h.idle hin) (.inl hc) htoken]
      exact fun he => append_ne_self _ _ _ (he.symm.trans h.printed)
    · have hends : s.EndsToken c := ⟨hr, h.idle hin, .inl hc, htoken⟩
      obtain ⟨rest, hrest⟩ := parserChar_prints env hends (h.length hlen)
      rw [hrest, h.printed, List.append_cancel_left_eq]
      intro he
      have hsame : s.token = openToken pre := congrArg Prod.snd (List.cons.inj he).1
      obtain ⟨_, _, _, hclean⟩ := h.token
      exact hclean (hsame ▸ hnul)
  · obtain ⟨hprinted, hlexes⟩ := h.ended env hin hc hlen hnul hr
    exact ⟨iff_of_true hprinted (hbyte.mpr hnul), fun _ => hlexes⟩

theorem Lexes.step_nul (h : Lexes pre s) (hin : ¬ InComment pre)
    (hlen : (openToken pre).length ≤ 127) (hr : s.status = .reading) :
    LexesStep env pre s 0 := by
  have hcomment : ¬ isComment 0 := by decide
  have hsep : ¬ isSeparator 0 := by decide
  obtain ⟨zeros, hopen, hzeros, hclean⟩ := h.token
  have hbyte : LexesByte pre 0 ↔ ∀ d ∈ openToken pre, d = 0 :=
    ⟨fun hb => hb.nul hin rfl,
      fun hall => ⟨fun _ hc => (hcomment hc).elim, fun _ _ => hall, fun _ hc => (hsep hc).elim⟩⟩
  have hout : ¬ InComment (pre ++ [0]) := by
    rw [inComment_snoc]
    exact not_or.mpr ⟨hcomment, fun hold => hin hold.1⟩
  have hlexemes := lexemes_continued hin hcomment hsep
  have hnext := openToken_continued hin hcomment hsep
  by_cases htoken : s.token = []
  · have hchar := parserChar_ends_none env (h.idle hin) (.inr rfl) htoken
    have hprinted : (parserChar env s 0).printed = lexemes (pre ++ [0]) := by
      rw [hchar, hlexemes]
      exact h.printed
    rw [htoken, List.append_nil] at hopen
    refine ⟨iff_of_true hprinted (hbyte.mpr (hopen ▸ hzeros)), fun _ _ => ⟨?_, ?_, ?_, hprinted⟩⟩
    · rw [hchar]
      exact iff_of_false ((h.idle hin).symm ▸ nofun) hout
    · rw [hchar, hnext, hopen]
      refine ⟨zeros ++ [0], ?_, ?_, htoken ▸ List.not_mem_nil⟩
      · exact (List.append_nil _).symm.trans (congrArg _ htoken.symm)
      · rw [List.forall_mem_append]
        exact ⟨hzeros, fun z hz => List.mem_singleton.mp hz⟩
    · rw [hnext]
      exact fun hno => (hno List.mem_concat_self).elim
  · have hends : s.EndsToken 0 := ⟨hr, h.idle hin, .inr rfl, htoken⟩
    have hno : ¬ LexesByte pre 0 := by
      rw [hbyte, hopen]
      intro hall
      obtain ⟨d, hd⟩ := List.exists_mem_of_ne_nil s.token htoken
      exact hclean (hall d (List.mem_append_right _ hd) ▸ hd)
    obtain ⟨rest, hrest⟩ := parserChar_prints env hends (h.length hlen)
    refine ⟨iff_of_false ?_ hno, fun hb => (hno hb).elim⟩
    rw [hrest, h.printed, hlexemes]
    exact append_ne_self _ _ _

theorem Lexes.step_ordinary (h : Lexes pre s) (hin : ¬ InComment pre) (ho : isOrdinary c)
    (hlen : (openToken pre).length ≤ 127) : LexesStep env pre s c := by
  obtain ⟨hsep, hnul, hcomment⟩ := isOrdinary_iff.mp ho
  have hchar : parserChar env s c =
      { s with char := c, tokenFlags := s.tokenFlags.count c, token := s.token ++ [c] } :=
    parserChar_ordinary (h.idle hin) ho (h.length hlen)
  have hnext := openToken_continued hin hcomment hsep
  have hbyte : LexesByte pre c :=
    ⟨fun _ hc => (hcomment hc).elim, fun _ hc => (hnul hc).elim, fun _ hc => (hsep hc).elim⟩
  have hprinted : (parserChar env s c).printed = lexemes (pre ++ [c]) := by
    rw [hchar, lexemes_continued hin hcomment hsep]
    exact h.printed
  refine ⟨iff_of_true hprinted hbyte, fun _ _ => ⟨?_, ?_, ?_, hprinted⟩⟩
  · rw [hchar, inComment_snoc]
    exact iff_of_false ((h.idle hin).symm ▸ nofun)
      (not_or.mpr ⟨hcomment, fun hold => hin hold.1⟩)
  · obtain ⟨zeros, hopen, hzeros, hclean⟩ := h.token
    rw [hchar, hnext, hopen]
    refine ⟨zeros, List.append_assoc _ _ _, hzeros, ?_⟩
    rw [List.mem_append]
    exact not_or.mpr ⟨hclean, fun hmem => hnul (List.mem_singleton.mp hmem).symm⟩
  · rw [hchar, hnext, List.foldl_append]
    intro hno
    exact congrArg (TokenFlags.count · c)
      (h.flags fun hmem => hno (List.mem_append_left _ hmem))

theorem Lexes.step (h : Lexes pre s) (hlen : (openToken pre).length ≤ 127)
    (hr : s.status = .reading) (c : UInt8) : LexesStep env pre s c := by
  by_cases hin : InComment pre
  · exact h.step_inside hin c
  · by_cases hcomment : isComment c
    · exact h.step_comment hin hcomment
    · by_cases hsep : isSeparator c
      · exact h.step_separator hin hsep hlen hr
      · by_cases hnul : c = 0
        · exact hnul ▸ h.step_nul hin hlen hr
        · exact h.step_ordinary hin (isOrdinary_iff.mpr ⟨hsep, hnul, hcomment⟩) hlen

/-- The parser is where the grammar is as long as each byte does what the grammar has for it. -/
theorem lexes_parse (hread : ReadsAll env (.start w c₀) bytes)
    (hshort : ∀ token ∈ pieces bytes, token.length ≤ 127)
    (hstep : ∀ pre c, pre ++ [c] <+: bytes → Lexes pre (parse env (.start w c₀) pre) →
      LexesByte pre c) (hp : pre <+: bytes)
    (hr : (parse env (.start w c₀) pre).status = .reading) :
    Lexes pre (parse env (.start w c₀) pre) := by
  induction pre using List.reverseRecOn with
  | nil => exact .start w c₀
  | append_singleton pre c ih =>
    have hold := (List.prefix_append pre [c]).trans hp
    obtain ⟨token, hmem, hopen⟩ := openToken_prefix hold
    have hlexes := ih hold (hread pre c hp)
    rw [parse_snoc_reading rfl (hread pre c hp)] at hr ⊢
    exact (hlexes.step (hopen.length_le.trans (hshort token hmem)) (hread pre c hp) c).lexes
      (hstep pre c hp hlexes) hr

theorem lexes_step_parse (hread : ReadsAll env (.start w c₀) bytes)
    (hshort : ∀ token ∈ pieces bytes, token.length ≤ 127)
    (hlexes : Lexes pre (parse env (.start w c₀) pre)) (hp : pre ++ [c] <+: bytes) :
    LexesStep env pre (parse env (.start w c₀) pre) c := by
  obtain ⟨token, hmem, hopen⟩ := openToken_prefix ((List.prefix_append pre [c]).trans hp)
  exact hlexes.step (hopen.length_le.trans (hshort token hmem)) (hread pre c hp) c

/-- The parser analyses the tokens of the grammar, each with its class, exactly when no comment
begins behind a token and no NUL is in one. -/
theorem lexes_iff (env : Env W) (w : W) (c₀ : UInt8) (bytes : List UInt8)
    (hread : ReadsAll env (.start w c₀) bytes)
    (hshort : ∀ token ∈ pieces bytes, token.length ≤ 127) :
    (∀ pre, pre <+: bytes → (parse env (.start w c₀) pre).printed = lexemes pre) ↔
      ∀ pre c, pre ++ [c] <+: bytes → LexesByte pre c := by
  constructor
  · intro hall
    have hstep : ∀ pre c, pre ++ [c] <+: bytes → Lexes pre (parse env (.start w c₀) pre) →
        LexesByte pre c := by
      intro pre c hp hlexes
      apply (lexes_step_parse hread hshort hlexes hp).printed_iff.mp
      rw [← parse_snoc_reading rfl (hread pre c hp)]
      exact hall _ hp
    intro pre c hp
    have hold := (List.prefix_append pre [c]).trans hp
    exact hstep pre c hp (lexes_parse hread hshort hstep hold (hread pre c hp))
  · intro hok pre hp
    induction pre using List.reverseRecOn with
    | nil => rfl
    | append_singleton pre c _ =>
      have hold := (List.prefix_append pre [c]).trans hp
      have hlexes := lexes_parse hread hshort (fun pre c hp _ => hok pre c hp) hold
        (hread pre c hp)
      rw [parse_snoc_reading rfl (hread pre c hp)]
      exact (lexes_step_parse hread hshort hlexes hp).printed_iff.mpr (hok pre c hp)

theorem lexes_iff_numbers :
    (∀ pre, pre <+: cstr "1 2.0," → (parse Env.sample (.start 0 0) pre).printed = lexemes pre) ↔
      ∀ pre c, pre ++ [c] <+: cstr "1 2.0," → LexesByte pre c :=
  lexes_iff Env.sample 0 0 _ (readsAll_of_take (by decide)) (by decide)

/-- The comment drops the "a", and its letter is counted for the "1". -/
theorem lexes_not :
    ReadsAll Env.sample (.start 0 0) (cstr "a;\n1 ") ∧
      (∀ token ∈ pieces (cstr "a;\n1 "), token.length ≤ 127) ∧
      (parse Env.sample (.start 0 0) (cstr "a;\n1 ")).printed ≠ lexemes (cstr "a;\n1 ") := by
  refine ⟨readsAll_of_take (by decide), by decide, ?_⟩
  have hone : (parse Env.sample (.start 0 0) (cstr "a;\n1 ")).printed.length = 1 := by decide
  have hfour : (lexemes (cstr "a;\n1 ")).length = 4 := by decide
  intro he
  rw [he, hfour] at hone
  cases hone

end Lexing

end Aiqb
