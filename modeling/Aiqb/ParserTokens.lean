import Aiqb.ParserFrame

namespace Aiqb
set_option autoImplicit true

variable {W : Type} {env : Env W} {s t : Parser W}

def isOrdinary (c : UInt8) : Bool := !isSeparator c && c != 0 && !isComment c

theorem isOrdinary_iff : isOrdinary c ↔ ¬ isSeparator c ∧ c ≠ 0 ∧ ¬ isComment c := by
  simp [isOrdinary, and_assoc]

theorem not_isComment_of_isSeparator (hc : isSeparator c) : ¬ isComment c := by
  simp only [isSeparator, Bool.or_eq_true, decide_eq_true_eq] at hc
  rcases hc with (((rfl | rfl) | rfl) | rfl) | rfl <;> decide

theorem TokenFlags.count_separator (f : TokenFlags) (hc : isSeparator c) : f.count c = f := by
  rw [count, if_pos hc]

theorem parse_snoc_reading (h : parse env s cs = t) (hr : t.status = .reading) (c : UInt8) :
    parse env s (cs ++ [c]) = parserChar env t c := by
  rw [parse_snoc, h, Parser.andThen_reading hr]

theorem parserChar_ordinary (hi : s.tokenState = .idle) (ho : isOrdinary c)
    (hlen : s.token.length < 128) :
    parserChar env s c =
      { s with char := c, tokenFlags := s.tokenFlags.count c, token := s.token ++ [c] } := by
  obtain ⟨hsep, h0, hcom⟩ := isOrdinary_iff.mp ho
  have hend : ¬ (isSeparator c ∨ c = 0) := not_or.mpr ⟨hsep, h0⟩
  simp only [parserChar, hi, if_neg hcom, storeChar, if_pos hlen, if_neg hend]

theorem parserChar_separator (hi : s.tokenState = .idle) (hc : isSeparator c)
    (hlen : s.token.length < 128) (hne : s.token ≠ []) :
    parserChar env s c =
      (analyse env s.token s.tokenFlags { s with char := 0 }).andThen fun s =>
        { s with tokenFlags := .zero, token := [] } := by
  have hcom := not_isComment_of_isSeparator hc
  simp only [parserChar, hi, if_neg hcom, storeChar, if_pos hlen, hc, true_or, if_true,
    TokenFlags.count_separator _ hc, if_neg hne]

theorem parserChar_separator_nil (hi : s.tokenState = .idle) (hc : isSeparator c)
    (ht : s.token = []) (h0 : s.char = 0) : parserChar env s c = s := by
  have hcom := not_isComment_of_isSeparator hc
  have hlen : s.token.length < 128 := by rw [ht]; decide
  simp only [parserChar, hi, if_neg hcom, storeChar, if_pos hlen, hc, true_or, if_true,
    TokenFlags.count_separator _ hc, if_pos ht]
  rw [← hi, ← h0]

theorem parse_word (env : Env W) (hi : s.tokenState = .idle) (hr : s.status = .reading)
    (hw : ∀ c ∈ word, isOrdinary c) (hlen : s.token.length + word.length ≤ 128) :
    parse env s word =
      { s with
        char := word.getLast?.getD s.char
        tokenFlags := word.foldl TokenFlags.count s.tokenFlags
        token := s.token ++ word } := by
  induction word using List.reverseRecOn with
  | nil => rw [List.append_nil]; rfl
  | append_singleton word c ih =>
    rw [List.length_append, List.length_singleton] at hlen
    have hlt : (s.token ++ word).length < 128 := by
      rw [List.length_append]
      omega
    have hword := ih (fun d hd => hw d (List.mem_append_left _ hd)) (by omega)
    rw [parse_snoc_reading hword hr, parserChar_ordinary]
    · simp only [List.foldl_append, List.foldl_cons, List.foldl_nil, List.append_assoc,
        List.getLast?_append, List.getLast?_singleton, Option.some_or, Option.getD_some]
    · exact hi
    · exact hw c (by simp)
    · exact hlt

theorem parse_separators (hi : s.tokenState = .idle) (hr : s.status = .reading)
    (ht : s.token = []) (h0 : s.char = 0) (hs : ∀ c ∈ seps, isSeparator c) :
    parse env s seps = s := by
  induction seps using List.reverseRecOn with
  | nil => rfl
  | append_singleton seps c ih =>
    rw [parse_snoc_reading (ih fun d hd => hs d (List.mem_append_left _ hd)) hr]
    exact parserChar_separator_nil hi (hs c (by simp)) ht h0

structure Parser.Between (s : Parser W) : Prop where
  idle : s.tokenState = .idle
  reading : s.status = .reading
  token : s.token = []
  flags : s.tokenFlags = .zero

/-- A token with its separators is analysed once, and the lexer is ready for the next one. -/
theorem parse_token (env : Env W) {t : CString} (hb : s.Between) (hne : t ≠ [])
    (hw : ∀ c ∈ t, isOrdinary c) (hlen : t.length ≤ 127) (hsne : seps ≠ [])
    (hs : ∀ c ∈ seps, isSeparator c)
    (flags : TokenFlags) (hf : t.foldl TokenFlags.count .zero = flags)
    (s' : Parser W)
    (hs' : analyse env t flags { s with char := 0, tokenFlags := flags, token := t } = s')
    (hr : s'.status = .reading) :
    parse env s (t ++ seps) = { s' with tokenFlags := .zero, token := [] } := by
  obtain ⟨c, seps, rfl⟩ := List.exists_cons_of_ne_nil hsne
  have hc : isSeparator c := hs c List.mem_cons_self
  have hlen' : s.token.length + t.length ≤ 128 := by
    rw [hb.token, List.length_nil]
    omega
  have hword := parse_word env hb.idle hb.reading hw hlen'
  rw [hb.flags, hf, hb.token, List.nil_append] at hword
  have hfirst : parse env s (t ++ [c]) = { s' with tokenFlags := .zero, token := [] } := by
    have hlt : t.length < 128 := by omega
    rw [parse_snoc_reading hword hb.reading, parserChar_separator]
    · simp only [hs', Parser.andThen_reading hr]
    · exact hb.idle
    · exact hc
    · exact hlt
    · exact hne
  have hsame := SameLexer.analyse env t flags
    { s with char := 0, tokenFlags := flags, token := t }
  rw [hs'] at hsame
  have hsplit : t ++ c :: seps = (t ++ [c]) ++ seps := by simp
  rw [hsplit, parse_append, hfirst]
  exact parse_separators (hsame.tokenState.trans hb.idle) hr rfl hsame.char
    (fun d hd => hs d (List.mem_cons_of_mem _ hd))

end Aiqb
