import Aiqb.ParserTokens

namespace Aiqb
set_option autoImplicit true

variable {W : Type} {env : Env W} {s : Parser W} {t : CString}

structure Numeral (t : CString) : Prop where
  ne_nil : t ≠ []
  length : t.length ≤ 127
  digits : ∀ c ∈ t, isDigit c
  value : decimal t < 2 ^ 31

structure DigitText (t : CString) : Prop where
  ne_nil : t ≠ []
  length : t.length ≤ 127
  digits : ∀ c ∈ t, isDigit c

/-- A number written `digits.digits`, as a token. -/
structure FloatText (t : CString) : Prop where
  split : ∃ a b, t = a ++ 46 :: b ∧ a ≠ [] ∧ b ≠ [] ∧ (∀ c ∈ a, isDigit c) ∧ ∀ c ∈ b, isDigit c
  length : t.length ≤ 127

theorem Numeral.digitText (ht : Numeral t) : DigitText t := ⟨ht.ne_nil, ht.length, ht.digits⟩

theorem Numeral.of_all (hne : t ≠ []) (hlen : t.length ≤ 127) (hall : t.all isDigit)
    (hval : decimal t < 2 ^ 31) : Numeral t :=
  ⟨hne, hlen, List.all_eq_true.mp hall, hval⟩

theorem numeral_zero : Numeral (cstr "0") := .of_all nofun (by decide) (by decide) (by decide)

theorem numeral_one : Numeral (cstr "1") := .of_all nofun (by decide) (by decide) (by decide)

theorem isDigit_iff : isDigit c ↔ 48 ≤ c.toNat ∧ c.toNat ≤ 57 := by
  simp only [isDigit, Bool.and_eq_true, decide_eq_true_eq, UInt8.le_iff_toNat_le]
  rfl

theorem toNat_ne_of_digit (hc : isDigit c) {k : UInt8} (hk : k.toNat < 48 ∨ 57 < k.toNat) :
    c ≠ k := by
  rintro rfl
  rw [isDigit_iff] at hc
  omega

theorem isDigit_ordinary (hc : isDigit c) : isOrdinary c := by
  have hne (k : UInt8) (hk : k.toNat < 48 ∨ 57 < k.toNat) : (c == k) = false :=
    beq_eq_false_iff_ne.mpr (toNat_ne_of_digit hc hk)
  simp only [isOrdinary, isSeparator, isComment, bne, ← beq_eq_decide, hne 32 (by decide),
    hne 10 (by decide), hne 13 (by decide), hne 9 (by decide), hne 44 (by decide),
    hne 0 (by decide), hne 59 (by decide), hne 35 (by decide), hne 33 (by decide)]
  rfl

theorem isDigit_not_letter (hc : isDigit c) : isLetter c = false := by
  rw [isDigit_iff] at hc
  simp only [isLetter, Bool.or_eq_false_iff, Bool.and_eq_false_iff, decide_eq_false_iff_not,
    UInt8.le_iff_toNat_le, ← UInt8.toNat_inj]
  have h97 : (97 : UInt8).toNat = 97 := rfl
  have h65 : (65 : UInt8).toNat = 65 := rfl
  have h95 : (95 : UInt8).toNat = 95 := rfl
  have h58 : (58 : UInt8).toNat = 58 := rfl
  omega

theorem count_digit (hc : isDigit c) (f : TokenFlags) :
    f.count c = { f with digits := f.digits + 1, all := f.all + 1 } := by
  have hs : ¬ isSeparator c := (isOrdinary_iff.mp (isDigit_ordinary hc)).1
  have hd : c ≠ 46 := toNat_ne_of_digit hc (by decide)
  simp only [TokenFlags.count, if_neg hs, hc, if_true, isDigit_not_letter hc, if_neg hd,
    Bool.false_eq_true, if_false]

theorem foldl_count_digits (ht : ∀ c ∈ t, isDigit c) (f : TokenFlags) :
    t.foldl TokenFlags.count f =
      { f with
        digits := f.digits + UInt16.ofNat t.length
        all := f.all + UInt16.ofNat t.length } := by
  induction t generalizing f with
  | nil => simp
  | cons c t ih =>
    rw [List.foldl_cons, count_digit (ht c List.mem_cons_self),
      ih fun d hd => ht d (List.mem_cons_of_mem _ hd)]
    have hlen (x : UInt16) : x + 1 + UInt16.ofNat t.length = x + UInt16.ofNat (t.length + 1) := by
      rw [UInt16.ofNat_add, UInt16.add_assoc, UInt16.add_comm 1]
      rfl
    simp only [hlen, List.length_cons]

theorem DigitText.flags (ht : DigitText t) :
    t.foldl TokenFlags.count .zero = ⟨UInt16.ofNat t.length, 0, 0, UInt16.ofNat t.length⟩ := by
  rw [foldl_count_digits ht.digits]
  simp [TokenFlags.zero]

theorem FloatText.flags (ht : FloatText t) :
    t.foldl TokenFlags.count .zero =
      ⟨UInt16.ofNat (t.length - 1), 0, 1, UInt16.ofNat (t.length - 1) + 1⟩ := by
  obtain ⟨a, b, rfl, _, _, ha, hb⟩ := ht.split
  have hdot (f : TokenFlags) :
      f.count 46 = { f with dots := f.dots + 1, all := f.all + 1 } := rfl
  have hlen : (a ++ 46 :: b).length - 1 = a.length + b.length := by
    simp
  rw [List.foldl_append, foldl_count_digits ha, List.foldl_cons, hdot, foldl_count_digits hb, hlen,
    UInt16.ofNat_add]
  simp [TokenFlags.zero, UInt16.add_assoc, UInt16.add_comm 1]

theorem DigitText.ordinary (ht : DigitText t) : ∀ c ∈ t, isOrdinary c :=
  fun c hc => isDigit_ordinary (ht.digits c hc)

theorem Numeral.ordinary (ht : Numeral t) : ∀ c ∈ t, isOrdinary c := ht.digitText.ordinary

theorem FloatText.ordinary (ht : FloatText t) : ∀ c ∈ t, isOrdinary c := by
  obtain ⟨a, b, rfl, _, _, ha, hb⟩ := ht.split
  intro c hc
  rcases List.mem_append.mp hc with hc | hc
  · exact isDigit_ordinary (ha c hc)
  · rcases List.mem_cons.mp hc with rfl | hc
    · decide
    · exact isDigit_ordinary (hb c hc)

theorem FloatText.ne_nil (ht : FloatText t) : t ≠ [] := by
  obtain ⟨a, b, rfl, _⟩ := ht.split
  simp

theorem DigitText.strtol (ht : DigitText t) : strtol t = min (decimal t : Int) (2 ^ 63 - 1) := by
  obtain ⟨c, t', rfl⟩ := List.exists_cons_of_ne_nil ht.ne_nil
  have hc := ht.digits c List.mem_cons_self
  have hspace : isSpace c = false := by
    rw [isDigit_iff] at hc
    simp only [isSpace, Bool.or_eq_false_iff, Bool.and_eq_false_iff, decide_eq_false_iff_not,
      UInt8.le_iff_toNat_le, ← UInt8.toNat_inj]
    have h32 : (32 : UInt8).toNat = 32 := rfl
    have h13 : (13 : UInt8).toNat = 13 := rfl
    omega
  have hdrop : (c :: t').dropWhile isSpace = c :: t' := by
    rw [List.dropWhile_cons_of_neg]
    rw [hspace]
    exact Bool.false_ne_true
  have htake : (c :: t').takeWhile isDigit = c :: t' := by
    have happ : ((c :: t') ++ []).takeWhile isDigit = (c :: t') ++ [].takeWhile isDigit :=
      List.takeWhile_append_of_pos ht.digits
    rwa [List.takeWhile_nil, List.append_nil] at happ
  have h45 : c ≠ 45 := toNat_ne_of_digit hc (by decide)
  have h43 : c ≠ 43 := toNat_ne_of_digit hc (by decide)
  unfold Aiqb.strtol
  rw [hdrop]
  split
  · next h => cases h; exact absurd rfl h45
  · next h => cases h; exact absurd rfl h43
  · rw [htake]

theorem Numeral.atoul (ht : Numeral t) : atoul t = UInt64.ofNat (decimal t) := by
  have hv := ht.value
  have hbmod : (min (decimal t : Int) (2 ^ 63 - 1)).bmod (2 ^ 32) = decimal t := by
    rw [min_eq_left (by omega)]
    apply Int.bmod_eq_of_le <;> omega
  have hmod : ((decimal t : Int) % 2 ^ 64).toNat = decimal t := by omega
  rw [Aiqb.atoul, atoi, ht.digitText.strtol, hbmod, UInt64.ofInt, hmod]

theorem Numeral.atoul_toNat (ht : Numeral t) : (Aiqb.atoul t).toNat = decimal t := by
  have hv := ht.value
  rw [ht.atoul, UInt64.toNat_ofNat']
  omega

theorem ofNat_length_ne_zero (hne : t ≠ []) (hlen : t.length ≤ 127) :
    UInt16.ofNat t.length ≠ 0 := by
  have hpos := List.length_pos_iff.mpr hne
  intro h
  have h' := congrArg UInt16.toNat h
  rw [UInt16.toNat_ofNat', UInt16.toNat_zero] at h'
  omega

theorem analyseInteger_other {flags : TokenFlags} (h : ¬ flags.isInteger) (s : Parser W) :
    analyseInteger env t flags s = s := if_neg h

theorem analyseFloat_other {flags : TokenFlags} (h : ¬ flags.isFloat) (s : Parser W) :
    analyseFloat env t flags s = s := if_neg h

theorem analyseCommand_other {flags : TokenFlags} (h : ¬ flags.isCommand) (s : Parser W) :
    analyseCommand env t flags s = s := if_neg h

theorem analyse_digits (ht : DigitText t) (s : Parser W) :
    analyse env t (t.foldl TokenFlags.count .zero) s =
      integerToken env t ((s.emit (.printed .any t)).emit (.printed .integer t)) := by
  have hn := ofNat_length_ne_zero ht.ne_nil ht.length
  rw [ht.flags]
  generalize hf : (⟨UInt16.ofNat t.length, 0, 0, UInt16.ofNat t.length⟩ : TokenFlags) = flags
  have hint : flags.isInteger := by simp [← hf, TokenFlags.isInteger]
  have hfloat : ¬ flags.isFloat := by simp [← hf, TokenFlags.isFloat]
  have hcom : ¬ flags.isCommand := by simp [← hf, TokenFlags.isCommand, hn]
  rw [analyse, Parser.andThen_same (analyseFloat_other hfloat _),
    Parser.andThen_same (analyseCommand_other hcom _)]
  exact if_pos hint

theorem analyse_letters {n : UInt16} (hn : n ≠ 0) (hr : s.status = .reading) :
    analyse env t ⟨0, n, 0, n⟩ s =
      commandToken env t ((s.emit (.printed .any t)).emit (.printed .command t)) := by
  generalize hf : (⟨0, n, 0, n⟩ : TokenFlags) = flags
  have hint : ¬ flags.isInteger := by simp [← hf, TokenFlags.isInteger, hn]
  have hfloat : ¬ flags.isFloat := by simp [← hf, TokenFlags.isFloat]
  have hcom : flags.isCommand := by simp [← hf, TokenFlags.isCommand]
  rw [analyse, analyseInteger_other hint, Parser.andThen_same (analyseFloat_other hfloat _),
    Parser.andThen_reading]
  · exact if_pos hcom
  · exact hr

theorem analyse_float (ht : FloatText t) (hr : s.status = .reading) :
    analyse env t (t.foldl TokenFlags.count .zero) s =
      floatToken env t ((s.emit (.printed .any t)).emit (.printed .float t)) := by
  have hpos := List.length_pos_iff.mpr ht.ne_nil
  have hlen := ht.length
  have hsucc :
      (UInt16.ofNat (t.length - 1) + 1).toNat = (UInt16.ofNat (t.length - 1)).toNat + 1 := by
    rw [UInt16.toNat_add, UInt16.toNat_ofNat', UInt16.toNat_one]
    omega
  rw [ht.flags]
  generalize UInt16.ofNat (t.length - 1) = n at hsucc
  generalize hf : (⟨n, 0, 1, n + 1⟩ : TokenFlags) = flags
  have hint : ¬ flags.isInteger := by
    simp only [← hf, TokenFlags.isInteger, decide_eq_true_eq]
    intro h
    rw [h] at hsucc
    omega
  have hfloat : flags.isFloat := by simp [← hf, TokenFlags.isFloat, hsucc]
  have hcom : ¬ flags.isCommand := by
    simp only [← hf, TokenFlags.isCommand, decide_eq_true_eq]
    intro h
    rw [h] at hsucc
    exact absurd hsucc.symm (Nat.succ_ne_zero _)
  rw [analyse, analyseInteger_other hint, Parser.andThen_same (analyseCommand_other hcom _),
    Parser.andThen_reading]
  · exact if_pos hfloat
  · exact hr

structure Separators (seps : List UInt8) : Prop where
  ne_nil : seps ≠ []
  all : ∀ c ∈ seps, isSeparator c

def ParserEvent.registered : ParserEvent → Option ProblemDraft
  | .registerProblem d => some d
  | _ => none

theorem ParserEvent.registered_eq {e : ParserEvent} (he : e.registered = some d) :
    e = .registerProblem d := by
  cases e with
  | registerProblem d' =>
    cases he
    rfl
  | _ => cases he

def registeredProblems (log : List ParserEvent) : List ProblemDraft :=
  log.filterMap ParserEvent.registered

theorem registered_other {e : ParserEvent} (he : e.registered = none) (log : List ParserEvent) :
    registeredProblems (log ++ [e]) = registeredProblems log := by
  rw [registeredProblems, List.filterMap_append, List.filterMap_cons_none he]
  exact List.append_nil _

theorem registered_problem (d : ProblemDraft) (log : List ParserEvent) :
    registeredProblems (log ++ [.registerProblem d]) = registeredProblems log ++ [d] := by
  rw [registeredProblems, List.filterMap_append]
  rfl

/-- The parser is receiving the problem `d`, and has registered `ps` before. -/
structure Parser.Receives (s : Parser W) (d : ProblemDraft) (ps : List ProblemDraft) : Prop where
  between : s.Between
  state : s.state = .problem d
  registered : registeredProblems s.log = ps

theorem parse_numeral {d d' d'' : ProblemDraft} (hs : s.Receives d ps) (ht : Numeral t)
    (hsep : Separators seps)
    (hassign : assignHeader env s.world s.index (atoul t) d = (.ok d', w))
    (hstore : storeIndex s.index.toUInt64 (atoul t) d' = some d'') :
    (parse env s (t ++ seps)).Receives d'' ps ∧ (parse env s (t ++ seps)).index = s.index + 1 ∧
      (parse env s (t ++ seps)).world = w := by
  have htoken := parse_token env hs.between ht.ne_nil ht.ordinary ht.length hsep.ne_nil
    hsep.all _ rfl
  rw [analyse_digits ht.digitText, integerToken_eq] at htoken
  · simp only [Parser.emit_state, hs.state, integerProblem, Parser.emit_world, Parser.emit_index,
      hassign, hstore] at htoken
    rw [htoken _ rfl hs.between.reading]
    have hlog : registeredProblems
        (s.log ++ [.printed .any t] ++ [.printed .integer t]) = ps := by
      rw [registered_other rfl, registered_other rfl, hs.registered]
    exact ⟨⟨⟨hs.between.idle, hs.between.reading, rfl, rfl⟩, rfl, hlog⟩, rfl, rfl⟩
  · exact hs.between.reading

theorem parse_float {d d' : ProblemDraft} (hs : s.Receives d ps) (ht : FloatText t)
    (hsep : Separators seps)
    (hstore : storePoint s.index.toUInt64 (env.atof t) d = some d')
    (hnot : (s.index + 1).toUInt64 ≠ d'.total) :
    (parse env s (t ++ seps)).Receives d' ps ∧
      (parse env s (t ++ seps)).index = s.index + 1 := by
  have htoken := parse_token env hs.between ht.ne_nil ht.ordinary ht.length hsep.ne_nil
    hsep.all _ rfl
  rw [analyse_float ht, floatToken_eq] at htoken
  · simp only [Parser.emit_state, hs.state, floatProblem, Parser.emit_world, Parser.emit_index,
      hstore, if_neg hnot] at htoken
    rw [htoken _ rfl hs.between.reading]
    have hlog : registeredProblems
        (s.log ++ [.printed .any t] ++ [.printed .float t]) = ps := by
      rw [registered_other rfl, registered_other rfl, hs.registered]
    exact ⟨⟨⟨hs.between.idle, hs.between.reading, rfl, rfl⟩, rfl, hlog⟩, rfl⟩
  · exact hs.between.reading
  · exact hs.between.reading

theorem parse_last {d d' : ProblemDraft} {id : UInt64} (hs : s.Receives d ps) (ht : FloatText t)
    (hsep : Separators seps)
    (hstore : storePoint s.index.toUInt64 (env.atof t) d = some d')
    (htotal : (s.index + 1).toUInt64 = d'.total)
    (hhandler : env.handler.bind ParserHandle.registerProblem = some register)
    (hcall : register s.world d'.ptr d'.val = some (id, w)) :
    (parse env s (t ++ seps)).Between ∧ (parse env s (t ++ seps)).state = .idle ∧
      (parse env s (t ++ seps)).index = 0 ∧
      registeredProblems (parse env s (t ++ seps)).log = ps ++ [d'] := by
  have htoken := parse_token env hs.between ht.ne_nil ht.ordinary ht.length hsep.ne_nil
    hsep.all _ rfl
  rw [analyse_float ht, floatToken_eq] at htoken
  · simp only [Parser.emit_state, hs.state, floatProblem, Parser.emit_world, Parser.emit_index,
      hstore, if_pos htotal, completeProblem, hhandler, hcall] at htoken
    rw [htoken _ rfl hs.between.reading]
    have hlog : registeredProblems (s.log ++ [.printed .any t] ++ [.printed .float t] ++
        [.registerProblem d'] ++ [.reply (.problemOk id)]) = ps ++ [d'] := by
      rw [registered_other rfl, registered_problem, registered_other rfl, registered_other rfl,
        hs.registered]
    exact ⟨⟨hs.between.idle, hs.between.reading, rfl, rfl⟩, rfl, rfl, hlog⟩
  · exact hs.between.reading
  · exact hs.between.reading

end Aiqb
