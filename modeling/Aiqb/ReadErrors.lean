import Aiqb.LexerGrammar

namespace Aiqb
set_option autoImplicit true

def ReadResult.isByte : ReadResult → Bool
  | .byte _ => true
  | .error => false

def delivered (reads : List ReadResult) : List ReadResult := reads.filter ReadResult.isByte

variable {W : Type} {env : Env W} {s s' : Parser W}

def resultStep (env : Env W) (s : Parser W) (r : ReadResult) : Option (Parser W) :=
  if s.status = .reading then some (parserRead env s r) else none

/-- The variable `c` is one that the loop passes over when it comes again: inside a comment, or the
newline behind one. -/
def Parser.PassesOver (s : Parser W) : Prop :=
  s.tokenState = .comment ∧ ¬ isNewline s.char ∨
    s.tokenState = .idle ∧ isSeparator s.char ∧ s.token = []

instance (s : Parser W) : Decidable s.PassesOver := inferInstanceAs (Decidable (_ ∨ _))

def SameButChar (s s' : Parser W) : Prop := s' = { s with char := s'.char }

namespace SameButChar

theorem refl (s : Parser W) : SameButChar s s := rfl

theorem trans (h : SameButChar s s') (h' : SameButChar s' t) : SameButChar s t := by
  unfold SameButChar at h h' ⊢
  rw [h', h]

theorem symm (h : SameButChar s s') : SameButChar s' s := by
  unfold SameButChar at h ⊢
  rw [h]

theorem parserChar (h : SameButChar s s') (c : UInt8) :
    SameButChar (Aiqb.parserChar env s c) (Aiqb.parserChar env s' c) := by
  unfold SameButChar at h
  rw [h]
  unfold Aiqb.parserChar
  dsimp only
  split
  · split <;> exact rfl
  · split
    · exact rfl
    · unfold storeChar
      dsimp only
      split
      · split
        · split <;> exact rfl
        · exact rfl
      · exact rfl

theorem tokenState (h : SameButChar s s') : s'.tokenState = s.tokenState := by
  rw [show s' = { s with char := s'.char } from h]

theorem tokenFlags (h : SameButChar s s') : s'.tokenFlags = s.tokenFlags := by
  rw [show s' = { s with char := s'.char } from h]

theorem token (h : SameButChar s s') : s'.token = s.token := by
  rw [show s' = { s with char := s'.char } from h]

theorem status (h : SameButChar s s') : s'.status = s.status := by
  rw [show s' = { s with char := s'.char } from h]

end SameButChar

theorem TokenFlags.count_nul (f : TokenFlags) : f.count 0 ≠ f := by
  intro h
  have hall : f.all + 1 = f.all := congrArg TokenFlags.all h
  simp at hall

theorem separator_of_same (hr : s.status = .reading) (hi : s.tokenState = .idle)
    (h : SameButChar s (parserChar env s c)) : isSeparator c ∧ s.token = [] := by
  have hread : (parserChar env s c).status = .reading := h.status.trans hr
  have hcomment : ¬ isComment c := by
    intro hc
    have hstate := h.tokenState
    simp only [parserChar, hi, hc, if_true] at hstate
    cases hstate
  by_cases hend : isSeparator c ∨ c = 0
  · by_cases ht : s.token = []
    · refine ⟨?_, ht⟩
      rcases hend with hsep | rfl
      · exact hsep
      · have hflags := h.tokenFlags
        rw [parserChar_ends_none env hi (.inr rfl) ht] at hflags
        exact (TokenFlags.count_nul _ hflags).elim
    · have hends : s.EndsToken c := ⟨hr, hi, hend, ht⟩
      have hlen := parserChar_reading_length hends hread
      exact (ht (h.token.symm.trans (parserChar_renews hends hlen hread).2.1)).elim
  · rw [not_or] at hend
    have hord : isOrdinary c := isOrdinary_iff.mpr ⟨hend.1, hend.2, hcomment⟩
    by_cases hlen : s.token.length < 128
    · have htoken := h.token
      rw [parserChar_ordinary hi hord hlen] at htoken
      exact (append_ne_self s.token c [] htoken).elim
    · have hno : ¬ (isSeparator c ∨ c = 0) := not_or.mpr hend
      simp only [parserChar, hi, hcomment, storeChar, hlen, if_false, Bool.false_eq_true] at hread
      cases hread

theorem error_passed_over_iff (env : Env W) (hr : s.status = .reading) :
    SameButChar s (parserChar env s s.char) ↔ s.PassesOver := by
  constructor
  · intro h
    cases hi : s.tokenState with
    | comment =>
      refine .inl ⟨hi, ?_⟩
      intro hnl
      have hstate := h.tokenState
      simp only [parserChar, hi, hnl, if_true] at hstate
      cases hstate
    | idle => exact .inr ⟨hi, separator_of_same hr hi h⟩
  · rintro (⟨hi, hnl⟩ | ⟨hi, hsep, ht⟩)
    · simp only [parserChar, hi, if_neg hnl, SameButChar]
    · rw [parserChar_ends_none env hi (.inl hsep) ht, TokenFlags.count_separator _ hsep,
        SameButChar]

structure SameActs (s s' : Parser W) : Prop where
  log : s'.log = s.log
  world : s'.world = s.world
  status : s'.status = s.status

theorem SameButChar.acts (h : SameButChar s s') : SameActs s s' := by
  rw [show s' = { s with char := s'.char } from h]
  exact ⟨rfl, rfl, rfl⟩

theorem parser_append (env : Env W) (s : Parser W) (reads rest : List ReadResult) :
    parser env s (reads ++ rest) = parser env (parser env s reads) rest := List.foldl_append

theorem parserRead_reading (h : (parserRead env s r).status = .reading) : s.status = .reading :=
  Parser.reading_of_andThen h

theorem run_of_reads {reads : List ReadResult} (hr : (parser env s reads).status = .reading) :
    Run (resultStep env) s reads (parser env s reads) := by
  induction reads using List.reverseRecOn with
  | nil => exact Run.nil_iff.mpr rfl
  | append_singleton reads r ih =>
    rw [parser_append] at hr ⊢
    have hpre : (parser env s reads).status = .reading := parserRead_reading (r := r) hr
    exact Run.snoc_iff.mpr ⟨_, ih hpre, if_pos hpre⟩

theorem parser_of_run {reads : List ReadResult} (h : Run (resultStep env) s reads t) :
    parser env s reads = t := by
  induction reads generalizing s with
  | nil => exact Run.nil_iff.mp h
  | cons r reads ih =>
    obtain ⟨u, hu, ht⟩ := Run.cons_iff.mp h
    simp only [resultStep, Option.ite_none_right_eq_some, Option.some.injEq] at hu
    rw [← ih ht, ← hu.2]
    rfl

theorem passesOver_of_take {reads : List ReadResult}
    (h : ∀ n < reads.length, reads[n]?.all ReadResult.isByte ∨
      (parser env s (reads.take n)).PassesOver) :
    StepsMeet (resultStep env) (fun s r => r = .error → s.PassesOver) s reads := by
  rintro pre r t ⟨post, rfl⟩ hrun rfl
  have hn := h pre.length (by simp)
  rw [List.append_assoc, List.take_left, parser_of_run hrun] at hn
  apply hn.resolve_left
  simp [ReadResult.isByte]

/-- One more result keeps the two parsers together, if an error is passed over. -/
theorem SameButChar.read (h : SameButChar s s') (r : ReadResult)
    (hok : s.status = .reading → r = .error → s.PassesOver) :
    SameButChar (parserRead env s r) (parser env s' (delivered [r])) := by
  by_cases hr : s.status = .reading
  · have hr' : s'.status = .reading := h.status.trans hr
    rw [parserRead, Parser.andThen_reading hr]
    cases r with
    | byte c =>
      have hbyte : parserRead env s' (.byte c) = Aiqb.parserChar env s' c :=
        Parser.andThen_reading hr' _
      change SameButChar _ (parserRead env s' (.byte c))
      rw [hbyte]
      exact h.parserChar c
    | error =>
      have herror := (error_passed_over_iff env hr).mpr (hok hr rfl)
      exact herror.symm.trans h
  · have hr' : s'.status ≠ .reading := fun he => hr (h.status.symm.trans he)
    rw [parserRead, Parser.andThen_left hr]
    cases r with
    | byte c =>
      have hbyte : parserRead env s' (.byte c) = s' := Parser.andThen_left hr' _
      change SameButChar _ (parserRead env s' (.byte c))
      rw [hbyte]
      exact h
    | error => exact h

/-- Errors that are passed over change nothing of what the parser does. -/
theorem errors_unnoticed (env : Env W) (w : W) (c₀ : UInt8) (reads : List ReadResult)
    (hok : StepsMeet (resultStep env) (fun s r => r = .error → s.PassesOver) (.start w c₀) reads) :
    ∀ pre, pre <+: reads → SameActs (parser env (.start w c₀) pre)
      (parser env (.start w c₀) (delivered pre)) := by
  intro pre hp
  apply SameButChar.acts
  have hmeets := hok.of_prefix hp
  clear hp hok
  induction pre using List.reverseRecOn with
  | nil => exact .refl _
  | append_singleton pre r ih =>
    have hsame := ih (hmeets.of_prefix (List.prefix_append _ _))
    have hdelivered : delivered (pre ++ [r]) = delivered pre ++ delivered [r] :=
      List.filter_append pre [r]
    rw [hdelivered, parser_append, parser_append]
    apply hsame.read r
    intro hr
    exact hmeets pre r _ (List.prefix_refl _) (run_of_reads hr)

def interruptedComment : List ReadResult := [.byte 35, .error, .byte 10, .error, .byte 49, .byte 32]

theorem errors_unnoticed_comment :
    SameActs (parser Env.sample (.start 0 0) interruptedComment)
      (parser Env.sample (.start 0 0) (delivered interruptedComment)) := by
  apply errors_unnoticed Env.sample 0 0 interruptedComment
  · exact passesOver_of_take (by decide)
  · exact List.prefix_refl _

def interruptedNumber : List ReadResult := [.byte 49, .error, .byte 32]

theorem errors_noticed :
    ¬ ∀ reads : List ReadResult,
      SameActs (parser Env.sample (.start 0 0) reads)
          (parser Env.sample (.start 0 0) (delivered reads)) ∨
        SameActs (parser Env.sample (.start 0 0) reads)
          (parser Env.sample (.start 0 0) (reads.takeWhile ReadResult.isByte)) := by
  intro hall
  have hlog : (parser Env.sample (.start 0 0) interruptedNumber).log =
      [.printed .any [49, 49], .printed .integer [49, 49]] := by rfl
  rcases hall interruptedNumber with h | h
  · have hone := h.log
    rw [hlog] at hone
    cases hone
  · have hnone := h.log
    rw [hlog] at hnone
    cases hnone

end Aiqb
