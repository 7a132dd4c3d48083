import Aiqb.ParserTokens

namespace Aiqb
set_option autoImplicit true

variable {W : Type} {env : Env W} {s s' : Parser W}

def ReadsAll (env : Env W) (s : Parser W) (bytes : List UInt8) : Prop :=
  ∀ pre c, pre ++ [c] <+: bytes → (parse env s pre).status = .reading

/-- If `c` is stored to the token, it is stored inside the array. -/
def Parser.StoresInside (s : Parser W) (c : UInt8) : Prop :=
  s.tokenState = .idle → ¬ isComment c → s.token.length < 128

def InComment (bytes : List UInt8) : Prop :=
  ∃ a c b, bytes = a ++ c :: b ∧ isComment c ∧ ∀ d ∈ b, ¬ isNewline d

/-- Outside comments, 128 ordinary bytes in a row are only followed by a comment. -/
def ShortTokens (bytes : List UInt8) : Prop :=
  ∀ pre word c post, bytes = pre ++ word ++ c :: post → ¬ InComment pre →
    (∀ d ∈ word, isOrdinary d) → word.length = 128 → isComment c

theorem isNewline_ne_isComment (hc : isComment c) : ¬ isNewline c := by
  simp only [isComment, Bool.or_eq_true, decide_eq_true_eq] at hc
  rcases hc with (rfl | rfl) | rfl <;> decide

theorem isSeparator_of_isNewline (hc : isNewline c) : isSeparator c := by
  simp only [isNewline, Bool.or_eq_true, decide_eq_true_eq] at hc
  rcases hc with rfl | rfl <;> decide

theorem inComment_snoc (bytes : List UInt8) (c : UInt8) :
    InComment (bytes ++ [c]) ↔ isComment c ∨ InComment bytes ∧ ¬ isNewline c := by
  constructor
  · rintro ⟨a, d, b, he, hd, hb⟩
    rcases List.eq_nil_or_concat b with rfl | ⟨b, e, rfl⟩
    · obtain ⟨_, h⟩ := List.append_inj' he rfl
      cases h
      exact .inl hd
    · rw [List.concat_eq_append, ← List.cons_append, ← List.append_assoc] at he
      obtain ⟨rfl, h⟩ := List.append_inj' he rfl
      cases h
      right
      exact ⟨⟨a, d, b, rfl, hd, fun x hx => hb x (by simp [hx])⟩, hb c (by simp)⟩
  · rintro (hc | ⟨⟨a, d, b, rfl, hd, hb⟩, hc⟩)
    · exact ⟨bytes, c, [], rfl, hc, fun d hd => absurd hd List.not_mem_nil⟩
    · refine ⟨a, d, b ++ [c], by simp, hd, ?_⟩
      intro e he
      rcases List.mem_append.mp he with he | he
      · exact hb e he
      · exact List.mem_singleton.mp he ▸ hc

theorem not_inComment_nil : ¬ InComment [] := by
  rintro ⟨a, c, b, he, _⟩
  simp at he

theorem inComment_append_ordinary (hw : ∀ d ∈ word, isOrdinary d) :
    InComment (bytes ++ word) ↔ InComment bytes := by
  induction word using List.reverseRecOn with
  | nil => rw [List.append_nil]
  | append_singleton word c ih =>
    have hc := isOrdinary_iff.mp (hw c (by simp))
    have hn : ¬ isNewline c := fun h => hc.1 (isSeparator_of_isNewline h)
    rw [← List.append_assoc, inComment_snoc, ih fun d hd => hw d (by simp [hd])]
    simp [hc.2.2, hn]

structure TokenOf (bytes : List UInt8) (s : Parser W) : Prop where
  comment : s.tokenState = .comment → InComment bytes ∧ s.token = []
  idle : s.tokenState = .idle → ¬ InComment bytes
  ordinary : ∀ d ∈ s.token, isOrdinary d
  suffix : ∃ front, bytes = front ++ s.token ∧
    (s.tokenState = .idle → ∀ a d, front = a ++ [d] → ¬ isOrdinary d)

theorem TokenOf.start (w : W) (c : UInt8) : TokenOf [] (Parser.start w c) where
  comment h := by cases h
  idle _ := not_inComment_nil
  ordinary d hd := absurd hd List.not_mem_nil
  suffix := ⟨[], rfl, fun _ a d h => by simp at h⟩

theorem TokenOf.ended (hi : s.tokenState = .idle) (ht : s.token = [])
    (hc : ¬ InComment (bytes ++ [c])) (ho : ¬ isOrdinary c) : TokenOf (bytes ++ [c]) s where
  comment h := by rw [hi] at h; cases h
  idle _ := hc
  ordinary d hd := by rw [ht] at hd; cases hd
  suffix := by
    refine ⟨bytes ++ [c], by rw [ht, List.append_nil], ?_⟩
    intro _ a d h
    obtain ⟨_, h⟩ := List.append_inj' h rfl
    cases h
    exact ho

theorem TokenOf.commented (hi : s.tokenState = .comment) (ht : s.token = [])
    (hc : InComment bytes) : TokenOf bytes s where
  comment _ := ⟨hc, ht⟩
  idle h := by rw [hi] at h; cases h
  ordinary d hd := by rw [ht] at hd; cases hd
  suffix := by
    refine ⟨bytes, by rw [ht, List.append_nil], ?_⟩
    intro h
    rw [hi] at h
    cases h

theorem TokenOf.storeChar (h : TokenOf bytes s) (hi : s.tokenState = .idle) (hc : ¬ isComment c)
    (hr : (storeChar env s c).status = .reading) : TokenOf (bytes ++ [c]) (storeChar env s c) := by
  unfold Aiqb.storeChar at hr ⊢
  by_cases hlen : s.token.length < 128
  · simp only [if_pos hlen] at hr ⊢
    by_cases hend : isSeparator c ∨ c = 0
    · have ho : ¬ isOrdinary c := fun ho => by
        have := isOrdinary_iff.mp ho
        exact hend.elim this.1 this.2.1
      have hcom : ¬ InComment (bytes ++ [c]) := by
        rw [inComment_snoc]
        simp [hc, h.idle hi]
      simp only [if_pos hend] at hr ⊢
      by_cases htok : s.token = []
      · simp only [if_pos htok] at hr ⊢
        exact .ended hi htok hcom ho
      · simp only [if_neg htok] at hr ⊢
        have hsame := SameLexer.analyse env s.token (s.tokenFlags.count c)
          { s with char := 0, tokenFlags := s.tokenFlags.count c }
        rw [Parser.andThen_reading (Parser.reading_of_andThen hr)]
        exact .ended (hsame.tokenState.trans hi) rfl hcom ho
    · simp only [if_neg hend]
      have hend' := not_or.mp hend
      have ho : isOrdinary c := isOrdinary_iff.mpr ⟨hend'.1, hend'.2, hc⟩
      refine ⟨?_, ?_, ?_, ?_⟩
      · intro hcom
        rw [hi] at hcom
        cases hcom
      · intro _
        rw [inComment_snoc]
        simp [hc, h.idle hi]
      · intro d hd
        rcases List.mem_append.mp hd with hd | hd
        · exact h.ordinary d hd
        · exact List.mem_singleton.mp hd ▸ ho
      · obtain ⟨front, he, hf⟩ := h.suffix
        exact ⟨front, by rw [he, List.append_assoc], hf⟩
  · simp only [if_neg hlen, Parser.faulted] at hr
    cases hr

theorem TokenOf.parserChar (h : TokenOf bytes s)
    (hr : (parserChar env s c).status = .reading) :
    TokenOf (bytes ++ [c]) (parserChar env s c) := by
  unfold Aiqb.parserChar at hr ⊢
  cases hs : s.tokenState with
  | comment =>
    simp only [hs] at hr ⊢
    by_cases hn : isNewline c
    · have hc : ¬ isComment c := fun hc => isNewline_ne_isComment hc hn
      have hcom : ¬ InComment (bytes ++ [c]) := by
        rw [inComment_snoc]
        simp [hc, hn]
      have ho : ¬ isOrdinary c := fun ho => (isOrdinary_iff.mp ho).1 (isSeparator_of_isNewline hn)
      simp only [if_pos hn]
      exact .ended rfl rfl hcom ho
    · have hcom : InComment (bytes ++ [c]) := by
        rw [inComment_snoc]
        exact .inr ⟨(h.comment hs).1, hn⟩
      simp only [if_neg hn]
      exact .commented rfl (h.comment hs).2 hcom
  | idle =>
    simp only [hs] at hr ⊢
    by_cases hc : isComment c
    · simp only [if_pos hc]
      have hcom : InComment (bytes ++ [c]) := by
        rw [inComment_snoc]
        exact .inl hc
      exact .commented rfl rfl hcom
    · simp only [if_neg hc] at hr ⊢
      exact h.storeChar hs hc hr

theorem TokenOf.parse (w : W) (c : UInt8)
    (hr : (parse env (.start w c) bytes).status = .reading) :
    TokenOf bytes (parse env (.start w c) bytes) := by
  induction bytes using List.reverseRecOn with
  | nil => exact .start w c
  | append_singleton bytes d ih =>
    rw [parse_snoc] at hr ⊢
    have hr' := Parser.reading_of_andThen hr
    rw [Parser.andThen_reading hr'] at hr ⊢
    exact (ih hr').parserChar hr

/-- The buffer of a token is never overrun exactly when no token outside comments has more than
127 bytes. -/
theorem stores_inside_iff_short_tokens (env : Env W) (w : W) (c₀ : UInt8) (bytes : List UInt8)
    (hread : ReadsAll env (.start w c₀) bytes) :
    (∀ pre c, pre ++ [c] <+: bytes → (parse env (.start w c₀) pre).StoresInside c) ↔
      ShortTokens bytes := by
  constructor
  · intro h pre word c post he hout hord hlen
    by_contra hc
    have hpre : (pre ++ word) ++ [c] <+: bytes := ⟨post, by rw [he]; simp⟩
    have htok := TokenOf.parse w c₀ (hread _ c hpre)
    have hin : (parse env (.start w c₀) (pre ++ word)).StoresInside c := h _ c hpre
    have hidle : (parse env (.start w c₀) (pre ++ word)).tokenState = .idle := by
      cases hs : (parse env (.start w c₀) (pre ++ word)).tokenState with
      | idle => rfl
      | comment =>
        have hcom := (htok.comment hs).1
        rw [inComment_append_ordinary hord] at hcom
        exact absurd hcom hout
    have hshort := hin hidle hc
    obtain ⟨front, hsplit, hfront⟩ := htok.suffix
    rcases List.append_eq_append_iff.mp hsplit with ⟨mid, hf, hw⟩ | ⟨mid, hf, hw⟩
    · rcases List.eq_nil_or_concat mid with rfl | ⟨mid, d, rfl⟩
      · rw [List.nil_append] at hw
        rw [← hw, hlen] at hshort
        exact Nat.lt_irrefl _ hshort
      · apply hfront hidle (pre ++ mid) d (by rw [hf]; simp)
        exact hord d (by rw [hw]; simp)
    · have hle : word.length ≤ (parse env (.start w c₀) (pre ++ word)).token.length := by
        rw [hw, List.length_append]
        exact Nat.le_add_left _ _
      omega
  · intro h pre c hpre hidle hc
    have htok := TokenOf.parse w c₀ (hread pre c hpre)
    by_contra hlong
    obtain ⟨front, hsplit, _⟩ := htok.suffix
    obtain ⟨post, hpost⟩ := hpre
    let token := (parse env (.start w c₀) pre).token
    have hcut : pre = (front ++ token.take (token.length - 128)) ++
        token.drop (token.length - 128) := by
      rw [List.append_assoc, List.take_append_drop]
      exact hsplit
    have hord : ∀ d ∈ token.drop (token.length - 128), isOrdinary d :=
      fun d hd => htok.ordinary d (List.mem_of_mem_drop hd)
    have hout := htok.idle hidle
    rw [hcut, inComment_append_ordinary hord] at hout
    have hlen : (token.drop (token.length - 128)).length = 128 := by
      rw [List.length_drop]
      have : 128 ≤ token.length := Nat.le_of_not_lt hlong
      omega
    apply hc
    apply h _ _ c post _ hout hord hlen
    rw [← hcut, ← hpost, List.append_assoc]
    rfl

theorem readsAll_of_take (h : ∀ n < bytes.length, (parse env s (bytes.take n)).status = .reading) :
    ReadsAll env s bytes := by
  rintro pre c ⟨post, rfl⟩
  have ht := h pre.length (by simp)
  rw [List.append_assoc, List.take_left] at ht
  exact ht

/-- A name of 127 letters, and one of 128 that nothing follows. -/
def longNames : List UInt8 := List.replicate 127 97 ++ [32] ++ List.replicate 128 97

theorem stores_inside_iff_short_tokens_longNames :
    ReadsAll Env.sample (.start 0 0) longNames ∧
      ((∀ pre c, pre ++ [c] <+: longNames →
          (parse Env.sample (.start 0 0) pre).StoresInside c) ↔ ShortTokens longNames) := by
  have hread : ReadsAll Env.sample (.start 0 0) longNames := readsAll_of_take (by decide +kernel)
  exact ⟨hread, stores_inside_iff_short_tokens Env.sample 0 0 longNames hread⟩

/-- A name of 129 letters. -/
theorem stores_not_inside :
    ∃ pre c, pre ++ [c] <+: List.replicate 129 97 ∧
      (parse Env.sample (.start 0 0) pre).status = .reading ∧
      ¬ (parse Env.sample (.start 0 0) pre).StoresInside c := by
  have hw : ∀ c ∈ List.replicate 128 (97 : UInt8), isOrdinary c := by
    intro c hc
    rw [List.eq_of_mem_replicate hc]
    decide
  have hlen : (Parser.start 0 0).token.length + (List.replicate 128 (97 : UInt8)).length ≤ 128 := by
    rw [List.length_replicate]
    exact Nat.le_refl 128
  have hparse := parse_word Env.sample (s := .start 0 0) rfl rfl hw hlen
  refine ⟨List.replicate 128 97, 97, ⟨[], rfl⟩, ?_, ?_⟩
  · rw [hparse]
    rfl
  · intro hin
    rw [hparse] at hin
    have hlt : (Parser.start 0 0).token.length + (List.replicate 128 (97 : UInt8)).length < 128 :=
      List.length_append ▸ hin rfl (by decide)
    rw [List.length_replicate] at hlt
    exact Nat.lt_irrefl 128 hlt

end Aiqb
