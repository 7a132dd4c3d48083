import Aiqb.Numerals
import Aiqb.TokenBuffer

namespace Aiqb
set_option autoImplicit true

/-- Every comment, with the newline that ends it, is replaced by a separator. The flag says whether
the bytes begin inside a comment. -/
def stripComments : Bool → List UInt8 → List UInt8
  | _, [] => []
  | false, c :: cs =>
    if isComment c then 32 :: stripComments true cs else c :: stripComments false cs
  | true, c :: cs => stripComments (!isNewline c) cs

/-- What is between the separators. -/
def pieces (bytes : List UInt8) : List CString :=
  (stripComments false bytes).splitOnP isSeparator

/-- The last piece, which no separator has followed yet. -/
def openToken (bytes : List UInt8) : CString := (pieces bytes).getLastD []

def tokensOf (bytes : List UInt8) : List CString := (pieces bytes).dropLast.filter (· ≠ [])

/-- The class of a token, by its characters alone. -/
def classify (token : CString) : Option TokenClass :=
  if token.all isDigit then some .integer
  else if token.count 46 = 1 ∧ token.all fun c => isDigit c || c == 46 then some .float
  else if token.all isLetter then some .command
  else none

def lexeme (token : CString) : List (TokenClass × CString) :=
  (.any, token) :: (classify token).toList.map (·, token)

def lexemes (bytes : List UInt8) : List (TokenClass × CString) := (tokensOf bytes).flatMap lexeme

section Splitting

variable {p : α → Bool} {c : α}

theorem splitOnP_snoc_separator (hc : p c = true) (xs : List α) :
    (xs ++ [c]).splitOnP p = xs.splitOnP p ++ [[]] := by
  rw [List.splitOnP_append_cons xs [] hc, List.splitOnP_nil]

theorem splitOnP_snoc_other (hc : p c = false) {xs last : List α} {front : List (List α)}
    (h : xs.splitOnP p = front ++ [last]) :
    (xs ++ [c]).splitOnP p = front ++ [last ++ [c]] := by
  induction xs generalizing front last with
  | nil =>
    have hone : [] ++ [[]] = front ++ [last] := h
    obtain ⟨rfl, hlast⟩ := List.append_inj' hone rfl
    cases hlast
    apply List.splitOnP_eq_singleton
    intro x hx
    rwa [List.mem_singleton.mp hx]
  | cons x xs ih =>
    obtain ⟨f, l, hfl⟩ : ∃ f l, xs.splitOnP p = f ++ [l] :=
      ⟨_, _, (List.dropLast_append_getLast (List.splitOnP_ne_nil p xs)).symm⟩
    rw [List.splitOnP_cons_eq_if_modifyHead, hfl] at h
    rw [List.cons_append, List.splitOnP_cons_eq_if_modifyHead, ih hfl]
    by_cases hx : p x
    · rw [if_pos hx] at h ⊢
      have hnext : ([] :: f) ++ [l] = front ++ [last] := h
      obtain ⟨rfl, hlast⟩ := List.append_inj' hnext rfl
      cases hlast
      rfl
    · rw [if_neg hx] at h ⊢
      cases f with
      | nil =>
        have hone : [] ++ [x :: l] = front ++ [last] := h
        obtain ⟨rfl, hlast⟩ := List.append_inj' hone rfl
        cases hlast
        rfl
      | cons a f =>
        have hnext : ((x :: a) :: f) ++ [l] = front ++ [last] := h
        obtain ⟨rfl, hlast⟩ := List.append_inj' hnext rfl
        cases hlast
        rfl

end Splitting

section Grammar

variable {pre bytes : List UInt8} {c : UInt8}

def endsInComment : Bool → List UInt8 → Bool
  | inside, [] => inside
  | false, c :: cs => endsInComment (isComment c) cs
  | true, c :: cs => endsInComment (!isNewline c) cs

theorem endsInComment_snoc (inside : Bool) (bytes : List UInt8) (c : UInt8) :
    endsInComment inside (bytes ++ [c]) =
      if endsInComment inside bytes then !isNewline c else isComment c := by
  induction bytes generalizing inside with
  | nil => cases inside <;> rfl
  | cons b bytes ih =>
    cases inside with
    | false => exact ih (isComment b)
    | true => exact ih (!isNewline b)

theorem endsInComment_iff (bytes : List UInt8) : endsInComment false bytes ↔ InComment bytes := by
  induction bytes using List.reverseRecOn with
  | nil => exact iff_of_false Bool.false_ne_true not_inComment_nil
  | append_singleton bytes c ih =>
    rw [inComment_snoc, ← ih, endsInComment_snoc]
    cases endsInComment false bytes with
    | false => simp only [Bool.false_eq_true, if_false, false_and, or_false]
    | true =>
      simp only [if_true, Bool.not_eq_true', true_and, Bool.not_eq_true]
      exact (or_iff_right_of_imp fun hc => Bool.not_eq_true _ ▸ isNewline_ne_isComment hc).symm

instance (bytes : List UInt8) : Decidable (InComment bytes) :=
  decidable_of_iff _ (endsInComment_iff bytes)

theorem stripComments_snoc (inside : Bool) (bytes : List UInt8) (c : UInt8) :
    stripComments inside (bytes ++ [c]) = stripComments inside bytes ++
      if endsInComment inside bytes then [] else if isComment c then [32] else [c] := by
  induction bytes generalizing inside with
  | nil =>
    cases inside with
    | false =>
      simp only [List.nil_append, stripComments, endsInComment]
      split <;> rfl
    | true => rw [List.nil_append, stripComments, stripComments, stripComments]; rfl
  | cons b bytes ih =>
    cases inside with
    | false =>
      rw [List.cons_append, stripComments, stripComments, endsInComment]
      by_cases hb : isComment b
      · rw [if_pos hb, if_pos hb, ih, hb]
        rfl
      · rw [if_neg hb, if_neg hb, ih, eq_false_of_ne_true hb]
        rfl
    | true => exact ih (!isNewline b)

theorem pieces_eq (bytes : List UInt8) :
    pieces bytes = (pieces bytes).dropLast ++ [openToken bytes] := by
  have hne : pieces bytes ≠ [] := List.splitOnP_ne_nil _ _
  rw [openToken, List.getLastD_eq_getLast?, List.getLast?_eq_some_getLast hne, Option.getD_some,
    List.dropLast_append_getLast hne]

theorem pieces_comment (hin : InComment bytes) (c : UInt8) :
    pieces (bytes ++ [c]) = pieces bytes := by
  rw [pieces, stripComments_snoc, if_pos ((endsInComment_iff bytes).mpr hin), List.append_nil]
  rfl

theorem pieces_ended (hin : ¬ InComment bytes) (hc : isComment c ∨ isSeparator c) :
    pieces (bytes ++ [c]) = pieces bytes ++ [[]] := by
  have hout : ¬ endsInComment false bytes := fun h => hin ((endsInComment_iff bytes).mp h)
  rw [pieces, stripComments_snoc, if_neg hout]
  split
  · exact splitOnP_snoc_separator rfl _
  · next hno => exact splitOnP_snoc_separator (hc.resolve_left hno) _

theorem pieces_continued (hin : ¬ InComment bytes) (hc : ¬ isComment c) (hs : ¬ isSeparator c) :
    pieces (bytes ++ [c]) = (pieces bytes).dropLast ++ [openToken bytes ++ [c]] := by
  have hout : ¬ endsInComment false bytes := fun h => hin ((endsInComment_iff bytes).mp h)
  rw [pieces, stripComments_snoc, if_neg hout, if_neg hc]
  exact splitOnP_snoc_other (Bool.not_eq_true _ ▸ hs) (pieces_eq bytes)

theorem openToken_comment (hin : InComment bytes) (c : UInt8) :
    openToken (bytes ++ [c]) = openToken bytes := by
  rw [openToken, pieces_comment hin]
  rfl

theorem openToken_ended (hin : ¬ InComment bytes) (hc : isComment c ∨ isSeparator c) :
    openToken (bytes ++ [c]) = [] := by
  rw [openToken, pieces_ended hin hc, List.getLastD_concat]

theorem openToken_continued (hin : ¬ InComment bytes) (hc : ¬ isComment c)
    (hs : ¬ isSeparator c) : openToken (bytes ++ [c]) = openToken bytes ++ [c] := by
  rw [openToken, pieces_continued hin hc hs, List.getLastD_concat]

theorem lexemes_comment (hin : InComment bytes) (c : UInt8) :
    lexemes (bytes ++ [c]) = lexemes bytes := by
  rw [lexemes, tokensOf, pieces_comment hin]
  rfl

theorem lexemes_ended (hin : ¬ InComment bytes) (hc : isComment c ∨ isSeparator c) :
    lexemes (bytes ++ [c]) =
      lexemes bytes ++ if openToken bytes = [] then [] else lexeme (openToken bytes) := by
  rw [lexemes, tokensOf, pieces_ended hin hc, List.dropLast_concat, pieces_eq, List.filter_append,
    List.flatMap_append]
  congr 1
  by_cases hnil : openToken bytes = []
  · rw [if_pos hnil, hnil]
    rfl
  · simp only [List.filter_cons, List.filter_nil, ne_eq, hnil, not_false_eq_true,
      decide_true, if_true, if_false, List.flatMap_singleton]

theorem lexemes_continued (hin : ¬ InComment bytes) (hc : ¬ isComment c) (hs : ¬ isSeparator c) :
    lexemes (bytes ++ [c]) = lexemes bytes := by
  rw [lexemes, tokensOf, pieces_continued hin hc hs, List.dropLast_concat]
  rfl

theorem openToken_inComment (hin : InComment bytes) : openToken bytes = [] := by
  induction bytes using List.reverseRecOn with
  | nil => exact (not_inComment_nil hin).elim
  | append_singleton bytes c ih =>
    by_cases hold : InComment bytes
    · rw [openToken_comment hold, ih hold]
    · apply openToken_ended hold
      left
      exact ((inComment_snoc bytes c).mp hin).resolve_right fun h => hold h.1

theorem openToken_plain (bytes : List UInt8) : ∀ c ∈ openToken bytes, ¬ isSeparator c := by
  induction bytes using List.reverseRecOn with
  | nil => exact fun c hc => (List.not_mem_nil hc).elim
  | append_singleton bytes d ih =>
    by_cases hin : InComment bytes
    · rw [openToken_comment hin]
      exact ih
    · by_cases hd : isComment d ∨ isSeparator d
      · rw [openToken_ended hin hd]
        exact fun c hc => (List.not_mem_nil hc).elim
      · obtain ⟨hcomment, hsep⟩ := not_or.mp hd
        rw [openToken_continued hin hcomment hsep, List.forall_mem_append]
        exact ⟨ih, fun c hc => List.mem_singleton.mp hc ▸ hsep⟩

theorem openToken_prefix (hp : pre <+: bytes) :
    ∃ token ∈ pieces bytes, openToken pre <+: token := by
  obtain ⟨rest, rfl⟩ := hp
  induction rest using List.reverseRecOn with
  | nil =>
    rw [List.append_nil]
    exact ⟨openToken pre, pieces_eq pre ▸ List.mem_concat_self, List.prefix_rfl⟩
  | append_singleton rest c ih =>
    obtain ⟨token, hmem, hpre⟩ := ih
    rw [← List.append_assoc]
    by_cases hin : InComment (pre ++ rest)
    · rw [pieces_comment hin]
      exact ⟨token, hmem, hpre⟩
    · by_cases hc : isComment c ∨ isSeparator c
      · rw [pieces_ended hin hc]
        exact ⟨token, List.mem_append_left _ hmem, hpre⟩
      · obtain ⟨hcomment, hsep⟩ := not_or.mp hc
        rw [pieces_continued hin hcomment hsep]
        rw [pieces_eq] at hmem
        rcases List.mem_append.mp hmem with hmem | hmem
        · exact ⟨token, List.mem_append_left _ hmem, hpre⟩
        · refine ⟨_, List.mem_concat_self, ?_⟩
          rw [← List.mem_singleton.mp hmem]
          exact hpre.trans (List.prefix_append _ _)

end Grammar

section Classes

variable {token : CString}

structure TokenFlags.Counts (f : TokenFlags) (token : CString) : Prop where
  digits : f.digits = UInt16.ofNat (token.countP isDigit)
  letters : f.letters = UInt16.ofNat (token.countP isLetter)
  dots : f.dots = UInt16.ofNat (token.count 46)
  all : f.all = UInt16.ofNat token.length

theorem TokenFlags.counts (h : ∀ c ∈ token, ¬ isSeparator c) :
    (token.foldl TokenFlags.count .zero).Counts token := by
  induction token using List.reverseRecOn with
  | nil => exact ⟨rfl, rfl, rfl, rfl⟩
  | append_singleton token c ih =>
    rw [List.forall_mem_append] at h
    obtain ⟨hdigits, hletters, hdots, hall⟩ := ih h.1
    have hadd (b : Bool) (x : UInt16) (n : Nat) (hx : x = UInt16.ofNat n) :
        (if b then x + 1 else x) = UInt16.ofNat (n + if b then 1 else 0) := by
      cases b with
      | false => exact hx
      | true => rw [hx, if_pos rfl, if_pos rfl, UInt16.ofNat_add]; rfl
    have hsep : ¬ isSeparator c := h.2 c (List.mem_singleton_self c)
    rw [List.foldl_append, List.foldl_cons, List.foldl_nil, count, if_neg hsep]
    refine ⟨?_, ?_, ?_, ?_⟩
    · rw [List.countP_append, List.countP_singleton]
      exact hadd _ _ _ hdigits
    · rw [List.countP_append, List.countP_singleton]
      exact hadd _ _ _ hletters
    · by_cases hc : c = 46
      · rw [hc, List.count_append, List.count_singleton_self, UInt16.ofNat_add, ← hdots]
        rfl
      · have hzero : [c].count 46 = 0 :=
          List.count_eq_zero.mpr fun hmem => hc (List.mem_singleton.mp hmem).symm
        rw [List.count_append, hzero, Nat.add_zero, ← hdots]
        exact if_neg hc
    · rw [List.length_append, List.length_singleton, UInt16.ofNat_add, ← hall]
      rfl

theorem ofNat_eq_iff (hm : m ≤ n) (hn : n ≤ 127) : UInt16.ofNat n = UInt16.ofNat m ↔ m = n := by
  rw [← UInt16.toNat_inj, UInt16.toNat_ofNat', UInt16.toNat_ofNat']
  omega

theorem isDigit_ne_dot (hc : isDigit c) : c ≠ 46 := toNat_ne_of_digit hc (by decide)

theorem countP_digit_or_dot (token : CString) :
    token.countP (fun c => isDigit c || c == 46) = token.countP isDigit + token.count 46 := by
  induction token with
  | nil => rfl
  | cons c token ih =>
    rw [List.countP_cons, List.countP_cons, List.count_cons, ih]
    by_cases hc : isDigit c
    · have hdot : (c == 46) = false := beq_eq_false_iff_ne.mpr (isDigit_ne_dot hc)
      simp only [hc, hdot, Bool.true_or, if_true, Bool.false_eq_true, if_false]
      omega
    · simp only [hc, Bool.false_or, Bool.false_eq_true, if_false]
      omega

namespace TokenFlags.Counts

variable {f : TokenFlags}

theorem isInteger_iff (h : f.Counts token) (hlen : token.length ≤ 127) :
    f.isInteger ↔ token.all isDigit := by
  rw [isInteger, decide_eq_true_eq, h.all, h.digits, ofNat_eq_iff List.countP_le_length hlen,
    List.countP_eq_length, List.all_eq_true]

theorem isCommand_iff (h : f.Counts token) (hlen : token.length ≤ 127) :
    f.isCommand ↔ token.all isLetter := by
  rw [isCommand, decide_eq_true_eq, h.all, h.letters, ofNat_eq_iff List.countP_le_length hlen,
    List.countP_eq_length, List.all_eq_true]

theorem isFloat_iff (h : f.Counts token) (hlen : token.length ≤ 127) :
    f.isFloat ↔ token.count 46 = 1 ∧ token.all fun c => isDigit c || c == 46 := by
  have hdigits : token.countP isDigit ≤ token.length := List.countP_le_length
  have hdots : token.count 46 ≤ token.length := List.count_le_length
  rw [isFloat, Bool.and_eq_true, decide_eq_true_eq, decide_eq_true_eq, h.all, h.digits, h.dots,
    List.all_eq_true, ← List.countP_eq_length, countP_digit_or_dot, ← UInt16.toNat_inj,
    UInt16.toNat_ofNat', UInt16.toNat_ofNat', UInt16.toNat_ofNat', UInt16.toNat_one]
  omega

end TokenFlags.Counts

end Classes

end Aiqb
