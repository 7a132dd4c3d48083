import Aiqb.Decimals
import Aiqb.LexerGrammar
import Mathlib.Data.List.TakeWhile

namespace Aiqb
set_option autoImplicit true

open Decimals

structure FloatToken where
  text : CString
  float : classify text = some .float
  short : text.length ≤ 127

/-- A number of units of `10 ^ -scale`. -/
structure Decimal where
  units : Nat
  scale : Nat

def FloatToken.whole (f : FloatToken) : CString := f.text.takeWhile isDigit

def FloatToken.fraction (f : FloatToken) : CString :=
  (f.text.dropWhile isDigit).tail.takeWhile isDigit

/-- The number that a token denotes, exactly. -/
def FloatToken.value (f : FloatToken) : Decimal where
  units := decimal (f.whole ++ f.fraction)
  scale := f.fraction.length

/-- The hundredths that `%.2lf` prints, ties to even. -/
def Decimal.hundredths (v : Decimal) : Nat := roundEven (v.units * 100) (10 ^ v.scale)

/-- `TOKEN_REPLY_SOLUTION_ATOM` -/
def solutionAtom (v : Decimal) : CString :=
  numeral (v.hundredths / 100) ++
    [46, digit (v.hundredths % 100 / 10), digit (v.hundredths % 10), 32]

def replyMaxBuffer : Nat := 128

/-- A solved answer, with the tokens that its data came from. -/
structure SolvedAnswer where
  sizeX : Nat
  sizeY : Nat
  data : List FloatToken
  size : data.length = sizeX + sizeY

def SolvedAnswer.outputs (a : SolvedAnswer) : List FloatToken := (a.data.drop a.sizeX).take a.sizeY

def SolvedAnswer.outputTexts (a : SolvedAnswer) : List CString :=
  a.outputs.map fun f => solutionAtom f.value

/-- The number is less than 10^123 - 0.005. -/
def Decimal.Fits (v : Decimal) : Prop := v.units * 1000 + 5 * 10 ^ v.scale < 10 ^ 126 * 10 ^ v.scale

section Tokens

variable {W : Type} {s : Parser W} {t : CString} {sep : UInt8}

theorem classify_float (h : classify t = some .float) :
    t.count 46 = 1 ∧ t.all fun c => isDigit c || c == 46 := by
  unfold classify at h
  split at h
  · cases h
  · split at h
    · assumption
    · split at h <;> cases h

theorem FloatToken.ordinary (f : FloatToken) : ∀ c ∈ f.text, isOrdinary c := by
  intro c hc
  have hall := List.all_eq_true.mp (classify_float f.float).2 c hc
  rw [Bool.or_eq_true, beq_iff_eq] at hall
  rcases hall with hdigit | rfl
  · exact isDigit_ordinary hdigit
  · decide

theorem FloatToken.ne_nil (f : FloatToken) : f.text ≠ [] := by
  intro h
  have hcount := (classify_float f.float).1
  rw [h] at hcount
  cases hcount

theorem FloatToken.printed (f : FloatToken) (env : Env W) (hr : s.status = .reading)
    (hi : s.tokenState = .idle) (ht : s.token = f.text)
    (hflags : s.tokenFlags = f.text.foldl TokenFlags.count .zero) (hsep : isSeparator sep) :
    (.float, f.text) ∈ (parserChar env s sep).printed := by
  have hends : s.EndsToken sep := ⟨hr, hi, .inl hsep, ht ▸ f.ne_nil⟩
  have hcounts : (s.tokenFlags.count sep).Counts s.token := by
    rw [TokenFlags.count_separator _ hsep, hflags, ht]
    exact TokenFlags.counts fun c hc => (isOrdinary_iff.mp (f.ordinary c hc)).1
  rw [parserChar_lexeme hends (ht ▸ f.short) hcounts, ht]
  apply List.mem_append_right
  simp [lexeme, f.float]

theorem FloatToken.accepted (f : FloatToken) (env : Env W) (hb : s.Between)
    (hsep : isSeparator sep) : (.float, f.text) ∈ (parse env s (f.text ++ [sep])).printed := by
  have hlen : s.token.length + f.text.length ≤ 128 := by
    rw [hb.token, List.length_nil, Nat.zero_add]
    exact Nat.le_succ_of_le f.short
  have hword := parse_word env hb.idle hb.reading f.ordinary hlen
  rw [parse_snoc_reading hword hb.reading]
  refine FloatToken.printed f env hb.reading hb.idle ?_ ?_ hsep
  · exact hb.token ▸ List.nil_append f.text
  · exact congrArg (f.text.foldl TokenFlags.count) hb.flags

end Tokens

/-- A text fits the buffer with its terminator exactly when the number is below the bound. -/
theorem solutionAtom_fits (v : Decimal) :
    (solutionAtom v).length + 1 ≤ replyMaxBuffer ↔ v.Fits := by
  have hscale : 0 < 10 ^ v.scale := Nat.pow_pos (by decide)
  have hlength : (solutionAtom v).length + 1 ≤ replyMaxBuffer ↔
      (numeral (v.hundredths / 100)).length ≤ 123 := by
    rw [solutionAtom, List.length_append, replyMaxBuffer]
    exact Nat.add_le_add_iff_right (n := 5)
  have hwhole : v.hundredths / 100 < 10 ^ 123 ↔ v.hundredths < 10 ^ 125 := by
    rw [Nat.div_lt_iff_lt_mul (by decide), ← Nat.pow_add 10 123 2]
  have hbound : 10 ^ 126 * 10 ^ v.scale = 10 * (10 ^ 125 * 10 ^ v.scale) := by
    rw [← Nat.mul_assoc, ← Nat.pow_succ']
  rw [hlength, numeral_length_le_iff (by decide), hwhole, Decimal.hundredths,
    roundEven_lt_iff hscale (by decide), Decimal.Fits]
  rw [hbound]
  generalize 10 ^ 125 * 10 ^ v.scale = bound
  omega

/-- The texts of all outputs fit the buffer exactly when the outputs are below the bound. -/
theorem solution_reply_fits_iff (a : SolvedAnswer) :
    (∀ text ∈ a.outputTexts, text.length + 1 ≤ replyMaxBuffer) ↔
      ∀ f ∈ a.outputs, f.value.Fits := by
  rw [SolvedAnswer.outputTexts, List.forall_mem_map]
  exact forall₂_congr fun f _ => solutionAtom_fits f.value

theorem decimal_lt {ds : CString} (h : ∀ c ∈ ds, isDigit c) : decimal ds < 10 ^ ds.length := by
  induction ds using List.reverseRecOn with
  | nil => decide
  | append_singleton ds c ih =>
    rw [List.forall_mem_append] at h
    have hc := isDigit_iff.mp (h.2 c (List.mem_singleton_self c))
    have hds := ih h.1
    have hlast : decimal (ds ++ [c]) = 10 * decimal ds + (c.toNat - 48) := List.foldl_concat ..
    rw [hlast, List.length_append, List.length_singleton, Nat.pow_succ]
    omega

theorem FloatToken.value_fits (f : FloatToken) (h : f.whole.length ≤ 122) : f.value.Fits := by
  have hdigits : ∀ c ∈ f.whole ++ f.fraction, isDigit c := by
    intro c hc
    rcases List.mem_append.mp hc with hc | hc
    · exact List.mem_takeWhile_imp hc
    · exact List.mem_takeWhile_imp hc
  have hunits : f.value.units < 10 ^ 122 * 10 ^ f.value.scale := by
    have hlt := decimal_lt hdigits
    rw [List.length_append, Nat.pow_add] at hlt
    exact Nat.lt_of_lt_of_le hlt
      (Nat.mul_le_mul_right _ (Nat.pow_le_pow_right (by decide) h))
  have hbound : 10 ^ 126 * 10 ^ f.value.scale = 10 ^ 4 * (10 ^ 122 * 10 ^ f.value.scale) := by
    rw [← Nat.mul_assoc, ← Nat.pow_add 10 4 122]
  have hscale : 10 ^ f.value.scale ≤ 10 ^ 122 * 10 ^ f.value.scale :=
    Nat.le_mul_of_pos_left _ (by decide)
  rw [Decimal.Fits, hbound]
  generalize 10 ^ 122 * 10 ^ f.value.scale = bound at hunits hscale ⊢
  omega

def longOutput : FloatToken where
  text := List.replicate 126 57 ++ [46]
  float := rfl
  short := by decide +kernel

/-- The longest number does not fit the buffer of a reply. -/
theorem long_output_overruns :
    (TokenClass.float, longOutput.text) ∈
        (parse Env.sample (.start 0 0) (longOutput.text ++ [10])).printed ∧
      ¬ ∀ text ∈ (SolvedAnswer.mk 0 1 [longOutput] rfl).outputTexts,
        text.length + 1 ≤ replyMaxBuffer := by
  have hstart : (Parser.start 0 0 : Parser Nat).Between := ⟨rfl, rfl, rfl, rfl⟩
  refine ⟨longOutput.accepted Env.sample hstart rfl, ?_⟩
  intro h
  have hlong := h (solutionAtom longOutput.value) (List.mem_singleton_self _)
  rw [solutionAtom_fits, Decimal.Fits] at hlong
  revert hlong
  decide +kernel

end Aiqb
