import Aiqb.ConfigLines

namespace Aiqb
set_option autoImplicit true

open Loops LineCuts

def Runs : List UInt8 → CString → Prop
  | [], w => w = []
  | c :: cs, w => ∃ n rest, w = List.replicate n c ++ rest ∧ Runs cs rest

section RunsOf

variable {c d : UInt8} {cs : List UInt8} {w : CString}

theorem dropWhile_replicate (c : UInt8) (n : Nat) (w : CString) :
    (List.replicate n c ++ w).dropWhile (· == c) = w.dropWhile (· == c) := by
  apply List.dropWhile_append_of_pos
  intro b hb
  exact beq_iff_eq.mpr (List.eq_of_mem_replicate hb)

theorem Runs.dropWhile (h : Runs cs w) (c : UInt8) : Runs cs (w.dropWhile (· == c)) := by
  induction cs generalizing w with
  | nil =>
    obtain rfl : w = [] := h
    rfl
  | cons d cs ih =>
    obtain ⟨n, rest, rfl, hrest⟩ := h
    by_cases hc : d = c
    · subst hc
      rw [dropWhile_replicate]
      exact ⟨0, _, rfl, ih hrest⟩
    · cases n with
      | zero => exact ⟨0, _, rfl, ih hrest⟩
      | succ n =>
        rw [List.replicate_succ, List.cons_append, List.dropWhile_cons_of_neg (by simpa using hc)]
        exact ⟨n + 1, rest, rfl, hrest⟩

theorem runs_cons : Runs (c :: cs) w ↔ Runs cs (w.dropWhile (· == c)) := by
  constructor
  · rintro ⟨n, rest, rfl, hrest⟩
    rw [dropWhile_replicate]
    exact hrest.dropWhile c
  · intro h
    refine ⟨(w.takeWhile (· == c)).length, _, ?_, h⟩
    rw [← takeWhile_replicate, List.takeWhile_append_dropWhile]

theorem runs_reverse : Runs [c, d] w.reverse ↔ Runs [d, c] w := by
  have hpair (c d : UInt8) (w : CString) :
      Runs [c, d] w ↔ ∃ m n, w = List.replicate m c ++ List.replicate n d := by
    simp [Runs]
  rw [hpair, hpair, exists_comm]
  simp only [List.reverse_eq_iff, List.reverse_append, List.reverse_replicate]

theorem runs_rdropWhile : (w.rdropWhile (· == c)).rdropWhile (· == d) = [] ↔ Runs [d, c] w := by
  rw [← runs_reverse, runs_cons, runs_cons, List.rdropWhile, List.rdropWhile, List.reverse_reverse,
    List.reverse_eq_nil_iff]
  rfl

end RunsOf

section Padded

variable {chr : UInt8} {x core y : CString}

theorem trimText_padded (hne : core ≠ []) (hhead : core.head? ≠ some chr)
    (hlast : core.getLast? ≠ some chr) :
    trimText chr (x ++ core ++ y) =
      x.dropWhile (· == chr) ++ core ++ y.rdropWhile (· == chr) := by
  have hmem : ¬ (x ++ core ++ y).all (· == chr) := by
    intro hall
    apply hhead
    rw [List.head?_eq_some_head hne]
    have hb := List.all_eq_true.mp hall (core.head hne)
      (List.mem_append_left _ (List.mem_append_right _ (List.head_mem hne)))
    exact congrArg some (beq_iff_eq.mp hb)
  have hfront : (x ++ core ++ y).dropWhile (· == chr) =
      x.dropWhile (· == chr) ++ core ++ y := by
    rw [List.append_assoc, List.dropWhile_append]
    split
    · next hnil =>
      rw [List.isEmpty_iff.mp hnil, List.nil_append]
      apply dropWhile_of_head
      rw [List.head?_append_of_ne_nil _ hne]
      exact hhead
    · rw [List.append_assoc]
  rw [trimText, if_neg hmem, trimmed, hfront, rdropWhile_append]
  split
  · next hnil => rw [hnil, List.append_nil, rdropWhile_append, rdropWhile_of_last hlast, if_neg hne]
  · rfl

theorem dropWhile_not_mem (h : chr ∉ x) : List.dropWhile (· == chr) x = x :=
  dropWhile_of_head fun he => h (List.mem_of_head? he)

theorem rdropWhile_not_mem (h : chr ∉ x) : List.rdropWhile (· == chr) x = x :=
  rdropWhile_of_last fun he => h (List.mem_of_getLast? he)

theorem trimBlanks_padded (hne : core ≠ []) (h32 : 32 ∉ core) (h9 : 9 ∉ core) (x y : CString) :
    trimBlanks (x ++ core ++ y) =
      (x.dropWhile (· == 32)).dropWhile (· == 9) ++ core ++
        (y.rdropWhile (· == 32)).rdropWhile (· == 9) := by
  have hhead (chr : UInt8) (h : chr ∉ core) : core.head? ≠ some chr :=
    fun he => h (List.mem_of_head? he)
  have hlast (chr : UInt8) (h : chr ∉ core) : core.getLast? ≠ some chr :=
    fun he => h (List.mem_of_getLast? he)
  rw [trimBlanks, trimText_padded hne (hhead 32 h32) (hlast 32 h32),
    trimText_padded hne (hhead 9 h9) (hlast 9 h9)]

theorem trimBlanks_eq_iff (hne : core ≠ []) (h32 : 32 ∉ core) (h9 : 9 ∉ core) (x y : CString) :
    trimBlanks (x ++ core ++ y) = core ↔ Runs [32, 9] x ∧ Runs [9, 32] y := by
  rw [trimBlanks_padded hne h32 h9, runs_cons, runs_cons, ← runs_rdropWhile, Runs]
  constructor
  · intro he
    have hlen := congrArg List.length he
    rw [List.length_append, List.length_append] at hlen
    exact ⟨List.eq_nil_of_length_eq_zero (by omega), List.eq_nil_of_length_eq_zero (by omega)⟩
  · rintro ⟨hx, hy⟩
    rw [hx, hy, List.nil_append, List.append_nil]

theorem trimText_eq_nil (h : trimText chr x = []) : x = [] := by
  unfold trimText at h
  split at h
  · exact h
  · next hall =>
    have hb : ∃ b ∈ x, b ≠ chr := by simpa using hall
    obtain ⟨a, core, t, hframed⟩ := exists_framed hb
    have hcore := hframed.trimmed_eq_core.mpr (fun _ hb => nomatch hb)
    exact absurd (hcore.symm.trans h) hframed.ne_nil

end Padded

inductive LineEnding where
  | lf | crlf
  deriving DecidableEq

def LineEnding.bytes : LineEnding → CString
  | lf => [10]
  | crlf => [13, 10]

/-- A short line with an option and plain value, blanks and tabs around them, and an ending. -/
structure OptionLine where
  key : CString
  value : CString
  before : CString
  afterKey : CString
  beforeValue : CString
  after : CString
  ending : LineEnding
  known : (ConfigKey.named key).isSome
  plain : ∀ b ∈ value, b ∉ [0, 9, 10, 13, 32, 34, 39, 61]
  blank : ∀ b ∈ before ++ afterKey ++ beforeValue ++ after, b = 32 ∨ b = 9
  short : (before ++ key ++ afterKey ++ [61] ++ beforeValue ++ value ++ after ++
    ending.bytes).length < 127

namespace OptionLine

variable {line : OptionLine}

def text (line : OptionLine) : CString :=
  line.before ++ line.key ++ line.afterKey ++ [61] ++ line.beforeValue ++ line.value ++
    line.after ++ line.ending.bytes

def keyText (line : OptionLine) : CString :=
  (line.before.dropWhile (· == 32)).dropWhile (· == 9) ++ line.key ++ line.afterKey

def valueText (line : OptionLine) : CString :=
  line.beforeValue ++ line.value ++ line.after ++ line.ending.bytes.dropLast

theorem known_plain : ∀ k ∈ ConfigKey.all, ∀ key ∈ [k.shortToken, k.token],
    key ≠ [] ∧ (∀ b ∈ key, b ∉ [0, 9, 10, 13, 32, 61]) ∧ ¬ isCommentLine key := by
  decide +kernel

theorem key_plain (line : OptionLine) : line.key ≠ [] ∧
    (∀ b ∈ line.key, b ∉ [0, 9, 10, 13, 32, 61]) ∧ ¬ isCommentLine line.key := by
  obtain ⟨k, hk⟩ := Option.isSome_iff_exists.mp line.known
  have hname := List.find?_some hk
  simp only [decide_eq_true_eq] at hname
  exact known_plain k (List.mem_of_find?_eq_some hk) line.key (by simpa using hname)

theorem blank_parts (line : OptionLine) :
    (∀ b ∈ line.before, b = 32 ∨ b = 9) ∧ (∀ b ∈ line.afterKey, b = 32 ∨ b = 9) ∧
      (∀ b ∈ line.beforeValue, b = 32 ∨ b = 9) ∧ ∀ b ∈ line.after, b = 32 ∨ b = 9 := by
  have h := line.blank
  simp only [List.mem_append] at h
  exact ⟨fun b hb => h b (.inl (.inl (.inl hb))), fun b hb => h b (.inl (.inl (.inr hb))),
    fun b hb => h b (.inl (.inr hb)), fun b hb => h b (.inr hb)⟩

theorem front_blank (line : OptionLine) :
    ∀ b ∈ (line.before.dropWhile (· == 32)).dropWhile (· == 9), b = 32 ∨ b = 9 :=
  fun b hb => line.blank_parts.1 b
    ((List.dropWhile_sublist _).subset ((List.dropWhile_sublist _).subset hb))

def body (line : OptionLine) : CString :=
  line.before ++ line.key ++ line.afterKey ++ [61] ++ line.beforeValue ++ line.value ++ line.after

theorem not_mem_body (line : OptionLine) (hb : b ∈ [0, 10, 13]) : b ∉ line.body := by
  obtain ⟨_, hplain, _⟩ := line.key_plain
  obtain ⟨hbefore, hafterKey, hbeforeValue, hafter⟩ := line.blank_parts
  have hparts : ¬ (b = 32 ∨ b = 9) ∧ b ∉ [61] ∧ b ∈ [0, 9, 10, 13, 32, 61] ∧
      b ∈ [0, 9, 10, 13, 32, 34, 39, 61] := by
    revert hb
    revert b
    simp
  obtain ⟨hblank, hequals, hkey, hvalue⟩ := hparts
  intro h
  simp only [body, List.mem_append] at h
  rcases h with (((((h | h) | h) | h) | h) | h) | h
  · exact hblank (hbefore b h)
  · exact hplain b h hkey
  · exact hblank (hafterKey b h)
  · exact hequals h
  · exact hblank (hbeforeValue b h)
  · exact line.plain b h hvalue
  · exact hblank (hafter b h)

def core (line : OptionLine) : CString := line.key ++ line.afterKey ++ [61]

theorem trimText_core (line : OptionLine) (hchr : chr ∈ [9, 10, 13, 32]) (x y : CString) :
    trimText chr (x ++ line.core ++ y) =
      x.dropWhile (· == chr) ++ line.core ++ y.rdropWhile (· == chr) := by
  obtain ⟨hne, hplain, _⟩ := line.key_plain
  have hcore : line.core ≠ [] := List.append_ne_nil_of_right_ne_nil _ (List.cons_ne_nil _ _)
  apply trimText_padded hcore
  · intro he
    rw [core, List.append_assoc, List.head?_append_of_ne_nil _ hne,
      List.head?_eq_some_head hne] at he
    have hb := hplain chr (Option.some.inj he ▸ List.head_mem hne)
    revert hchr hb
    simp only [List.mem_cons]
    tauto
  · rw [core, List.getLast?_concat]
    rintro ⟨⟩
    exact absurd hchr (by decide)

theorem ending_dropLast (ending : LineEnding) : ending.bytes = ending.bytes.dropLast ++ [10] := by
  cases ending <;> rfl

theorem newline_not_mem (line : OptionLine) : 10 ∉ line.body ++ line.ending.bytes.dropLast := by
  have hending : 10 ∉ line.ending.bytes.dropLast := by cases line.ending <;> decide
  intro h
  exact (List.mem_append.mp h).elim (line.not_mem_body (by decide)) hending

theorem text_eq (line : OptionLine) :
    line.text = (line.body ++ line.ending.bytes.dropLast) ++ [10] := by
  rw [List.append_assoc, ← ending_dropLast]
  rfl

theorem body_eq (line : OptionLine) : line.body ++ line.ending.bytes.dropLast =
    line.before ++ line.core ++ line.valueText := by
  simp only [body, core, valueText, List.append_assoc]

theorem trimLine_text (line : OptionLine) :
    trimLine line.text = line.keyText ++ 61 :: line.valueText := by
  have htext : line.text = line.before ++ line.core ++ (line.valueText ++ [10]) := by
    rw [text_eq, body_eq, List.append_assoc]
  have hvalue : 10 ∉ line.valueText := fun h =>
    line.newline_not_mem (line.body_eq ▸ List.mem_append_right _ h)
  have hkept (chr : UInt8) (hchr : chr ≠ 10) :
      (line.valueText ++ [10]).rdropWhile (· == chr) = line.valueText ++ [10] :=
    List.rdropWhile_concat_neg _ _ _ (by simpa using hchr.symm)
  have hcut : (line.valueText ++ [10]).rdropWhile (· == (10 : UInt8)) = line.valueText := by
    rw [List.rdropWhile_concat_pos _ _ _ (by decide)]
    exact rdropWhile_not_mem hvalue
  rw [htext, trimLine, line.trimText_core (by decide), hkept 32 (by decide),
    line.trimText_core (by decide), hkept 9 (by decide), line.trimText_core (by decide),
    hkept 13 (by decide), dropWhile_not_mem fun h => absurd (line.front_blank 13 h) (by decide),
    line.trimText_core (by decide), hcut,
    dropWhile_not_mem fun h => absurd (line.front_blank 10 h) (by decide)]
  simp only [keyText, core, List.append_assoc, List.singleton_append]

theorem not_comment (line : OptionLine) (rest : CString) :
    ¬ isCommentLine (line.keyText ++ rest) := by
  obtain ⟨hne, _, hcomment⟩ := line.key_plain
  unfold keyText
  cases hx : (line.before.dropWhile (· == 32)).dropWhile (· == 9) with
  | nil =>
    cases hk : line.key with
    | nil => exact absurd hk hne
    | cons b key =>
      rw [hk] at hcomment
      exact hcomment
  | cons b x =>
    rcases line.front_blank b (hx ▸ List.mem_cons_self) with rfl | rfl
    · simp [isCommentLine]
    · simp [isCommentLine]

theorem keyText_equals (line : OptionLine) : 61 ∉ line.keyText := by
  obtain ⟨_, hplain, _⟩ := line.key_plain
  obtain ⟨_, hafter, _, _⟩ := line.blank_parts
  intro h
  simp only [keyText, List.mem_append] at h
  rcases h with (h | h) | h
  · exact absurd (line.front_blank 61 h) (by decide)
  · exact hplain 61 h (by decide)
  · exact absurd (hafter 61 h) (by decide)

theorem lineCall_text (line : OptionLine) :
    lineCall line.text = some ⟨line.text, trimBlanks line.keyText, trimBlanks line.valueText⟩ := by
  have hlen : line.text.length ≠ 0 := by
    simp [text]
  have hall : ∀ b ∈ line.keyText, decide (b ≠ 61) = true := by
    intro b hb
    exact decide_eq_true fun he => line.keyText_equals (he ▸ hb)
  have htake : (line.keyText ++ 61 :: line.valueText).takeWhile (· ≠ 61) = line.keyText := by
    rw [List.takeWhile_append_of_pos hall, List.takeWhile_cons_of_neg (by decide), List.append_nil]
  have hdrop : (line.keyText ++ 61 :: line.valueText).dropWhile (· ≠ 61) =
      61 :: line.valueText := by
    rw [List.dropWhile_append_of_pos hall, List.dropWhile_cons_of_neg (by decide)]
  rw [lineCall, if_neg hlen]
  dsimp only
  rw [line.trimLine_text, if_neg (line.not_comment _), if_pos (by simp), htake, hdrop,
    List.tail_cons]

/-- What `_parse_file` is made for: a line feed alone at the end of the line, and blanks and tabs
that are trimmed in their order. -/
structure InOrder (line : OptionLine) : Prop where
  ending : line.ending = .lf
  before : Runs [32, 9, 32, 9] line.before
  afterKey : Runs [9, 32] line.afterKey
  value : if line.value = [] then line.beforeValue = [] ∧ line.after = []
    else Runs [32, 9] line.beforeValue ∧ Runs [9, 32] line.after

theorem trimBlanks_keyText (line : OptionLine) :
    trimBlanks line.keyText = line.key ↔
      Runs [32, 9, 32, 9] line.before ∧ Runs [9, 32] line.afterKey := by
  obtain ⟨hne, hplain, _⟩ := line.key_plain
  rw [keyText, trimBlanks_eq_iff hne (fun h => hplain 32 h (by decide))
    (fun h => hplain 9 h (by decide)), @runs_cons 32 [9, 32, 9],
    @runs_cons 9 [32, 9]]

theorem trimBlanks_crlf (h : line.ending = .crlf) : trimBlanks line.valueText ≠ line.value := by
  intro he
  have hmem : 13 ∈ trimBlanks line.valueText := by
    rw [trimBlanks, mem_trimText (by decide), mem_trimText (by decide), valueText, h]
    exact List.mem_append_right _ List.mem_cons_self
  exact line.plain 13 (he ▸ hmem) (by decide)

theorem trimBlanks_lf (h : line.ending = .lf) :
    trimBlanks line.valueText = line.value ↔
      if line.value = [] then line.beforeValue = [] ∧ line.after = []
      else Runs [32, 9] line.beforeValue ∧ Runs [9, 32] line.after := by
  have htext : line.valueText = line.beforeValue ++ line.value ++ line.after := by
    rw [valueText, h]
    exact List.append_nil _
  rw [htext]
  split
  · next hnil =>
    rw [hnil, List.append_nil, ← List.append_eq_nil_iff]
    constructor
    · exact fun he => trimText_eq_nil (trimText_eq_nil he)
    · intro he
      rw [he]
      rfl
  · next hne =>
    exact trimBlanks_eq_iff hne (fun h => line.plain 32 h (by decide))
      (fun h => line.plain 9 h (by decide)) _ _

theorem zero_not_mem_text (line : OptionLine) : 0 ∉ line.text := by
  have hending : 0 ∉ line.ending.bytes := by cases line.ending <;> decide
  intro h
  exact (List.mem_append.mp h).elim (line.not_mem_body (by decide)) hending

theorem bufferFulls_text (line : OptionLine) : bufferFulls line.text = [line.text] := by
  have hlines : fileLines line.text = [line.text] := by
    rw [text_eq, fileLines, lines_cons line.newline_not_mem]
    rfl
  have hmem : line.text ∈ fileLines line.text := hlines ▸ List.mem_singleton_self _
  exact bufferFulls_short hmem (Nat.lt_succ_of_lt line.short)

theorem calls_text (line : OptionLine) : (configFile line.text).calls =
    [⟨line.text, trimBlanks line.keyText, trimBlanks line.valueText⟩] := by
  rw [configFile_calls line.zero_not_mem_text, line.bufferFulls_text,
    List.filterMap_cons_some line.lineCall_text, List.filterMap_nil]

end OptionLine

/-- The option is set to its value exactly when the line ends with a line feed alone and the blanks
are in order. -/
theorem option_line_call_iff (line : OptionLine) (config : ConfigT) :
    (∃ r, Settles (parseFile (configFile line.text) config) (.finished r) ∧
      r.calls.map (fun call => (call.key, call.value)) = [(line.key, line.value)]) ↔
    line.InOrder := by
  have hread : (∃ r, Settles (parseFile (configFile line.text) config) (.finished r) ∧
      r.calls.map (fun call => (call.key, call.value)) = [(line.key, line.value)]) ↔
      trimBlanks line.keyText = line.key ∧ trimBlanks line.valueText = line.value := by
    obtain ⟨r, hr, hcalls, _⟩ := parseFile_ends (ofBytes_ends [] (by decide) line.text) config
    have hmap : r.calls.map (fun call => (call.key, call.value)) = [(line.key, line.value)] ↔
        trimBlanks line.keyText = line.key ∧ trimBlanks line.valueText = line.value := by
      have htext := line.calls_text
      rw [configFile] at htext
      rw [hcalls, htext]
      simp
    rw [← hmap]
    constructor
    · rintro ⟨r', hr', hmap'⟩
      cases hr.unique hr'
      exact hmap'
    · exact fun hmap' => ⟨r, hr, hmap'⟩
  rw [hread, OptionLine.trimBlanks_keyText]
  constructor
  · rintro ⟨⟨hbefore, hafterKey⟩, hvalue⟩
    cases hending : line.ending with
    | crlf => exact absurd hvalue (OptionLine.trimBlanks_crlf hending)
    | lf => exact ⟨hending, hbefore, hafterKey, (OptionLine.trimBlanks_lf hending).mp hvalue⟩
  · intro h
    exact ⟨⟨h.before, h.afterKey⟩, (OptionLine.trimBlanks_lf h.ending).mpr h.value⟩

def crlfLine : OptionLine where
  key := cstr "run_dir"
  value := cstr "/run"
  before := []
  afterKey := []
  beforeValue := []
  after := []
  ending := .crlf
  known := by decide
  plain := by decide +kernel
  blank := by simp
  short := by decide

theorem crlf_line_call :
    ¬ ∃ r, Settles (parseFile (configFile crlfLine.text) (initConfig 0)) (.finished r) ∧
      r.calls.map (fun call => (call.key, call.value)) = [(crlfLine.key, crlfLine.value)] := by
  rintro ⟨r, hr, hmap⟩
  obtain ⟨r', hr', hcalls, _⟩ := parseFile_ends (ofBytes_ends [] (by decide) crlfLine.text)
    (initConfig 0)
  cases hr.unique hr'
  have htext := crlfLine.calls_text
  rw [configFile] at htext
  rw [hcalls, htext] at hmap
  revert hmap
  decide

end Aiqb
