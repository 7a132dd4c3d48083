import Aiqb.ConfigStream
import Aiqb.LineCuts

namespace Aiqb
set_option autoImplicit true

open Loops LineCuts

def fileLines (content : List UInt8) : List CString := lines 10 content

def fullBuffer (s : List UInt8) : Bool := endsWith 10 s || s.length + 1 = configMaxBuffer

def bufferFulls (content : List UInt8) : List CString := cut fullBuffer [] content

theorem fullBuffer_newline (s : List UInt8) : fullBuffer (s ++ [10]) := by
  rw [fullBuffer, endsWith_snoc, Bool.true_or]

theorem fullBuffer_iff (buffer : List UInt8) (b : UInt8) :
    fullBuffer (buffer ++ [b]) ↔ b = 10 ∨ buffer.length + 2 = configMaxBuffer := by
  rw [fullBuffer, endsWith, List.getLast?_concat, List.length_append, Bool.or_eq_true,
    decide_eq_true_eq, decide_eq_true_eq, Option.some.injEq]
  rfl

theorem ofBytes_bytes (buffer : List UInt8) (h : buffer.length + 1 < configMaxBuffer)
    (content : List UInt8) :
    (ConfigStream.ofBytes buffer h content).lines.map FgetsLine.bytes =
      cut fullBuffer buffer content := by
  induction content generalizing buffer with
  | nil =>
    rw [ConfigStream.ofBytes, cut]
    by_cases hb : buffer = []
    · rw [if_pos hb, if_pos (List.isEmpty_iff.mpr hb)]
      rfl
    · rw [if_neg hb, if_neg fun hnil => hb (List.isEmpty_iff.mp hnil)]
      rfl
  | cons b rest ih =>
    rw [ConfigStream.ofBytes, cut]
    by_cases hfull : b = 10 ∨ buffer.length + 2 = configMaxBuffer
    · rw [dif_pos hfull, if_pos ((fullBuffer_iff buffer b).mpr hfull), ConfigStream.lines,
        List.map_cons, ih]
    · rw [dif_neg hfull, if_neg fun hf => hfull ((fullBuffer_iff buffer b).mp hf), ih]

theorem ofBytes_ends (buffer : List UInt8) (h : buffer.length + 1 < configMaxBuffer)
    (content : List UInt8) : (ConfigStream.ofBytes buffer h content).ends := by
  induction content generalizing buffer with
  | nil =>
    rw [ConfigStream.ofBytes]
    split <;> rfl
  | cons b rest ih =>
    rw [ConfigStream.ofBytes]
    split
    · exact ih [] _
    · exact ih _ _

section Contents

variable {content : List UInt8} {p l : CString}

theorem bufferFulls_flatten (content : List UInt8) : (bufferFulls content).flatten = content :=
  cut_flatten [] content

theorem zero_not_mem (h0 : 0 ∉ content) (hp : p ∈ bufferFulls content) : 0 ∉ p := by
  intro h
  rw [← bufferFulls_flatten content] at h0
  exact h0 (List.mem_flatten.mpr ⟨p, hp, h⟩)

theorem bufferFull_length (hp : p ∈ bufferFulls content) : p.length < configMaxBuffer := by
  rw [bufferFulls, ← ofBytes_bytes [] (by decide) content] at hp
  obtain ⟨line, _, rfl⟩ := List.mem_map.mp hp
  exact line.short

theorem configFile_calls (h0 : 0 ∉ content) :
    (configFile content).calls = (bufferFulls content).filterMap lineCall := by
  have hbytes : (configFile content).lines.map FgetsLine.bytes = bufferFulls content :=
    ofBytes_bytes [] (by decide) content
  rw [ConfigStream.calls, ← hbytes, List.filterMap_map]
  apply List.filterMap_congr
  intro line hline
  have hmem : line.bytes ∈ bufferFulls content := hbytes ▸ List.mem_map_of_mem hline
  have hplain := zero_not_mem h0 hmem
  have htext : line.text = line.bytes := by
    rw [FgetsLine.text, List.takeWhile_eq_self_iff]
    intro b hb
    exact decide_eq_true fun he => hplain (he ▸ hb)
  rw [htext]
  rfl

theorem bufferFulls_lines (content : List UInt8) :
    bufferFulls content = (fileLines content).flatMap bufferFulls :=
  cut_lines fullBuffer_newline content

theorem bufferFulls_short (hl : l ∈ fileLines content) (hshort : l.length < configMaxBuffer) :
    bufferFulls l = [l] := by
  have hne : l ≠ [] := ne_nil_of_mem_cut hl
  have hbody : 10 ∉ l.dropLast := by
    obtain ⟨s, hs, rfl | ⟨rfl, _⟩⟩ := mem_lines hl
    · rw [List.dropLast_concat]
      exact hs
    · exact fun h => hs (List.mem_of_mem_dropLast h)
  rw [bufferFulls, cut_whole (by simpa using hne)]
  · rfl
  · intro s hs _ hne' hfull
    obtain ⟨t, ht⟩ := hs
    have htne : t ≠ [] := by
      rintro rfl
      rw [List.append_nil] at ht
      exact hne' ht
    have hpos := List.length_pos_of_ne_nil htne
    have hlen := congrArg List.length ht
    rw [List.length_append] at hlen
    rw [List.nil_append, fullBuffer, Bool.or_eq_true, decide_eq_true_eq] at hfull
    rcases hfull with hend | hlong
    · apply hbody
      rw [← ht, List.dropLast_append_of_ne_nil htne]
      exact List.mem_append_left _ (endsWith_mem hend)
    · omega

theorem mem_trimmed (hb : b ≠ chr) : b ∈ trimmed chr s ↔ b ∈ s := by
  constructor
  · exact fun h => (trimmed_sublist chr s).subset h
  · intro h
    rw [← List.takeWhile_append_dropWhile (p := (· == chr)) (l := s), List.mem_append] at h
    have hfront : b ∉ s.takeWhile (· == chr) := fun hm =>
      hb (beq_iff_eq.mp (List.mem_takeWhile_imp (p := (· == chr)) hm))
    have hback : b ∉ (s.dropWhile (· == chr)).rtakeWhile (· == chr) := fun hm =>
      hb (beq_iff_eq.mp (List.mem_rtakeWhile_imp (p := (· == chr)) hm))
    have hdrop := h.resolve_left hfront
    rw [← List.rdropWhile_append_rtakeWhile (p := (· == chr)) (l := s.dropWhile (· == chr)),
      List.mem_append] at hdrop
    exact hdrop.resolve_right hback

theorem mem_trimText (hb : b ≠ chr) : b ∈ trimText chr s ↔ b ∈ s := by
  unfold trimText
  split
  · exact Iff.rfl
  · exact mem_trimmed hb

theorem equals_mem_trimLine (p : CString) : 61 ∈ trimLine p ↔ 61 ∈ p := by
  rw [trimLine, mem_trimText (by decide), mem_trimText (by decide), mem_trimText (by decide),
    mem_trimText (by decide)]

theorem lineCall_isSome (p : CString) :
    (lineCall p).isSome ↔ ¬ isCommentLine (trimLine p) ∧ 61 ∈ p := by
  unfold lineCall
  by_cases hp : p.length = 0
  · rw [if_pos hp, List.length_eq_zero_iff.mp hp]
    simp
  · rw [if_neg hp]
    dsimp only
    rw [← equals_mem_trimLine p]
    by_cases hcomment : isCommentLine (trimLine p)
    · rw [if_pos hcomment]
      simp [hcomment]
    · rw [if_neg hcomment]
      by_cases heq : 61 ∈ trimLine p
      · rw [if_pos heq]
        simp [hcomment, heq]
      · rw [if_neg heq]
        simp [heq]

theorem lineCall_buffer (h : lineCall p = some call) : call.buffer = p := by
  simp only [lineCall, Option.ite_none_left_eq_some, Option.ite_none_right_eq_some,
    Option.some.injEq] at h
  obtain ⟨_, _, _, rfl⟩ := h
  rfl

theorem calls_buffers (ps : List CString) :
    (ps.filterMap lineCall).map ConfigCall.buffer = ps.filter fun p => (lineCall p).isSome := by
  induction ps with
  | nil => rfl
  | cons p ps ih =>
    cases h : lineCall p with
    | none => rw [List.filterMap_cons_none h, ih, List.filter_cons_of_neg (by simp [h])]
    | some call =>
      rw [List.filterMap_cons_some h, List.map_cons, ih, lineCall_buffer h,
        List.filter_cons_of_pos (by simp [h])]

/-- Each call was made for a line of its own, which has a sign '=' and is not a comment. -/
structure TakenFromLines (content : List UInt8) (calls : List ConfigCall) : Prop where
  lines : (calls.map ConfigCall.buffer).Sublist (fileLines content)
  option : ∀ call ∈ calls, 61 ∈ call.buffer ∧ ¬ isCommentLine (trimLine call.buffer)

/-- No part of a line that is too long for the buffer would be taken for an option. -/
def OptionsShort (content : List UInt8) : Prop :=
  ∀ l ∈ fileLines content, configMaxBuffer ≤ l.length →
    ∀ p ∈ bufferFulls l, isCommentLine (trimLine p) ∨ 61 ∉ p

instance (content : List UInt8) : Decidable (OptionsShort content) :=
  inferInstanceAs (Decidable (∀ l ∈ fileLines content, configMaxBuffer ≤ l.length →
    ∀ p ∈ bufferFulls l, isCommentLine (trimLine p) ∨ 61 ∉ p))

end Contents

section WholeLines

variable {content content' : List UInt8} {ls : List CString}

def taken (l : CString) : List CString := (bufferFulls l).filter fun p => (lineCall p).isSome

theorem taken_flatMap (content : List UInt8) :
    (bufferFulls content).filter (fun p => (lineCall p).isSome) =
      (fileLines content).flatMap taken := by
  rw [bufferFulls_lines, List.filter_flatMap]
  rfl

theorem taken_long (h : OptionsShort content) (hl : l ∈ fileLines content)
    (hlong : configMaxBuffer ≤ l.length) : taken l = [] := by
  rw [taken, List.filter_eq_nil_iff]
  intro p hp hsome
  obtain ⟨hcomment, heq⟩ := (lineCall_isSome p).mp hsome
  rcases h l hl hlong p hp with hc | hn
  · exact hcomment hc
  · exact hn heq

theorem flatMap_sublist {f : α → List α} {xs : List α} (h : ∀ x ∈ xs, (f x).Sublist [x]) :
    (xs.flatMap f).Sublist xs := by
  induction xs with
  | nil => exact List.Sublist.refl []
  | cons x xs ih =>
    rw [List.forall_mem_cons] at h
    exact (h.1.append (ih h.2) : (f x ++ xs.flatMap f).Sublist ([x] ++ xs))

theorem taken_sublist (h : OptionsShort content) :
    ((fileLines content).flatMap taken).Sublist (fileLines content) := by
  apply flatMap_sublist
  intro l hl
  by_cases hshort : l.length < configMaxBuffer
  · rw [taken, bufferFulls_short hl hshort]
    exact List.filter_sublist
  · rw [taken_long h hl (Nat.le_of_not_lt hshort)]
    exact List.nil_sublist _

/-- A part of a long line is taken once more than it is a line. -/
theorem count_taken (hls : ∀ l ∈ ls, l ∈ fileLines content) (hp : (lineCall p).isSome)
    (hshort : p.length < configMaxBuffer) :
    ls.count p ≤ (ls.flatMap taken).count p ∧
      ((∃ l ∈ ls, configMaxBuffer ≤ l.length ∧ p ∈ bufferFulls l) →
        ls.count p < (ls.flatMap taken).count p) := by
  induction ls with
  | nil => exact ⟨Nat.le_refl _, fun ⟨_, hl, _⟩ => nomatch hl⟩
  | cons l ls ih =>
    rw [List.forall_mem_cons] at hls
    obtain ⟨hle, hlt⟩ := ih hls.2
    rw [List.flatMap_cons, List.count_append, List.count_cons]
    have hself : (if l == p then 1 else 0) ≤ (taken l).count p := by
      by_cases hlp : l = p
      · subst hlp
        rw [taken, bufferFulls_short hls.1 hshort]
        simp [hp]
      · rw [if_neg (by simpa using hlp)]
        exact Nat.zero_le _
    refine ⟨by omega, ?_⟩
    rintro ⟨l', hl', hlong, hmem⟩
    rcases List.mem_cons.mp hl' with rfl | hl'
    · have hne : ¬ (l' == p) := by
        rw [beq_iff_eq]
        rintro rfl
        exact Nat.not_lt_of_le hlong hshort
      have hpos : 0 < (taken l').count p :=
        List.count_pos_iff.mpr (List.mem_filter.mpr ⟨hmem, hp⟩)
      rw [if_neg hne]
      omega
    · have := hlt ⟨l', hl', hlong, hmem⟩
      omega

theorem takenFromLines_iff (h0 : 0 ∉ content) :
    TakenFromLines content (configFile content).calls ↔ OptionsShort content := by
  rw [configFile_calls h0]
  have hbuffers : ((bufferFulls content).filterMap lineCall).map ConfigCall.buffer =
      (fileLines content).flatMap taken := by
    rw [calls_buffers, taken_flatMap]
  constructor
  · rintro ⟨hsub, _⟩ l hl hlong p hp
    by_contra hno
    rw [not_or, not_not] at hno
    have hsome : (lineCall p).isSome := (lineCall_isSome p).mpr hno
    have hlt := (count_taken (fun l hl => hl) hsome (bufferFull_length hp)).2 ⟨l, hl, hlong, hp⟩
    rw [hbuffers] at hsub
    exact Nat.not_lt_of_le (hsub.count_le p) hlt
  · intro h
    constructor
    · rw [hbuffers]
      exact taken_sublist h
    · intro call hcall
      obtain ⟨p, _, hp⟩ := List.mem_filterMap.mp hcall
      rw [lineCall_buffer hp]
      exact ((lineCall_isSome p).mp (Option.isSome_of_mem hp)).symm

def optionLines (content : List UInt8) : List CString :=
  (fileLines content).filter fun l => !isCommentLine (trimLine l)

theorem calls_optionLines (h0 : 0 ∉ content) (h : OptionsShort content) :
    (configFile content).calls =
      (optionLines content).flatMap fun l => (bufferFulls l).filterMap lineCall := by
  rw [configFile_calls h0, bufferFulls_lines, List.filterMap_flatMap, optionLines]
  have hcomment : ∀ l ∈ fileLines content, isCommentLine (trimLine l) →
      (bufferFulls l).filterMap lineCall = [] := by
    intro l hl hl'
    rw [List.filterMap_eq_nil_iff]
    intro p hp
    rw [← Option.not_isSome_iff_eq_none, lineCall_isSome]
    rintro ⟨hp', heq⟩
    by_cases hshort : l.length < configMaxBuffer
    · rw [bufferFulls_short hl hshort, List.mem_singleton] at hp
      exact hp' (hp ▸ hl')
    · rcases h l hl (Nat.le_of_not_lt hshort) p hp with hc | hn
      · exact hp' hc
      · exact hn heq
  generalize fileLines content = ls at hcomment
  induction ls with
  | nil => rfl
  | cons l ls ih =>
    rw [List.forall_mem_cons] at hcomment
    rw [List.flatMap_cons, ih hcomment.2]
    by_cases hl : isCommentLine (trimLine l)
    · rw [hcomment.1 hl, List.filter_cons_of_neg (by simp [hl]), List.nil_append]
    · rw [List.filter_cons_of_pos (by simp [hl]), List.flatMap_cons]

/-- When no part of a long line is taken for an option, comments do not matter. -/
theorem whole_lines (h0 : 0 ∉ content) (config : ConfigT) :
    ((∃ r, Settles (parseFile (configFile content) config) (.finished r) ∧
        TakenFromLines content r.calls) ↔ OptionsShort content) ∧
    ∀ content', 0 ∉ content' → OptionsShort content → OptionsShort content' →
      optionLines content = optionLines content' →
      ∃ r r', Settles (parseFile (configFile content) config) (.finished r) ∧
        Settles (parseFile (configFile content') config) (.finished r') ∧
        r.calls = r'.calls ∧ r.config = r'.config := by
  have hends (content) : (configFile content).ends := ofBytes_ends [] (by decide) content
  constructor
  · rw [← takenFromLines_iff h0]
    obtain ⟨r, hr, hcalls, _⟩ := parseFile_ends (hends content) config
    constructor
    · rintro ⟨r', hr', htaken⟩
      cases hr.unique hr'
      exact hcalls ▸ htaken
    · exact fun htaken => ⟨r, hr, hcalls ▸ htaken⟩
  · intro content' h0' h h' hlines
    obtain ⟨r, hr, hcalls, hconfig⟩ := parseFile_ends (hends content) config
    obtain ⟨r', hr', hcalls', hconfig'⟩ := parseFile_ends (hends content') config
    have he : (configFile content).calls = (configFile content').calls := by
      rw [calls_optionLines h0 h, calls_optionLines h0' h', hlines]
    refine ⟨r, r', hr, hr', ?_, ?_⟩
    · rw [hcalls, hcalls', he]
    · exact (he ▸ hconfig).unique hconfig'

end WholeLines

theorem whole_lines_comment :
    ∃ r r', Settles (parseFile (configFile (cstr "socket=1\n")) (initConfig 0)) (.finished r) ∧
      Settles (parseFile (configFile (cstr "; port\nsocket=1\n")) (initConfig 0)) (.finished r') ∧
      r.calls = r'.calls ∧ r.config = r'.config :=
  (whole_lines (by decide) (initConfig 0)).2 _ (by decide) (by decide) (by decide) (by decide)

def longComment : CString := 35 :: List.replicate 126 45 ++ cstr "socket=1\n"

/-- The end of a long comment sets the port. -/
theorem long_comment_taken :
    0 ∉ longComment ∧
      ∃ r, Settles (parseFile (configFile longComment) (initConfig 0)) (.finished r) ∧
        ¬ TakenFromLines longComment r.calls ∧ r.config.port = 1 := by
  have hends : (configFile longComment).ends := ofBytes_ends [] (by decide) longComment
  obtain ⟨r, hr, hcalls, hconfig⟩ := parseFile_ends hends (initConfig 0)
  have he : (configFile longComment).calls =
      [⟨cstr "socket=1\n", cstr "socket", cstr "1"⟩] := by
    decide +kernel
  rw [he] at hcalls hconfig
  refine ⟨by decide, r, hr, ?_, ?_⟩
  · rintro ⟨hsub, _⟩
    rw [hcalls] at hsub
    have hmem : cstr "socket=1\n" ∈ fileLines longComment := hsub.subset (by decide)
    revert hmem
    decide +kernel
  · have hset : Run ConfigCall.apply (initConfig 0)
        [⟨cstr "socket=1\n", cstr "socket", cstr "1"⟩] { initConfig 0 with port := 1 } := by
      decide +kernel
    rw [hconfig.unique hset]

end Aiqb
