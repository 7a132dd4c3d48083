import Aiqb.Config
import Aiqb.Runs

namespace Aiqb
set_option autoImplicit true

open Loops

def ConfigStream.ends : ConfigStream → Bool
  | eof => true
  | error => false
  | last _ => true
  | next _ rest => rest.ends
  | failed rest => rest.ends

theorem trimmed_sublist (chr : UInt8) (s : CString) : (trimmed chr s).Sublist s :=
  (List.rdropWhile_prefix _ _).sublist.trans (List.dropWhile_sublist _)

theorem trimText_sublist (chr : UInt8) (s : CString) : (trimText chr s).Sublist s := by
  unfold trimText
  split
  · exact List.Sublist.refl s
  · exact trimmed_sublist chr s

theorem trimQuotes_short {value : CString} (h0 : 0 ∉ value) (hlen : value.length < 2 ^ 31 - 1) :
    trimQuotes value = some (trimText 39 (trimText 34 value)) := by
  have hsub := trimText_sublist 34 value
  rw [trimQuotes, trimString_short h0 hlen, Option.bind_some,
    trimString_short (fun h => h0 (hsub.subset h)) (Nat.lt_of_le_of_lt hsub.length_le hlen)]

theorem assignConfig_short {value : CString} (h0 : 0 ∉ value) (hlen : value.length < 2 ^ 31 - 1)
    (key : CString) (config : ConfigT) : ∃ r, assignConfig key (some value) config = some r := by
  unfold assignConfig
  split
  · exact ⟨_, rfl⟩
  · exact ⟨_, rfl⟩
  · dsimp only
    rw [trimQuotes_short h0 hlen]
    exact ⟨_, rfl⟩

theorem trimLine_sublist (buffer : CString) : (trimLine buffer).Sublist buffer :=
  (trimText_sublist _ _).trans ((trimText_sublist _ _).trans
    ((trimText_sublist _ _).trans (trimText_sublist _ _)))

theorem trimBlanks_sublist (s : CString) : (trimBlanks s).Sublist s :=
  (trimText_sublist _ _).trans (trimText_sublist _ _)

theorem lineCall_value (h : lineCall buffer = some call) : call.value.Sublist buffer := by
  simp only [lineCall, Option.ite_none_left_eq_some, Option.ite_none_right_eq_some,
    Option.some.injEq] at h
  obtain ⟨_, _, _, rfl⟩ := h
  exact (trimBlanks_sublist _).trans ((List.tail_sublist _).trans
    ((List.dropWhile_sublist _).trans (trimLine_sublist buffer)))

def ConfigStream.lines : ConfigStream → List FgetsLine
  | eof => []
  | error => []
  | last line => [line]
  | next line rest => line :: rest.lines
  | failed rest => rest.lines

def ConfigStream.calls (stream : ConfigStream) : List ConfigCall :=
  stream.lines.filterMap fun line => lineCall line.text

def ConfigCall.apply (config : ConfigT) (call : ConfigCall) : Option ConfigT :=
  (assignConfig call.key (some call.value) config).map Prod.fst

section Reading

variable {r : FileReader}

theorem FileReader.assign_some (r : FileReader) (line : FgetsLine) :
    ∃ config, r.assign line.text =
        some { r with calls := r.calls ++ (lineCall line.text).toList, config := config } ∧
      Run ConfigCall.apply r.config (lineCall line.text).toList config := by
  unfold assign
  cases h : lineCall line.text with
  | none => exact ⟨r.config, by simp, Run.nil_iff.mpr rfl⟩
  | some call =>
    have hsub := lineCall_value h
    have hplain : 0 ∉ call.value := by
      intro h0
      have hne := List.mem_takeWhile_imp (hsub.subset h0)
      simp at hne
    have hlen : call.value.length < 2 ^ 31 - 1 := by
      have htext : line.text.length ≤ line.bytes.length := (List.takeWhile_sublist _).length_le
      have hshort := line.short
      have hle := hsub.length_le
      unfold configMaxBuffer at hshort
      omega
    obtain ⟨⟨config, known⟩, he⟩ := assignConfig_short hplain hlen call.key r.config
    refine ⟨config, ?_, Run.cons_iff.mpr ⟨config, ?_, Run.nil_iff.mpr rfl⟩⟩
    · dsimp only
      rw [he]
      rfl
    · rw [ConfigCall.apply, he, Option.map_some]

theorem FileReader.turn_some (r : FileReader) :
    ∃ config, r.turn = some
        { stream := r.stream.fgets.2.1
          feof := r.stream.fgets.2.2
          calls := r.calls ++ (r.stream.fgets.1.bind fun line => lineCall line.text).toList
          config := config } ∧
      Run ConfigCall.apply r.config
        (r.stream.fgets.1.bind fun line => lineCall line.text).toList config := by
  unfold turn
  dsimp only
  cases r.stream.fgets.1 with
  | none => exact ⟨r.config, by simp, Run.nil_iff.mpr rfl⟩
  | some line =>
    exact FileReader.assign_some { r with
      stream := r.stream.fgets.2.1, feof := r.stream.fgets.2.2 } line

def FileReader.loop (n : Nat) (r : FileReader) : Outcome FileReader :=
  whileLoop (fun r => !r.feof) (fun _ r => .ofOption r.turn) n r

theorem FileReader.loop_turn (hf : r.feof = false) (ht : r.turn = some r')
    (h : Settles (fun n => loop n r') o) : Settles (fun n => loop n r) o := by
  apply settles_turn (t := r') (by rw [hf]; rfl) _ h
  rw [ht]
  exact .const _

theorem ConfigStream.calls_fgets (stream : ConfigStream) :
    stream.calls = (stream.fgets.1.bind fun line => lineCall line.text).toList ++
      stream.fgets.2.1.calls := by
  cases stream with
  | eof | error | failed => rfl
  | last line => exact (List.append_nil _).symm
  | next line rest =>
    change (line :: rest.lines).filterMap (fun line => lineCall line.text) =
      (lineCall line.text).toList ++ rest.calls
    rw [List.filterMap_cons]
    cases lineCall line.text with
    | none => rfl
    | some call => rfl

theorem FileReader.loop_ends (hs : r.stream.ends) (hf : r.feof = false) :
    ∃ t, Settles (fun n => loop n r) (.finished t) ∧ t.calls = r.calls ++ r.stream.calls ∧
      Run ConfigCall.apply r.config r.stream.calls t.config := by
  obtain ⟨stream, feof, calls, config⟩ := r
  dsimp only at hs hf ⊢
  subst hf
  induction stream generalizing calls config with
  | error => cases hs
  | eof | last =>
    obtain ⟨config', ht, hrun⟩ := FileReader.turn_some ⟨_, false, calls, config⟩
    refine ⟨_, FileReader.loop_turn rfl ht (settles_stop rfl), ?_, ?_⟩
    · rw [ConfigStream.calls_fgets]
      exact congrArg (calls ++ ·) (List.append_nil _).symm
    · rw [ConfigStream.calls_fgets]
      exact Run.append_iff.mpr ⟨config', hrun, Run.nil_iff.mpr rfl⟩
  | next line rest ih =>
    obtain ⟨config', ht, hrun⟩ := FileReader.turn_some ⟨.next line rest, false, calls, config⟩
    obtain ⟨t, hloop, hcalls, hrest⟩ := ih _ config' hs
    refine ⟨t, FileReader.loop_turn rfl ht hloop, ?_, ?_⟩
    · rw [hcalls, List.append_assoc, ConfigStream.calls_fgets (.next line rest)]
      rfl
    · rw [ConfigStream.calls_fgets]
      exact Run.append_iff.mpr ⟨config', hrun, hrest⟩
  | failed rest ih =>
    obtain ⟨config', ht, hrun⟩ := FileReader.turn_some ⟨.failed rest, false, calls, config⟩
    obtain ⟨t, hloop, hcalls, hrest⟩ := ih _ config' hs
    refine ⟨t, FileReader.loop_turn rfl ht hloop, ?_, ?_⟩
    · rw [hcalls, List.append_assoc, ConfigStream.calls_fgets (.failed rest)]
      rfl
    · rw [ConfigStream.calls_fgets]
      exact Run.append_iff.mpr ⟨config', hrun, hrest⟩

theorem ConfigStream.fgets_endless (hs : ¬ ConfigStream.ends stream) :
    ¬ stream.fgets.2.1.ends ∧ stream.fgets.2.2 = false := by
  cases stream with
  | eof | last => exact absurd rfl hs
  | error => exact ⟨hs, rfl⟩
  | next line rest => exact ⟨hs, rfl⟩
  | failed rest => exact ⟨hs, rfl⟩

theorem FileReader.loop_endless (hs : ¬ r.stream.ends) (hf : r.feof = false) (n : Nat) :
    loop n r = .unfinished := by
  induction n generalizing r with
  | zero => rfl
  | succ n ih =>
    obtain ⟨config, ht, _⟩ := r.turn_some
    obtain ⟨hend, hflag⟩ := ConfigStream.fgets_endless hs
    rw [loop, whileLoop, hf, ht]
    exact ih hend hflag

end Reading

theorem parseFile_ends (hs : stream.ends) (config : ConfigT) :
    ∃ r, Settles (parseFile stream config) (.finished r) ∧ r.calls = stream.calls ∧
      Run ConfigCall.apply config stream.calls r.config :=
  FileReader.loop_ends (r := ⟨stream, false, [], config⟩) hs rfl

/-- The loop of `_parse_file` ends exactly when the stream comes to the end of the file. -/
theorem config_loop_ends_iff (stream : ConfigStream) (config : ConfigT) :
    (∃ r, Settles (parseFile stream config) (.finished r)) ↔ stream.ends := by
  constructor
  · rintro ⟨r, bound, h⟩
    by_contra hs
    have hloop := FileReader.loop_endless (r := ⟨stream, false, [], config⟩) hs rfl bound
    cases hloop.symm.trans (h bound (Nat.le_refl bound))
  · intro hs
    obtain ⟨r, hr, _⟩ := parseFile_ends hs config
    exact ⟨r, hr⟩

/-- A directory can be opened, but reading it fails for ever. -/
theorem config_directory_endless :
    ¬ ∃ r, Settles (parseFile .error (initConfig 0)) (.finished r) := by
  rintro ⟨r, bound, h⟩
  have hloop := FileReader.loop_endless (r := ⟨.error, false, [], initConfig 0⟩) (by decide) rfl
    bound
  cases hloop.symm.trans (h bound (Nat.le_refl bound))

end Aiqb
