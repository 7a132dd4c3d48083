import Aiqb.ConfigStream
import Aiqb.Runs

namespace Aiqb
set_option autoImplicit true

def ConfigKey.strings : List ConfigKey := [configDir, configFile, databaseDir, runDir, pidFile]

def ConfigT.string (config : ConfigT) : ConfigKey → Option (List UInt8)
  | .configDir => config.configDir
  | .configFile => config.configFile
  | .databaseDir => config.databaseDir
  | .runDir => config.runDir
  | .pidFile => config.pidFile
  | _ => none

/-- The string in a block, when the block has a terminator. -/
def blockText (block : List UInt8) : Option CString :=
  if 0 ∈ block then some (block.takeWhile (· ≠ 0)) else none

structure AssignCall where
  key : CString
  value : Option CString

namespace AssignCall

def apply (config : ConfigT) (call : AssignCall) : Option ConfigT :=
  (assignConfig call.key call.value config).map Prod.fst

def gives (call : AssignCall) (key : ConfigKey) : Option CString :=
  if ConfigKey.named call.key = some key then (call.value.bind trimQuotes).filter (· ≠ []) else none

def Defined (call : AssignCall) : Prop :=
  ∀ key value, ConfigKey.named call.key = some key → key ≠ .noDaemon → call.value = some value →
    (trimQuotes value).isSome

end AssignCall

/-- The last value of an option that was not empty. -/
def lastGiven (calls : List AssignCall) (key : ConfigKey) : Option CString :=
  calls.reverse.findSome? fun call => call.gives key

def ConfigT.Unterminated (config : ConfigT) : Prop :=
  ∀ key block, config.string key = some block → 0 ∉ block

section Calls

variable {call : AssignCall} {config config' : ConfigT} {value : CString}

theorem trimString_plain (h : trimString chr s = some value) : 0 ∉ value := by
  obtain ⟨m, _, rfl⟩ := Option.map_eq_some_iff.mp h
  intro h0
  simpa using List.mem_takeWhile_imp h0

theorem trimQuotes_plain (h : trimQuotes s = some value) : 0 ∉ value := by
  obtain ⟨_, _, h⟩ := Option.bind_eq_some_iff.mp h
  exact trimString_plain h

theorem ConfigT.Unterminated.set (h : config.Unterminated) (hvalue : 0 ∉ value) (key : ConfigKey) :
    (config.set key value).Unterminated := by
  intro key' block hblock
  have hold := h key' block
  cases key <;> cases key' <;> first
    | exact hold hblock
    | exact Option.some.inj hblock ▸ hvalue

theorem ConfigT.Unterminated.setNonEmpty (h : config.Unterminated) (hvalue : 0 ∉ value)
    (key : ConfigKey) : (config.setNonEmpty key value).Unterminated := by
  rcases config.setNonEmpty_cases key value with he | he
  · rw [he]
    exact h.set hvalue key
  · rw [he]
    exact h

theorem AssignCall.apply_cases (h : call.apply config = some config') :
    config' = config ∨ config' = { config with noDaemon := 1 } ∨
      ∃ key value, 0 ∉ value ∧ config' = config.setNonEmpty key value := by
  obtain ⟨⟨config₁, known⟩, he, h⟩ := Option.map_eq_some_iff.mp h
  replace h : config₁ = config' := h
  subst h
  unfold assignConfig at he
  split at he
  · rw [Option.some.injEq, Prod.mk.injEq] at he
    exact .inl he.1.symm
  · rw [Option.some.injEq, Prod.mk.injEq] at he
    exact .inr (.inl he.1.symm)
  · next key _ _ =>
    split at he
    · rw [Option.some.injEq, Prod.mk.injEq] at he
      exact .inl he.1.symm
    · obtain ⟨value, hvalue, he⟩ := Option.bind_eq_some_iff.mp he
      obtain ⟨rfl, _⟩ := (Prod.mk.injEq ..).mp (Option.some.inj he)
      exact .inr (.inr ⟨key, value, trimQuotes_plain hvalue, rfl⟩)

theorem AssignCall.apply_unterminated (h : call.apply config = some config')
    (hu : config.Unterminated) : config'.Unterminated := by
  rcases apply_cases h with he | he | ⟨key, value, hvalue, he⟩
  · exact he ▸ hu
  · intro key block hblock
    apply hu key block
    rw [← hblock, he]
    cases key <;> rfl
  · rw [he]
    exact hu.setNonEmpty hvalue key

theorem AssignCall.apply_isSome (call : AssignCall) (config : ConfigT) :
    (call.apply config).isSome ↔ call.Defined := by
  unfold apply Defined assignConfig
  rw [Option.isSome_map]
  cases hkey : ConfigKey.named call.key with
  | none => simp
  | some key =>
    by_cases hflag : key = .noDaemon
    · subst hflag
      exact iff_of_true rfl fun key value h hne _ => absurd (Option.some.inj h).symm hne
    · cases hvalue : call.value with
      | none => simp
      | some value =>
        cases htrim : trimQuotes value <;> simp [hflag, htrim]

/-- No run gives a block its terminator. -/
theorem run_unterminated (h : Run AssignCall.apply config calls config')
    (hu : config.Unterminated) : config'.Unterminated :=
  h.invariant hu fun _ _ _ hu he => AssignCall.apply_unterminated he hu

end Calls

/-- The strings read back exactly when no call sets one of them. -/
theorem strings_read_back_iff (calls : List AssignCall) (noDaemon : UInt16) :
    (∃ config, Run AssignCall.apply (initConfig noDaemon) calls config ∧
      ∀ key ∈ ConfigKey.strings, ∀ value, lastGiven calls key = some value →
        (config.string key).bind blockText = some value) ↔
    (∀ call ∈ calls, call.Defined) ∧
      ∀ call ∈ calls, ∀ key ∈ ConfigKey.strings, call.gives key = none := by
  rw [← Run.exists_iff (fun c call => AssignCall.apply_isSome call c) (initConfig noDaemon)]
  constructor
  · rintro ⟨config, hrun, hread⟩
    refine ⟨⟨config, hrun⟩, ?_⟩
    have hu : config.Unterminated := by
      apply run_unterminated hrun
      intro key block hblock
      cases key <;> cases hblock
    intro call hcall key hkey
    by_contra hgives
    have hlast : (lastGiven calls key).isSome := by
      rw [lastGiven, List.findSome?_isSome_iff]
      exact ⟨call, List.mem_reverse.mpr hcall, Option.isSome_iff_ne_none.mpr hgives⟩
    obtain ⟨value, hvalue⟩ := Option.isSome_iff_exists.mp hlast
    obtain ⟨block, hblock, htext⟩ := Option.bind_eq_some_iff.mp (hread key hkey value hvalue)
    rw [blockText, if_neg (hu key block hblock)] at htext
    cases htext
  · rintro ⟨⟨config, hrun⟩, hnone⟩
    refine ⟨config, hrun, ?_⟩
    intro key hkey value hvalue
    obtain ⟨call, hcall, hgives⟩ := List.exists_of_findSome?_eq_some hvalue
    rw [hnone call (List.mem_reverse.mp hcall) key hkey] at hgives
    cases hgives

/-- The first string that is set has no terminator in its block. -/
theorem config_dir_unterminated :
    ¬ ∃ config,
      Run AssignCall.apply (initConfig 0) [⟨cstr "config_dir", some (cstr "/a")⟩] config ∧
      ∀ key ∈ ConfigKey.strings, ∀ value,
        lastGiven [⟨cstr "config_dir", some (cstr "/a")⟩] key = some value →
        (config.string key).bind blockText = some value := by
  rintro ⟨config, hrun, hread⟩
  have hconfig : config.configDir = some (cstr "/a") := by
    have hset : Run AssignCall.apply (initConfig 0) [⟨cstr "config_dir", some (cstr "/a")⟩]
        { initConfig 0 with configDir := some (cstr "/a") } := by
      decide +kernel
    rw [hrun.unique hset]
  have hlast := hread .configDir (by decide) (cstr "/a") (by decide +kernel)
  rw [ConfigT.string, hconfig] at hlast
  revert hlast
  decide

end Aiqb
