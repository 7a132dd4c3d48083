import Aiqb.ConfigStream
import Aiqb.Runs

namespace Aiqb
set_option autoImplicit true

/-- An option with a value, as `-x value` or `--name value`. -/
structure ValueOption where
  key : ConfigKey
  long : Bool
  value : CString
  not_flag : key ≠ .noDaemon
  value_ne_nil : value ≠ []
  value_head : value.head? ≠ some 45

/-- What a command line is made of: options with values, and the flag. -/
inductive ArgOption where
  | value (option : ValueOption)
  | flag (long : Bool)

def ConfigKey.argName (key : ConfigKey) (long : Bool) : CString :=
  if long then key.token else key.shortToken

def ConfigKey.argWord (key : ConfigKey) (long : Bool) : CString :=
  if long then cstr "--" ++ key.token else cstr "-" ++ key.shortToken

namespace ArgOption

def isFlag : ArgOption → Bool
  | value _ => false
  | flag _ => true

def words : ArgOption → List CString
  | value option => [option.key.argWord option.long, option.value]
  | flag long => [ConfigKey.noDaemon.argWord long]

def apply (config : ConfigT) : ArgOption → Option ConfigT
  | value option =>
    (assignConfig (option.key.argName option.long) (some option.value) config).map Prod.fst
  | flag long => (assignConfig (ConfigKey.noDaemon.argName long) none config).map Prod.fst

def Trimmable : ArgOption → Prop
  | value option => (trimQuotes option.value).isSome
  | flag _ => True

end ArgOption

section Words

variable {key : ConfigKey} {long : Bool} {config : ConfigT}

theorem ConfigKey.argWord_head (key : ConfigKey) (long : Bool) :
    (key.argWord long).head? = some 45 := by
  cases long <;> rfl

theorem ConfigKey.named_argName (key : ConfigKey) (long : Bool) :
    ConfigKey.named (key.argName long) = some key := by
  cases key <;> cases long <;> rfl

theorem ConfigKey.trim_argWord (key : ConfigKey) (long : Bool) :
    trimString 45 (key.argWord long) = some (key.argName long) := by
  have hshort : 0 ∉ key.argWord long ∧ (key.argWord long).length < 2 ^ 31 - 1 ∧
      trimText 45 (key.argWord long) = key.argName long := by
    cases key <;> cases long <;> decide
  rw [trimString_short hshort.1 hshort.2.1, hshort.2.2]

theorem assignConfig_value (hkey : key ≠ .noDaemon) (value : CString) (config : ConfigT) :
    assignConfig (key.argName long) (some value) config =
      (trimQuotes value).map fun value => (config.setNonEmpty key value, true) := by
  unfold assignConfig
  rw [ConfigKey.named_argName]
  cases key with
  | noDaemon => exact absurd rfl hkey
  | _ => cases h : trimQuotes value <;> simp [h]

theorem assignConfig_flag (long : Bool) (config : ConfigT) :
    assignConfig (ConfigKey.noDaemon.argName long) none config =
      some ({ config with noDaemon := 1 }, true) := by
  unfold assignConfig
  rw [ConfigKey.named_argName]

theorem ConfigT.set_noDaemon (hkey : key ≠ .noDaemon) (value : CString) (config : ConfigT) :
    (config.set key value).noDaemon = config.noDaemon := by
  cases key with
  | noDaemon => exact absurd rfl hkey
  | _ => rfl

theorem ConfigT.setNonEmpty_noDaemon (hkey : key ≠ .noDaemon) (value : CString)
    (config : ConfigT) : (config.setNonEmpty key value).noDaemon = config.noDaemon := by
  rcases config.setNonEmpty_cases key value with h | h
  · rw [h, config.set_noDaemon hkey]
  · rw [h]

end Words

section Options

variable {o : ArgOption} {opts : List ArgOption} {config config' : ConfigT}

theorem ArgOption.apply_value (option : ValueOption) (config : ConfigT) :
    (value option).apply config =
      (trimQuotes option.value).map (config.setNonEmpty option.key) := by
  simp only [apply, assignConfig_value option.not_flag, Option.map_map, Function.comp_def]

theorem ArgOption.apply_flag (long : Bool) (config : ConfigT) :
    (flag long).apply config = some { config with noDaemon := 1 } := by
  rw [apply, assignConfig_flag, Option.map_some]

theorem ArgOption.apply_isSome (o : ArgOption) (config : ConfigT) :
    (o.apply config).isSome ↔ o.Trimmable := by
  cases o with
  | value option => rw [apply_value, Option.isSome_map, Trimmable]
  | flag long => rw [apply_flag, Option.isSome_some, Trimmable, eq_self]

theorem ArgOption.apply_noDaemon (h : o.apply config = some config') :
    config'.noDaemon = 1 ↔ config.noDaemon = 1 ∨ o.isFlag := by
  cases o with
  | value option =>
    rw [apply_value, Option.map_eq_some_iff] at h
    obtain ⟨value, _, rfl⟩ := h
    rw [ConfigT.setNonEmpty_noDaemon option.not_flag]
    simp [isFlag]
  | flag long =>
    rw [apply_flag, Option.some.injEq] at h
    subst h
    simp [isFlag]

theorem applyAll_noDaemon (h : Run ArgOption.apply config opts config') :
    config'.noDaemon = 1 ↔ config.noDaemon = 1 ∨ ∃ o ∈ opts, o.isFlag := by
  induction opts generalizing config with
  | nil =>
    rw [Run.nil_iff] at h
    simp [h]
  | cons o opts ih =>
    obtain ⟨config₁, ho, hopts⟩ := Run.cons_iff.mp h
    rw [ih hopts, ArgOption.apply_noDaemon ho, List.exists_mem_cons_iff, or_assoc]

/-- The options that `_parse_args` takes: a flag at the end of the line is not one of them. -/
def optionsTaken (opts : List ArgOption) : List ArgOption :=
  if opts.getLast?.any ArgOption.isFlag then opts.dropLast else opts

theorem optionsTaken_cons (o o' : ArgOption) (opts : List ArgOption) :
    optionsTaken (o :: o' :: opts) = o :: optionsTaken (o' :: opts) := by
  unfold optionsTaken
  rw [List.getLast?_cons_cons, List.dropLast_cons_cons]
  split <;> rfl

theorem words_cons (o : ArgOption) (opts : List ArgOption) :
    ∃ word rest, (o :: opts).flatMap ArgOption.words = word :: rest ∧ word.head? = some 45 := by
  cases o with
  | value option => exact ⟨_, _, rfl, option.key.argWord_head option.long⟩
  | flag long => exact ⟨_, _, rfl, ConfigKey.noDaemon.argWord_head long⟩

theorem parseArgsFrom_value (option : ValueOption) (rest : List CString) (config : ConfigT) :
    parseArgsFrom ((ArgOption.value option).words ++ rest) config =
      ((ArgOption.value option).apply config).bind fun config => parseArgsFrom rest config := by
  simp only [ArgOption.words, List.cons_append, List.nil_append, parseArgsFrom,
    ConfigKey.argWord_head, ConfigKey.trim_argWord, if_neg option.value_head,
    assignConfig_value option.not_flag, ArgOption.apply_value, Option.bind_eq_bind,
    Option.bind_some, Option.bind_map, Function.comp_def, if_true]

theorem parseArgsFrom_flag (long : Bool) (hword : word.head? = some 45) (rest : List CString)
    (config : ConfigT) :
    parseArgsFrom ((ArgOption.flag long).words ++ word :: rest) config =
      ((ArgOption.flag long).apply config).bind fun config =>
        parseArgsFrom (word :: rest) config := by
  rw [ArgOption.apply_flag]
  simp only [ArgOption.words, List.cons_append, List.nil_append, parseArgsFrom,
    ConfigKey.argWord_head, ConfigKey.trim_argWord, if_pos hword, assignConfig_flag,
    Option.bind_eq_bind, Option.bind_some, if_true]

theorem parseArgsFrom_last (long : Bool) (config : ConfigT) :
    parseArgsFrom (ArgOption.flag long).words config = some config := by
  simp only [ArgOption.words, parseArgsFrom, ConfigKey.argWord_head, ConfigKey.trim_argWord,
    Option.map_some, if_true]

/-- The loop is a run of the options that it takes. -/
theorem parseArgsFrom_words (opts : List ArgOption) (config : ConfigT) :
    parseArgsFrom (opts.flatMap ArgOption.words) config = some config' ↔
      Run ArgOption.apply config (optionsTaken opts) config' := by
  induction opts generalizing config with
  | nil =>
    rw [optionsTaken, List.getLast?_nil, Option.any_none, if_neg Bool.false_ne_true, Run.nil_iff]
    exact Option.some_inj
  | cons o opts ih =>
    rw [List.flatMap_cons]
    cases opts with
    | nil =>
      cases o with
      | value option =>
        rw [parseArgsFrom_value, Option.bind_eq_some_iff]
        simp only [ih]
        exact Run.cons_iff.symm
      | flag long =>
        rw [List.flatMap_nil, List.append_nil, parseArgsFrom_last, Option.some_inj]
        exact Run.nil_iff.symm
    | cons o' opts =>
      rw [optionsTaken_cons, Run.cons_iff]
      simp only [← ih, ← Option.bind_eq_some_iff]
      cases o with
      | value option => rw [parseArgsFrom_value]
      | flag long =>
        obtain ⟨word, rest, he, hword⟩ := words_cons o' opts
        rw [he, parseArgsFrom_flag long hword]

theorem run_last_flag (init : List ArgOption) (long : Bool) (config : ConfigT) :
    (∃ config', Run ArgOption.apply config (init ++ [.flag long]) config' ∧
      Run ArgOption.apply config init config') ↔
    (∃ config', Run ArgOption.apply config init config') ∧
      (config.noDaemon = 1 ∨ ∃ o ∈ init, o.isFlag) := by
  constructor
  · rintro ⟨config', h, hinit⟩
    obtain ⟨config₁, hinit₁, hflag⟩ := Run.snoc_iff.mp h
    cases hinit.unique hinit₁
    rw [ArgOption.apply_flag, Option.some.injEq] at hflag
    refine ⟨⟨config', hinit⟩, (applyAll_noDaemon hinit).mp ?_⟩
    rw [← hflag]
  · rintro ⟨⟨config', hinit⟩, hflag⟩
    refine ⟨config', Run.snoc_iff.mpr ⟨config', hinit, ?_⟩, hinit⟩
    rw [ArgOption.apply_flag, ← (applyAll_noDaemon hinit).mpr hflag]

end Options

/-- Every option is honoured exactly when no value is too long to be trimmed, and a flag at the end
makes no difference. -/
theorem parse_args_iff (name : CString) (opts : List ArgOption) (config : ConfigT) :
    (∃ config', Run ArgOption.apply config opts config' ∧
      parseArgs (name :: opts.flatMap ArgOption.words) config = some config') ↔
    (∀ o ∈ opts, o.Trimmable) ∧
      (opts.getLast?.any ArgOption.isFlag →
        config.noDaemon = 1 ∨ ∃ o ∈ opts.dropLast, o.isFlag) := by
  rw [parseArgs, List.tail_cons]
  simp only [parseArgsFrom_words]
  by_cases hlast : opts.getLast?.any ArgOption.isFlag
  · rw [optionsTaken, if_pos hlast, forall_prop_of_true hlast]
    obtain ⟨o, ho, hflag⟩ := (Option.any_eq_true _ _).mp hlast
    obtain ⟨long, rfl⟩ : ∃ long, o = .flag long := by
      cases o with
      | value option => cases hflag
      | flag long => exact ⟨long, rfl⟩
    obtain ⟨init, rfl⟩ := List.getLast?_eq_some_iff.mp ho
    have htrim : (∀ o ∈ init ++ [.flag long], o.Trimmable) ↔ ∀ o ∈ init, o.Trimmable := by
      rw [List.forall_mem_append, List.forall_mem_singleton]
      exact and_iff_left trivial
    rw [List.dropLast_concat, run_last_flag, htrim,
      Run.exists_iff (fun c o => ArgOption.apply_isSome o c)]
  · rw [optionsTaken, if_neg hlast, ← Run.exists_iff (fun c o => ArgOption.apply_isSome o c) config]
    simp only [and_self, hlast, false_imp_iff, and_true, Bool.false_eq_true]

def serverOptions : List ArgOption :=
  [.value ⟨.socket, false, cstr "/s", by decide, by decide, by decide⟩, .flag true,
    .value ⟨.databaseDir, true, cstr "/d", by decide, by decide, by decide⟩, .flag false]

theorem parse_args_serverOptions :
    serverOptions.flatMap ArgOption.words =
        [cstr "-s", cstr "/s", cstr "--no_daemon", cstr "--database_dir", cstr "/d", cstr "-n"] ∧
      ∃ config', Run ArgOption.apply (initConfig 0) serverOptions config' ∧
        parseArgs (cstr "aiqbd" :: serverOptions.flatMap ArgOption.words) (initConfig 0) =
          some config' := by
  have htrim : ∀ o ∈ serverOptions, (o.apply (initConfig 0)).isSome := by decide
  refine ⟨rfl, (parse_args_iff _ _ _).mpr ⟨?_, fun _ => .inr ⟨.flag true, ?_, rfl⟩⟩⟩
  · exact fun o ho => (o.apply_isSome _).mp (htrim o ho)
  · exact List.mem_cons_of_mem _ List.mem_cons_self

/-- A flag at the end of the line is not honoured. -/
theorem last_flag_lost :
    ¬ ∃ config', Run ArgOption.apply (initConfig 0) [.flag false] config' ∧
      parseArgs [cstr "aiqbd", cstr "-n"] (initConfig 0) = some config' := by
  rintro ⟨config', h, h'⟩
  have hlost : parseArgs [cstr "aiqbd", cstr "-n"] (initConfig 0) = some (initConfig 0) :=
    parseArgsFrom_last false (initConfig 0)
  rw [hlost, Option.some.injEq] at h'
  have hone := (applyAll_noDaemon h).mpr (.inr ⟨_, List.mem_singleton_self _, rfl⟩)
  rw [← h'] at hone
  revert hone
  decide

end Aiqb
