import Aiqb.BlockSizes
import Aiqb.ParserRule

namespace Aiqb
set_option autoImplicit true

variable {W : Type} {env : Env W} {s s' : Parser W} {c : UInt8} {token : CString}

instance (s : Parser W) (c : UInt8) : Decidable (s.EndsToken c) :=
  inferInstanceAs (Decidable (_ ∧ _ ∧ _ ∧ _))

/-- The numbers of elements that malloc was last asked for: for the `data` of the problem, and for
that of the answer. -/
structure Asked where
  points : UInt64
  outputs : UInt64

namespace Asked

def integer (a : Asked) (v : UInt64) (index : UInt16) : ParserState → Asked
  | .problem d =>
    { a with points := if index.toNat = 4 then d.val.rows * (d.val.sizeX + v) else a.points }
  | .answer d => { a with outputs := if index.toNat = 2 then d.val.sizeX + v else a.outputs }
  | _ => a

def command (a : Asked) (token : CString) : Asked :=
  if token = tokenRegisterProblem then { a with points := 0 }
  else if token = tokenRegisterAnswer then { a with outputs := 0 }
  else a

def read (a : Asked) (s : Parser W) (c : UInt8) : Asked :=
  if s.EndsToken c then
    let flags := s.tokenFlags.count c
    let a := if flags.isInteger then a.integer (atoul s.token) s.index s.state else a
    if flags.isCommand then a.command s.token else a
  else a

def Holds (a : Asked) : ParserState → Prop
  | .problem d => d.val.Sized a.points
  | .answer d => Backed d.val.data a.outputs
  | _ => True

end Asked

/-- The parser, with what it asked malloc for. -/
structure AskingParser (W : Type) where
  parser : Parser W
  asked : Asked

namespace AskingParser

def start (w : W) (c : UInt8) : AskingParser W := ⟨.start w c, ⟨0, 0⟩⟩

def step (env : ι → Env W) (s : AskingParser W) (e : ι × UInt8) : Option (AskingParser W) :=
  (readStep env s.parser e).map fun u => ⟨u, s.asked.read s.parser e.2⟩

/-- A float for a data section has its place among the elements that were asked for. -/
structure StoresFit (s : AskingParser W) (c : UInt8) : Prop where
  points : s.parser.EndsToken c → s.parser.token.length < 128 →
    (s.parser.tokenFlags.count c).isFloat → ∀ d, s.parser.state = .problem d →
    7 + d.val.cvSize + d.val.testSize < s.parser.index.toUInt64 ∧
      s.parser.index.toUInt64 < 8 + d.val.cvSize + d.val.testSize + d.val.points →
    (s.parser.index.toUInt64 - 8 - d.val.cvSize - d.val.testSize).toNat <
      s.asked.points.toNat % 2 ^ 61
  outputs : s.parser.EndsToken c → s.parser.token.length < 128 →
    (s.parser.tokenFlags.count c).isFloat → ∀ d, s.parser.state = .answer d →
    2 < s.parser.index.toUInt64 ∧
      s.parser.index.toUInt64 < 3 + d.val.sizeX + d.val.sizeY →
    (s.parser.index.toUInt64 - 3).toNat < s.asked.outputs.toNat % 2 ^ 61

/-- No parsed value was stored outside of its array. -/
def StoresInside (s : AskingParser W) : Prop := s.parser.status ≠ .fault .arrayStore

end AskingParser

namespace Asked

variable {a : Asked}

theorem integerProblem (hm : env.AllocatesExactly) (h : d.val.Sized a.points)
    (hst : s.state = .problem d) (hr : s.status = .reading) {v : UInt64} (hv : Extended v) :
    (integerProblem env v s).status ≠ .fault .arrayStore ∧
      ((integerProblem env v s).status = .reading →
        (a.integer v s.index (.problem d)).Holds (integerProblem env v s).state) := by
  simp only [Aiqb.integerProblem, hst]
  split
  · exact ⟨Status.noConfusion, Status.noConfusion⟩
  · next d₁ w ha =>
    obtain ⟨d₂, hs, hsized⟩ := (h.assignHeader hm hv ha).storeIndex s.index v
    rw [hs]
    exact ⟨hr ▸ Status.noConfusion, fun _ => hsized⟩

theorem integerAnswer {d : AnswerDraft} (hm : env.AllocatesExactly)
    (h : Backed d.val.data a.outputs) (hst : s.state = .answer d) (hr : s.status = .reading)
    (v : UInt64) :
    (integerAnswer env v s).status ≠ .fault .arrayStore ∧
      ((integerAnswer env v s).status = .reading →
        (a.integer v s.index (.answer d)).Holds (integerAnswer env v s).state) := by
  simp only [Aiqb.integerAnswer, hst]
  split
  · exact ⟨fun he => (by cases he), fun he => (by cases he)⟩
  · exact ⟨Status.noConfusion, Status.noConfusion⟩
  · next d₁ w ha => exact ⟨hr ▸ Status.noConfusion, fun _ => h.assignAnswer hm ha⟩

theorem integerSolution (env : Env W) (hr : s.status = .reading) (hst : s.state = .solution)
    (v : UInt64) :
    (integerSolution env v s).status ≠ .fault .arrayStore ∧
      (integerSolution env v s).state = .idle := by
  have hne : s.status ≠ .fault .arrayStore := hr ▸ Status.noConfusion
  simp only [Aiqb.integerSolution, hst]
  split
  · exact ⟨fun he => (by cases he), rfl⟩
  · exact ⟨hne, rfl⟩
  · split <;> exact ⟨hne, rfl⟩

theorem integerDeleteAnswer (env : Env W) (hr : s.status = .reading) (hst : s.state = .deleteAnswer)
    (v : UInt64) :
    (integerDeleteAnswer env v s).status ≠ .fault .arrayStore ∧
      (integerDeleteAnswer env v s).state = .idle := by
  have hne : s.status ≠ .fault .arrayStore := hr ▸ Status.noConfusion
  simp only [Aiqb.integerDeleteAnswer, hst]
  split
  · exact ⟨fun he => (by cases he), rfl⟩
  · exact ⟨hne, rfl⟩
  · split
    · exact ⟨fun he => (by cases he), rfl⟩
    · exact ⟨hne, rfl⟩

theorem integerToken (hm : env.AllocatesExactly) (h : a.Holds s.state) (hr : s.status = .reading)
    (token : CString) :
    (integerToken env token s).status ≠ .fault .arrayStore ∧
      ((integerToken env token s).status = .reading →
        (a.integer (atoul token) s.index s.state).Holds (integerToken env token s).state) := by
  have hne : s.status ≠ .fault .arrayStore := hr ▸ Status.noConfusion
  rw [integerToken_eq env token s hr]
  cases hst : s.state with
  | idle =>
    refine ⟨hne, fun _ => ?_⟩
    dsimp only
    rw [hst]
    trivial
  | problem d =>
    rw [hst] at h
    exact integerProblem hm h hst hr (atoul_bounds token)
  | answer d =>
    rw [hst] at h
    exact integerAnswer hm h hst hr _
  | solution =>
    obtain ⟨hstatus, hidle⟩ := integerSolution env hr hst (atoul token)
    refine ⟨hstatus, fun _ => ?_⟩
    dsimp only
    rw [hidle]
    trivial
  | deleteAnswer =>
    obtain ⟨hstatus, hidle⟩ := integerDeleteAnswer env hr hst (atoul token)
    refine ⟨hstatus, fun _ => ?_⟩
    dsimp only
    rw [hidle]
    trivial

theorem completeProblem (env : Env W) (hr : s.status = .reading) (d : ProblemDraft)
    (hst : a.Holds s.state) :
    (completeProblem env d s).status ≠ .fault .arrayStore ∧
      a.Holds (completeProblem env d s).state := by
  have hne : s.status ≠ .fault .arrayStore := hr ▸ Status.noConfusion
  unfold Aiqb.completeProblem
  split
  · exact ⟨hne, trivial⟩
  · split
    · exact ⟨fun he => (by cases he), hst⟩
    · exact ⟨hne, trivial⟩

theorem completeAnswer (env : Env W) (hr : s.status = .reading) (d : AnswerDraft)
    (hst : a.Holds s.state) :
    (completeAnswer env d s).status ≠ .fault .arrayStore ∧
      a.Holds (completeAnswer env d s).state := by
  have hne : s.status ≠ .fault .arrayStore := hr ▸ Status.noConfusion
  unfold Aiqb.completeAnswer
  split
  · exact ⟨hne, trivial⟩
  · split
    · exact ⟨fun he => (by cases he), hst⟩
    · exact ⟨hne, trivial⟩

theorem floatProblem (h : d.val.Sized a.points) (hst : s.state = .problem d)
    (hr : s.status = .reading) (v : UInt64) :
    ((floatProblem env v s).status ≠ .fault .arrayStore ↔
      ∃ d', storePoint s.index.toUInt64 v d = some d') ∧
      a.Holds (floatProblem env v s).state := by
  simp only [Aiqb.floatProblem, hst]
  cases hs : storePoint s.index.toUInt64 v d with
  | none =>
    refine ⟨iff_of_false (fun hne => hne rfl) ?_, hst ▸ h⟩
    rintro ⟨_, ⟨⟩⟩
  | some d' =>
    have hsized := h.storePoint hs
    dsimp only
    split
    · obtain ⟨hne, hholds⟩ := completeProblem env
        (s := { s with state := .problem d', index := s.index + 1 }) hr d' hsized
      exact ⟨iff_of_true hne ⟨d', rfl⟩, hholds⟩
    · exact ⟨iff_of_true (hr ▸ Status.noConfusion) ⟨d', rfl⟩, hsized⟩

theorem floatAnswer {d : AnswerDraft} (h : Backed d.val.data a.outputs)
    (hst : s.state = .answer d) (hr : s.status = .reading) (v : UInt64) :
    ((floatAnswer env v s).status ≠ .fault .arrayStore ↔
      ∃ d', storeOutput s.index.toUInt64 v d = some d') ∧
      a.Holds (floatAnswer env v s).state := by
  simp only [Aiqb.floatAnswer, hst]
  cases hs : storeOutput s.index.toUInt64 v d with
  | none =>
    refine ⟨iff_of_false (fun hne => hne rfl) ?_, hst ▸ h⟩
    rintro ⟨_, ⟨⟩⟩
  | some d' =>
    have hbacked := h.storeOutput hs
    dsimp only
    split
    · obtain ⟨hne, hholds⟩ := completeAnswer env
        (s := { s with state := .answer d', index := s.index + 1 }) hr d' hbacked
      exact ⟨iff_of_true hne ⟨d', rfl⟩, hholds⟩
    · exact ⟨iff_of_true (hr ▸ Status.noConfusion) ⟨d', rfl⟩, hbacked⟩

theorem floatToken (h : a.Holds s.state) (hr : s.status = .reading) (token : CString) :
    a.Holds (floatToken env token s).state := by
  apply floatToken_rule (P := fun u : Parser W => a.Holds u.state) h hr
  · intro d hst
    rw [hst] at h
    exact (floatProblem h hst hr _).2
  · intro d hst
    rw [hst] at h
    exact (floatAnswer h hst hr _).2

theorem zero_sized : ProblemT.zero.Sized 0 :=
  ⟨.zero, .zero, .zero, .none, .none, .none, .none⟩

theorem registerProblemCommand (hm : env.AllocatesExactly)
    (hr : (registerProblemCommand env s).status = .reading) :
    Holds { a with points := 0 } (registerProblemCommand env s).state := by
  unfold Aiqb.registerProblemCommand at hr ⊢
  split at hr
  · cases hr
  · next ptr p w he =>
    obtain rfl := hm.problem _ _ _ _ he
    exact zero_sized

theorem registerAnswerCommand (hr : (registerAnswerCommand env s).status = .reading) :
    Holds { a with outputs := 0 } (registerAnswerCommand env s).state := by
  unfold Aiqb.registerAnswerCommand at hr ⊢
  split at hr
  · cases hr
  · exact Backed.none

theorem listCommand (list : Option (W → W)) (s : Parser W) :
    (listCommand list s).state = .idle := by
  cases list <;> rfl

theorem commandToken (hm : env.AllocatesExactly) (h : a.Holds s.state) (token : CString)
    (hr : (commandToken env token s).status = .reading) :
    (a.command token).Holds (commandToken env token s).state := by
  unfold Aiqb.commandToken at hr ⊢
  unfold command
  by_cases hp : token = tokenRegisterProblem
  · rw [if_pos hp] at hr ⊢
    rw [if_pos hp]
    exact registerProblemCommand hm hr
  · rw [if_neg hp] at hr ⊢
    rw [if_neg hp]
    by_cases ha : token = tokenRegisterAnswer
    · rw [if_pos ha] at hr ⊢
      rw [if_pos ha]
      exact registerAnswerCommand hr
    · rw [if_neg ha] at hr ⊢
      rw [if_neg ha]
      split
      · trivial
      split
      · trivial
      split
      · exact h
      split
      · rw [listCommand]
        trivial
      split
      · rw [listCommand]
        trivial
      split
      · unfold requestCloseCommand
        split
        · rw [free_state]
          exact h
        · rw [free_state]
          exact h
        · exact h
      · exact h

theorem commandToken_status (hr : s.status = .reading) (token : CString) :
    (Aiqb.commandToken env token s).status ≠ .fault .arrayStore := by
  have hne : s.status ≠ .fault .arrayStore := hr ▸ Status.noConfusion
  have hlist (list : Option (W → W)) :
      (Aiqb.listCommand list s).status ≠ .fault .arrayStore := by
    cases list <;> exact hne
  apply commandToken_rule (P := fun u : Parser W => u.status ≠ .fault .arrayStore) token hne
  · unfold Aiqb.registerProblemCommand
    split
    · exact fun he => (by cases he)
    · exact hne
  · unfold Aiqb.registerAnswerCommand
    split
    · exact fun he => (by cases he)
    · exact hne
  · exact hne
  · exact hne
  · exact fun _ => hlist _
  · exact fun _ => hlist _
  · unfold requestCloseCommand
    split
    · exact Status.noConfusion
    · exact Status.noConfusion
    · exact Status.noConfusion

theorem analyseInteger {flags : TokenFlags} (hm : env.AllocatesExactly) (h : a.Holds s.state)
    (hr : s.status = .reading) (hr' : (analyseInteger env token flags s).status = .reading) :
    (if flags.isInteger then a.integer (atoul token) s.index s.state else a).Holds
      (analyseInteger env token flags s).state := by
  unfold Aiqb.analyseInteger at hr' ⊢
  split
  · next hint =>
    rw [if_pos hint] at hr'
    exact (integerToken hm (s := s.emit (.printed .integer token)) h hr token).2 hr'
  · exact h

theorem analyseFloat (h : a.Holds s.state) (hr : s.status = .reading) (flags : TokenFlags) :
    a.Holds (analyseFloat env token flags s).state := by
  unfold Aiqb.analyseFloat
  split
  · exact floatToken (s := s.emit (.printed .float token)) h hr token
  · exact h

theorem analyseCommand {flags : TokenFlags} (hm : env.AllocatesExactly) (h : a.Holds s.state)
    (hr' : (analyseCommand env token flags s).status = .reading) :
    (if flags.isCommand then a.command token else a).Holds
      (analyseCommand env token flags s).state := by
  unfold Aiqb.analyseCommand at hr' ⊢
  split
  · next hcom =>
    rw [if_pos hcom] at hr'
    exact commandToken hm (s := s.emit (.printed .command token)) h token hr'
  · exact h

/-- What is asked for during a byte is counted. -/
theorem parserChar (hm : env.AllocatesExactly) (h : a.Holds s.state) (hr : s.status = .reading)
    (c : UInt8) (hr' : (parserChar env s c).status = .reading) :
    (a.read s c).Holds (parserChar env s c).state := by
  by_cases hends : s.EndsToken c
  · rw [read, if_pos hends]
    have hlen := parserChar_reading_length hends hr'
    rw [parserChar_ends hends hlen] at hr' ⊢
    have hanalysed := Parser.reading_of_andThen hr'
    rw [Parser.andThen_reading hanalysed]
    rw [analyse] at hanalysed ⊢
    have hnumbers := Parser.reading_of_andThen hanalysed
    have hintegers := Parser.reading_of_andThen hnumbers
    rw [Parser.andThen_reading hnumbers] at hanalysed ⊢
    rw [Parser.andThen_reading hintegers] at hnumbers hanalysed ⊢
    apply analyseCommand hm _ hanalysed
    apply analyseFloat _ hintegers
    exact analyseInteger hm h hr hintegers
  · rw [read, if_neg hends, parserChar_no_token hends hr]
    exact h

end Asked

namespace AskingParser

theorem floatToken_inside {s : Parser W} (hends : s.EndsToken c) (hlen : s.token.length < 128)
    (hf : (s.tokenFlags.count c).isFloat)
    (hne : (parserChar env s c).status ≠ .fault .arrayStore) :
    ∃ u, SameTurn s u ∧ (floatToken env s.token u).status ≠ .fault .arrayStore := by
  obtain ⟨u, hturn, _, he⟩ := parserChar_float env hends hlen hf
  refine ⟨u, hturn, fun hfault => hne ?_⟩
  have hstopped : (floatToken env s.token u).status ≠ .reading := by
    rw [hfault]
    exact Status.noConfusion
  rw [he, Parser.andThen_left hstopped, Parser.andThen_left hstopped, hfault]

theorem parserChar_fits {s : AskingParser W} (hm : env.AllocatesExactly)
    (h : s.asked.Holds s.parser.state) (hr : s.parser.status = .reading) (c : UInt8) :
    (parserChar env s.parser c).status ≠ .fault .arrayStore ↔ s.StoresFit c := by
  constructor
  · intro hne
    constructor
    · intro hends hlen hf d hd
      obtain ⟨u, hturn, hfloat⟩ := floatToken_inside hends hlen hf hne
      have hu : u.state = .problem d := hturn.state.trans hd
      have hru : u.status = .reading := hturn.status.trans hr
      rw [hd] at h
      rw [floatToken_eq _ _ _ hru, hu] at hfloat
      rw [← hturn.index]
      exact (h.storePoint_iff u.index _).mp ((Asked.floatProblem h hu hru _).1.mp hfloat)
    · intro hends hlen hf d hd
      obtain ⟨u, hturn, hfloat⟩ := floatToken_inside hends hlen hf hne
      have hu : u.state = .answer d := hturn.state.trans hd
      have hru : u.status = .reading := hturn.status.trans hr
      rw [hd] at h
      rw [floatToken_eq _ _ _ hru, hu] at hfloat
      rw [← hturn.index]
      exact (h.storeOutput_iff _ _).mp ((Asked.floatAnswer h hu hru _).1.mp hfloat)
  · intro hfit
    have hne : s.parser.status ≠ .fault .arrayStore := hr ▸ Status.noConfusion
    apply parserChar_rule (P := fun u : Parser W => u.status ≠ .fault .arrayStore) hne hr
    · exact fun u u' hsame hu => hsame.status ▸ hu
    · exact fun he => (by cases he)
    · exact fun u label _ hu => hu
    · intro _ _ _ u hturn hru _
      rw [← hturn.state] at h
      exact (Asked.integerToken hm h hru s.parser.token).1
    · intro hends hlen hf u hturn hru hu
      rw [← hturn.state] at h
      apply floatToken_rule (P := fun u : Parser W => u.status ≠ .fault .arrayStore) hu hru
      · intro d hd
        rw [hd] at h
        apply (Asked.floatProblem h hd hru _).1.mpr
        apply (h.storePoint_iff u.index _).mpr
        rw [hturn.index]
        exact hfit.points hends hlen hf d (hturn.state.symm.trans hd)
      · intro d hd
        rw [hd] at h
        apply (Asked.floatAnswer h hd hru _).1.mpr
        apply (h.storeOutput_iff _ _).mpr
        rw [hturn.index]
        exact hfit.outputs hends hlen hf d (hturn.state.symm.trans hd)
    · exact fun _ _ _ u hru _ =>
        Asked.commandToken_status (s := u.emit (.printed .command _)) hru s.parser.token

/-- Every parsed value is stored inside its array, over all runs, exactly where every float for a
data section has its place among the elements that were asked for. -/
theorem stores_inside_iff_fit {env : ι → Env W} (hm : ∀ i, (env i).AllocatesExactly) (w : W)
    (c₀ : UInt8) (hr : Run (step env) (start w c₀) es u) :
    AllReached (step env) StoresInside (start w c₀) es ↔
      StepsMeet (step env) (fun s e => s.StoresFit e.2) (start w c₀) es := by
  apply hr.allReached_iff
    (I := fun s => s.parser.status = .reading → s.asked.Holds s.parser.state)
  · exact fun _ => trivial
  · exact Status.noConfusion
  · intro s e v hinv hs
    obtain ⟨u, hu, rfl⟩ := Option.map_eq_some_iff.mp hs
    obtain ⟨hread, rfl⟩ := readStep_iff.mp hu
    exact fun hr' => Asked.parserChar (hm e.1) (hinv hread) hread e.2 hr'
  · intro s e v hinv _ hs
    obtain ⟨u, hu, rfl⟩ := Option.map_eq_some_iff.mp hs
    obtain ⟨hread, rfl⟩ := readStep_iff.mp hu
    exact parserChar_fits (hm e.1) (hinv hread) hread e.2

/-- What was asked for is read off a run of the parser. -/
theorem run_of_readStep {env : ι → Env W} {p q : Parser W} (h : Run (readStep env) p es q)
    (a : Asked) : ∃ b, Run (step env) ⟨p, a⟩ es ⟨q, b⟩ := by
  induction es generalizing p a with
  | nil =>
    rw [Run.nil_iff] at h
    exact ⟨a, Run.nil_iff.mpr (h ▸ rfl)⟩
  | cons e es ih =>
    obtain ⟨u, hu, hrest⟩ := Run.cons_iff.mp h
    obtain ⟨b, hb⟩ := ih hrest (a.read p e.2)
    refine ⟨b, Run.cons_iff.mpr ⟨⟨u, a.read p e.2⟩, ?_, hb⟩⟩
    rw [step, hu]
    rfl

end AskingParser

theorem Env.sample_allocatesExactly : Env.sample.AllocatesExactly := by
  constructor
  · intro w n a w' h
    simp only [Env.sample] at h
    split at h
    · cases h
      rfl
    · cases h
  · rintro w ptr p w' ⟨⟩
    rfl

namespace AskingParser

def unallocated : CString := cstr "reg:problem 1 1 5 5 1.0 0 0 0 1.0"

def lastOutput : CString := cstr "reg:answer 1 0 1 1.0 "

theorem stores_inside_iff_fit_answer :
    AllReached (step fun _ : Unit => Env.sample) StoresInside (start 0 0)
        (lastOutput.map ((), ·)) ↔
      StepsMeet (step fun _ : Unit => Env.sample) (fun s e => s.StoresFit e.2) (start 0 0)
        (lastOutput.map ((), ·)) := by
  have hread : (parse Env.sample (.start 0 0) lastOutput).status = .reading := by decide
  have hrun := run_of_parse (fun _ : Unit => Env.sample) () hread
  obtain ⟨b, hb⟩ := run_of_readStep hrun ⟨0, 0⟩
  exact stores_inside_iff_fit (fun _ => Env.sample_allocatesExactly) 0 0 hb

theorem not_stores_inside :
    Env.sample.AllocatesExactly ∧
      ∃ u, Run (step fun _ : Unit => Env.sample) (start 0 0)
          ((unallocated ++ [32]).map ((), ·)) u ∧ ¬ u.StoresInside := by
  have hread : (parse Env.sample (.start 0 0) unallocated).status = .reading := by decide
  have hfault : (parserChar Env.sample (parse Env.sample (.start 0 0) unallocated) 32).status =
      .fault .arrayStore := by decide
  have hrun := run_of_parse (fun _ : Unit => Env.sample) () hread
  have hlast : readStep (fun _ : Unit => Env.sample) _ ((), 32) = some _ := if_pos hread
  obtain ⟨b, hb⟩ := run_of_readStep (Run.snoc_iff.mpr ⟨_, hrun, hlast⟩) ⟨0, 0⟩
  refine ⟨Env.sample_allocatesExactly, ⟨_, b⟩, ?_, fun hinside => hinside hfault⟩
  rw [List.map_append]
  exact hb

end AskingParser

end Aiqb
