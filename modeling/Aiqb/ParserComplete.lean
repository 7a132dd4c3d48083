import Aiqb.DraftSteps
import Aiqb.Numerals
import Aiqb.ParserRule

namespace Aiqb
set_option autoImplicit true

variable {W : Type} {env : Env W} {s s' : Parser W}

/-- A structure that is handed over has been received completely. -/
def ParserEvent.Complete : ParserEvent → Prop
  | .registerProblem d => d.Complete
  | .registerAnswer d => d.Complete
  | _ => True

def Parser.TakesInteger (s : Parser W) : Prop :=
  match s.state with
  | .problem d =>
    s.index.toNat ≤ 7 ∨ s.index.toNat < 8 + d.val.cvSize.toNat + d.val.testSize.toNat
  | .answer _ => s.index.toNat ≤ 2
  | _ => True

def Parser.TakesFloat (s : Parser W) : Prop :=
  match s.state with
  | .problem d =>
    8 + d.val.cvSize.toNat + d.val.testSize.toNat ≤ s.index.toNat ∧
      s.index.toNat < 8 + d.val.cvSize.toNat + d.val.testSize.toNat + d.val.points.toNat +
        d.val.stateSize.toNat
  | .answer d =>
    3 ≤ s.index.toNat ∧ s.index.toNat < 3 + (d.val.sizeX + d.val.sizeY).toNat
  | _ => True

/-- No number is passed over: one that the byte ends has its place in the structure. -/
def Parser.TakesToken (s : Parser W) (c : UInt8) : Prop :=
  s.EndsToken c →
    ((s.tokenFlags.count c).isInteger → s.TakesInteger) ∧
      ((s.tokenFlags.count c).isFloat → s.TakesFloat)

instance (s : Parser W) : Decidable s.TakesInteger := by
  unfold Parser.TakesInteger
  split <;> infer_instance

instance (s : Parser W) : Decidable s.TakesFloat := by
  unfold Parser.TakesFloat
  split <;> infer_instance

instance (s : Parser W) (c : UInt8) : Decidable (s.TakesToken c) := by
  unfold Parser.TakesToken Parser.EndsToken
  infer_instance

/-- The structure being filled is so up to the index, and those handed over were complete. -/
structure Parser.Tracked (s : Parser W) : Prop where
  problem : ∀ d, s.state = .problem d → d.Filled s.index.toNat
  answer : ∀ d, s.state = .answer d → d.Filled s.index.toNat
  log : ∀ e ∈ s.log, e.Complete

namespace Parser.Tracked

variable {token : CString} {v : UInt64}

theorem emit (h : s.Tracked) {e : ParserEvent} (he : e.Complete) : (s.emit e).Tracked where
  problem := h.problem
  answer := h.answer
  log e' hm := by
    rcases List.mem_append.mp hm with hm | hm
    · exact h.log e' hm
    · exact List.mem_singleton.mp hm ▸ he

theorem reply (h : s.Tracked) (r : Reply) : (s.emit (.reply r)).Tracked := h.emit trivial

theorem registerProblem {d : ProblemDraft} (h : s.Tracked) (hd : d.Complete) :
    (s.emit (.registerProblem d)).Tracked := h.emit hd

theorem registerAnswer {d : AnswerDraft} (h : s.Tracked) (hd : d.Complete) :
    (s.emit (.registerAnswer d)).Tracked := h.emit hd

theorem same (h : s.Tracked) (hs : s'.state = s.state) (hi : s'.index = s.index)
    (hl : s'.log = s.log) : s'.Tracked where
  problem d hd := hi ▸ h.problem d (hs ▸ hd)
  answer d hd := hi ▸ h.answer d (hs ▸ hd)
  log := hl ▸ h.log

theorem unfilled (h : s.Tracked) (hp : ∀ d, s'.state ≠ .problem d) (ha : ∀ d, s'.state ≠ .answer d)
    (hl : s'.log = s.log) : s'.Tracked where
  problem d hd := absurd hd (hp d)
  answer d hd := absurd hd (ha d)
  log := hl ▸ h.log

theorem idle (h : s.Tracked) : s.idle.Tracked :=
  h.unfilled (fun _ h => nomatch h) (fun _ h => nomatch h) rfl

theorem free (h : s.Tracked) (fs : List Freed) : (fs.foldl (Parser.free env) s).Tracked := by
  induction fs generalizing s with
  | nil => exact h
  | cons f fs ih => exact ih ((h.emit (e := .freed f) trivial).same rfl rfl rfl)

theorem leave (h : s.Tracked) (r : Reply) (fs : List Freed) : (s.leave env r fs).Tracked :=
  ((h.reply r).free fs).same rfl rfl rfl

theorem integerProblem (hm : env.MallocBounded) (h : s.Tracked) (ht : s.TakesInteger) :
    (Aiqb.integerProblem env (atoul token) s).Tracked := by
  unfold Aiqb.integerProblem
  split
  · next d hd =>
    have hf := h.problem d hd
    unfold Parser.TakesInteger at ht
    rw [hd] at ht
    split
    · next fs w _ => exact leave (s := { s with world := w }) (h.same rfl rfl rfl) _ _
    · next d' w hassign =>
      split
      · exact h.same rfl rfl rfl
      · next d'' hstore =>
        refine ⟨?_, fun _ h => (nomatch h), h.log⟩
        intro x hx
        cases hx
        apply ProblemDraft.filled_succ_index
        by_cases hi : s.index.toNat ≤ 7
        · exact storeIndex_filled hstore (assignHeader_filled hm hf hi hassign)
        · rw [assignHeader_ge (by omega)] at hassign
          cases hassign
          exact storeIndex_filled_succ hf (by omega) (ht.resolve_left hi) hstore
  · exact h

theorem integerAnswer (hm : env.MallocBounded) (h : s.Tracked) (ht : s.TakesInteger) :
    (Aiqb.integerAnswer env v s).Tracked := by
  unfold Aiqb.integerAnswer
  split
  · next d hd =>
    have hf := h.answer d hd
    unfold Parser.TakesInteger at ht
    rw [hd] at ht
    split
    · exact h.same rfl rfl rfl
    · next r fs w _ => exact leave (s := { s with world := w }) (h.same rfl rfl rfl) _ _
    · next d' w hassign =>
      refine ⟨fun _ h => (nomatch h), ?_, h.log⟩
      intro x hx
      cases hx
      exact AnswerDraft.filled_succ_index (assignAnswer_filled hm hf ht hassign)
  · exact h

theorem integerSolution (h : s.Tracked) (v : UInt64) :
    (Aiqb.integerSolution env v s).Tracked := by
  unfold Aiqb.integerSolution
  split
  · split
    · exact h.idle.same rfl rfl rfl
    · exact h.idle.reply _
    · split <;> exact h.idle.reply _
  · exact h

theorem integerDeleteAnswer (h : s.Tracked) (v : UInt64) :
    (Aiqb.integerDeleteAnswer env v s).Tracked := by
  unfold Aiqb.integerDeleteAnswer
  split
  · split
    · exact h.idle.same rfl rfl rfl
    · next w _ => exact reply (s := { s.idle with world := w }) (h.idle.same rfl rfl rfl) _
    · split
      · exact h.idle.same rfl rfl rfl
      · next w _ => exact reply (s := { s.idle with world := w }) (h.idle.same rfl rfl rfl) _
  · exact h

theorem integerToken (hm : env.MallocBounded) (h : s.Tracked) (hr : s.status = .reading)
    (ht : s.TakesInteger) : (Aiqb.integerToken env token s).Tracked :=
  integerToken_rule h hr (fun _ _ => h.integerProblem hm ht) (fun _ _ => h.integerAnswer hm ht)
    (fun _ => h.integerSolution _) fun _ => h.integerDeleteAnswer _

theorem completeProblem (h : s.Tracked) (hd : d.Complete) :
    (Aiqb.completeProblem env d s).Tracked := by
  unfold Aiqb.completeProblem
  split
  · exact (h.reply _).idle
  · split
    · exact (h.registerProblem hd).same rfl rfl rfl
    · next w _ =>
      have h' : Parser.Tracked { s with world := w } := h.same rfl rfl rfl
      exact ((h'.registerProblem hd).reply _).idle

theorem completeAnswer (h : s.Tracked) (hd : d.Complete) :
    (Aiqb.completeAnswer env d s).Tracked := by
  unfold Aiqb.completeAnswer
  split
  · exact (h.reply _).idle
  · split
    · exact (h.registerAnswer hd).same rfl rfl rfl
    · next w _ =>
      have h' : Parser.Tracked { s with world := w } := h.same rfl rfl rfl
      exact ((h'.registerAnswer hd).reply _).idle

theorem floatProblem (h : s.Tracked) (ht : s.TakesFloat) :
    (Aiqb.floatProblem env v s).Tracked := by
  unfold Aiqb.floatProblem
  split
  · next d hd =>
    unfold Parser.TakesFloat at ht
    rw [hd] at ht
    split
    · exact h.same rfl rfl rfl
    · next d' hstore =>
      have hfilled := storePoint_filled_succ (h.problem d hd) ht.1 ht.2 hstore
      have hnext := ProblemDraft.filled_succ_index hfilled
      have h' : Parser.Tracked { s with state := .problem d', index := s.index + 1 } := by
        refine ⟨?_, fun _ h => (nomatch h), h.log⟩
        intro x hx
        cases hx
        exact hnext
      dsimp only
      split
      · next htotal =>
        apply h'.completeProblem
        have htot := congrArg UInt64.toNat htotal
        rw [toNat_extend] at htot
        have hsum := hfilled.total_toNat (by omega)
        exact hnext.complete (by omega) htot.symm
      · exact h'
  · exact h

theorem floatAnswer (h : s.Tracked) (ht : s.TakesFloat) :
    (Aiqb.floatAnswer env v s).Tracked := by
  unfold Aiqb.floatAnswer
  split
  · next d hd =>
    unfold Parser.TakesFloat at ht
    rw [hd] at ht
    split
    · exact h.same rfl rfl rfl
    · next d' hstore =>
      have hfilled := storeOutput_filled (h.answer d hd) ht.1 ht.2 hstore
      have hnext := AnswerDraft.filled_succ_index hfilled
      have h' : Parser.Tracked { s with state := .answer d', index := s.index + 1 } := by
        refine ⟨fun _ h => (nomatch h), ?_, h.log⟩
        intro x hx
        cases hx
        exact hnext
      dsimp only
      split
      · next htotal =>
        apply h'.completeAnswer
        have htot := congrArg UInt64.toNat htotal
        rw [toNat_extend] at htot
        have hsum := hfilled.total_toNat (by omega)
        exact hnext.complete (by omega) htot.symm
      · exact h'
  · exact h

theorem floatToken (h : s.Tracked) (hr : s.status = .reading) (ht : s.TakesFloat) :
    (Aiqb.floatToken env token s).Tracked :=
  floatToken_rule h hr (fun _ _ => h.floatProblem ht) fun _ _ => h.floatAnswer ht

theorem commandToken (h : s.Tracked) (token : CString) :
    (Aiqb.commandToken env token s).Tracked := by
  have hclose (fs : List Freed) :
      Parser.Tracked { fs.foldl (Parser.free env) s with status := .returned } :=
    (h.free fs).same rfl rfl rfl
  have hlist (list : Option (W → W)) : (listCommand list s).Tracked := by
    cases list with
    | none => exact h.idle
    | some f => exact (h.idle.reply _).same rfl rfl rfl
  apply commandToken_rule token h
  · unfold registerProblemCommand
    split
    · exact h.same rfl rfl rfl
    · refine ⟨?_, fun _ h => (nomatch h), h.log⟩
      intro x hx
      cases hx
      exact ProblemDraft.filled_zero _
  · unfold registerAnswerCommand
    split
    · exact h.same rfl rfl rfl
    · refine ⟨fun _ h => (nomatch h), ?_, h.log⟩
      intro x hx
      cases hx
      exact AnswerDraft.filled_zero _
  · exact h.unfilled (fun _ h => nomatch h) (fun _ h => nomatch h) rfl
  · exact h.unfilled (fun _ h => nomatch h) (fun _ h => nomatch h) rfl
  · exact fun _ => hlist _
  · exact fun _ => hlist _
  · unfold requestCloseCommand
    split
    · exact hclose _
    · exact hclose _
    · exact h.same rfl rfl rfl

theorem takesInteger {u : Parser W} (h : s.TakesInteger) (ht : SameTurn s u) :
    u.TakesInteger := by
  unfold Parser.TakesInteger
  rw [ht.state, ht.index]
  exact h

theorem takesFloat {u : Parser W} (h : s.TakesFloat) (ht : SameTurn s u) : u.TakesFloat := by
  unfold Parser.TakesFloat
  rw [ht.state, ht.index]
  exact h

theorem parserChar {c : UInt8} (hm : env.MallocBounded) (h : s.Tracked) (hr : s.status = .reading)
    (ht : s.TakesToken c) : (Aiqb.parserChar env s c).Tracked := by
  apply parserChar_rule h hr
  · exact fun u u' hsame hu => hu.same hsame.state hsame.index hsame.log
  · exact h.same rfl rfl rfl
  · exact fun u label _ hu => hu.emit trivial
  · exact fun hends _ hi u hturn hru hu =>
      hu.integerToken hm hru (takesInteger ((ht hends).1 hi) hturn)
  · exact fun hends _ hf u hturn hru hu => hu.floatToken hru (takesFloat ((ht hends).2 hf) hturn)
  · intro _ _ _ u _ hu
    have hprinted : (u.emit (.printed .command s.token)).Tracked := hu.emit trivial
    exact hprinted.commandToken s.token

end Parser.Tracked

/-- What is handed over is complete, if no number is passed over. -/
theorem registered_complete (hm : env.MallocBounded) (w : W) (c₀ : UInt8) (bytes : List UInt8)
    (htakes : ∀ pre c, pre ++ [c] <+: bytes → (parse env (.start w c₀) pre).TakesToken c) :
    ∀ e ∈ (parse env (.start w c₀) bytes).log, e.Complete := by
  suffices h : (parse env (.start w c₀) bytes).Tracked from h.log
  induction bytes using List.reverseRecOn with
  | nil =>
    exact ⟨fun _ h => (nomatch h), fun _ h => (nomatch h), fun _ h => absurd h List.not_mem_nil⟩
  | append_singleton bytes c ih =>
    have hpre := ih fun pre d hp => htakes pre d (hp.trans (List.prefix_append bytes [c]))
    rw [parse_snoc]
    apply Parser.andThen_keeps hpre
    intro hr
    exact hpre.parserChar hm hr (htakes bytes c (List.prefix_refl _))

theorem Env.sample_bounded : Env.sample.MallocBounded := by
  intro w n b w' h
  simp only [Env.sample] at h
  split at h
  · next hlt =>
    have hlt' := UInt64.lt_iff_toNat_lt.mp hlt
    exact hlt'
  · cases h

theorem takes_of_take
    (h : ∀ n, ∀ hn : n < bytes.length, (parse env s (bytes.take n)).TakesToken bytes[n]) :
    ∀ pre c, pre ++ [c] <+: bytes → (parse env s pre).TakesToken c := by
  rintro pre c ⟨post, rfl⟩
  have ht := h pre.length (by simp)
  simpa using ht

theorem registered_complete_answer :
    ∃ d, .registerAnswer d ∈
        (parse Env.sample (.start 0 0) (cstr "reg:answer 1 0 1 1.0 ")).log ∧ d.Complete := by
  have hall := registered_complete Env.sample_bounded 0 0 (cstr "reg:answer 1 0 1 1.0 ")
    (takes_of_take (by decide))
  have hany : (parse Env.sample (.start 0 0) (cstr "reg:answer 1 0 1 1.0 ")).log.any (fun e =>
      match e with
      | .registerAnswer _ => true
      | _ => false) = true := by decide
  obtain ⟨e, hmem, he⟩ := List.any_eq_true.mp hany
  split at he
  · next d => exact ⟨d, hmem, hall _ hmem⟩
  · cases he

/-- The ninth number of this problem is an integer, and its only point is never assigned. -/
theorem registered_incomplete :
    ∃ d, .registerProblem d ∈
        (parse Env.sample (.start 0 0) (cstr "reg:problem 1 1 1 1 0 0 0 1 7 1.0 ")).log ∧
      ¬ d.Complete := by
  have hany : (parse Env.sample (.start 0 0)
      (cstr "reg:problem 1 1 1 1 0 0 0 1 7 1.0 ")).log.any (fun e =>
        e.registered.any fun d => !d.assigned (.data 0) && d.val.points = 1) = true := by decide
  obtain ⟨e, hmem, he⟩ := List.any_eq_true.mp hany
  obtain ⟨d, hd, hpoint⟩ := (Option.any_eq_true _ _).mp he
  simp only [Bool.and_eq_true, Bool.not_eq_true', decide_eq_true_eq] at hpoint
  refine ⟨d, ParserEvent.registered_eq hd ▸ hmem, ?_⟩
  intro hcomplete
  have h0 : (ProblemSlot.data 0).Announced d.val := by
    rw [ProblemSlot.Announced, hpoint.2]
    decide
  rw [hcomplete _ h0] at hpoint
  cases hpoint.1

end Aiqb
