import Aiqb.Runs

namespace Aiqb
set_option autoImplicit true

/-- The events that a machine makes for another one on its way along `es`. -/
def emittedAll (step : σ → ε → Option σ) (emit : σ → ε → List φ) : σ → List ε → List φ
  | _, [] => []
  | s, e :: es => emit s e ++ (step s e).elim [] fun t => emittedAll step emit t es

/-- The events that a machine makes for another one, at most one a step. -/
def emitted (step : σ → ε → Option σ) (emit : σ → ε → Option φ) : σ → List ε → List φ
  | _, [] => []
  | s, e :: es => (emit s e).toList ++ (step s e).elim [] fun t => emitted step emit t es

section Stuttering

variable {R : σ → τ → Prop} {step : σ → ε → Option σ} {step' : τ → φ → Option τ}
  {emit : σ → ε → List φ} {s t : σ} {b : τ} {es fs : List ε} {e : ε}

theorem emittedAll_cons (h : step s e = some t) :
    emittedAll step emit s (e :: es) = emit s e ++ emittedAll step emit t es := by
  rw [emittedAll, h]
  rfl

theorem emittedAll_append (h : Run step s es t) :
    emittedAll step emit s (es ++ fs) = emittedAll step emit s es ++ emittedAll step emit t fs := by
  induction es generalizing s with
  | nil =>
    obtain rfl := Run.nil_iff.mp h
    rfl
  | cons e es ih =>
    obtain ⟨u, hu, ht⟩ := Run.cons_iff.mp h
    rw [List.cons_append, emittedAll_cons hu, emittedAll_cons hu, ih ht, List.append_assoc]

theorem mem_emittedAll {a : φ} (h : a ∈ emittedAll step emit s es) :
    ∃ t, ∃ e ∈ es, a ∈ emit t e := by
  induction es generalizing s with
  | nil => cases h
  | cons e es ih =>
    rw [emittedAll, List.mem_append] at h
    rcases h with h | h
    · exact ⟨s, e, List.mem_cons_self, h⟩
    · cases hs : step s e with
      | none =>
        rw [hs] at h
        cases h
      | some t =>
        rw [hs] at h
        obtain ⟨u, d, hd, hu⟩ := ih h
        exact ⟨u, d, List.mem_cons_of_mem _ hd, hu⟩

/-- When each step is what the second machine does along the events that are made for it, each run
is a run of the second machine along all of them. -/
theorem Run.stutters
    (hsim : ∀ s b e t, R s b → step s e = some t → ∃ c, Run step' b (emit s e) c ∧ R t c)
    (h : R s b) (hr : Run step s es t) :
    ∃ c, Run step' b (emittedAll step emit s es) c ∧ R t c := by
  induction es generalizing s b with
  | nil =>
    obtain rfl := Run.nil_iff.mp hr
    exact ⟨b, Run.nil_iff.mpr rfl, h⟩
  | cons e es ih =>
    obtain ⟨u, hu, ht⟩ := Run.cons_iff.mp hr
    obtain ⟨c, hc, hrel⟩ := hsim s b e u h hu
    obtain ⟨d, hd, hrel'⟩ := ih hrel ht
    refine ⟨d, ?_, hrel'⟩
    rw [emittedAll_cons hu]
    exact Run.append_iff.mpr ⟨c, hc, hd⟩

theorem emitted_eq (step : σ → ε → Option σ) (pop : σ → ε → Option φ) (s : σ) (es : List ε) :
    emitted step pop s es = emittedAll step (fun s e => (pop s e).toList) s es := by
  induction es generalizing s with
  | nil => rfl
  | cons e es ih =>
    rw [emitted, emittedAll]
    cases step s e with
    | none => rfl
    | some t => exact congrArg _ (ih t)

theorem emitted_cons {pop : σ → ε → Option φ} (h : step s e = some t) :
    emitted step pop s (e :: es) = (pop s e).toList ++ emitted step pop t es := by
  rw [emitted_eq, emitted_eq, emittedAll_cons h]

theorem emitted_append {pop : σ → ε → Option φ} (h : Run step s es t) :
    emitted step pop s (es ++ fs) = emitted step pop s es ++ emitted step pop t fs := by
  rw [emitted_eq, emitted_eq, emitted_eq, emittedAll_append h]

end Stuttering

section Queues

variable {step : σ → ε → Option σ} {ok : σ → ε → Prop} {push pop : σ → ε → Option α} {s t : σ}
  {es : List ε}

theorem StepsMeet.of_suffix (h : StepsMeet step ok s (es ++ fs)) (hr : Run step s es t) :
    StepsMeet step ok t fs := by
  intro pre e u hp hu
  apply h (es ++ pre) e u
  · rw [List.append_assoc]
    exact (List.prefix_append_right_inj es).mpr hp
  · exact Run.append_iff.mpr ⟨t, hr, hu⟩

/-- Where each step adds to a queue at the back and takes from it at the front, what left the queue
is, in order, the first of what was in it and of what came. -/
theorem Run.queue {Q : σ → List α → Prop} {xs : List α} (hr : Run step s es t)
    (hok : StepsMeet step ok s es) (hs : Q s xs)
    (hstep : ∀ s xs e t, Q s xs → ok s e → step s e = some t →
      ∃ ys, Q t ys ∧ xs ++ (push s e).toList = (pop s e).toList ++ ys) :
    ∃ ys, Q t ys ∧ xs ++ emitted step push s es = emitted step pop s es ++ ys := by
  induction es generalizing s xs with
  | nil =>
    obtain rfl := Run.nil_iff.mp hr
    exact ⟨xs, hs, List.append_nil xs⟩
  | cons e es ih =>
    obtain ⟨u, hu, hr⟩ := Run.cons_iff.mp hr
    obtain ⟨ys, hys, hfirst⟩ := hstep s xs e u hs hok.head hu
    obtain ⟨zs, hzs, hrest⟩ := ih hr (hok.tail hu) hys
    refine ⟨zs, hzs, ?_⟩
    rw [emitted_cons hu, emitted_cons hu, ← List.append_assoc, hfirst, List.append_assoc, hrest,
      List.append_assoc]

/-- What comes to hold of a thing when it is emitted, and lasts, holds of all that was emitted. -/
theorem Run.of_emitted {I : σ → Prop} {P : σ → α → Prop} (hr : Run step s es t)
    (hok : StepsMeet step ok s es) (hs : I s)
    (hstep : ∀ s e t, I s → ok s e → step s e = some t → I t)
    (hlasts : ∀ s e t a, I s → step s e = some t → P s a ∨ pop s e = some a → P t a)
    (ha : a ∈ emitted step pop s es) : P t a := by
  have hP : ∀ es s, I s → StepsMeet step ok s es → Run step s es t →
      P s a ∨ a ∈ emitted step pop s es → P t a := by
    intro es
    induction es with
    | nil =>
      intro s _ _ hr h
      obtain rfl := Run.nil_iff.mp hr
      exact h.resolve_right List.not_mem_nil
    | cons e es ih =>
      intro s hs hok hr h
      obtain ⟨u, hu, hr⟩ := Run.cons_iff.mp hr
      apply ih u (hstep s e u hs hok.head hu) (hok.tail hu) hr
      rw [emitted_cons hu, List.mem_append, Option.mem_toList] at h
      rcases h with h | h | h
      · exact .inl (hlasts s e u a hs hu (.inl h))
      · exact .inl (hlasts s e u a hs hu (.inr h))
      · exact .inr h
  exact hP es s hs hok hr (.inr ha)

theorem not_mem_emitted {I : σ → Prop} {a : α} (hok : StepsMeet step ok s es) (hs : I s)
    (hstep : ∀ s e t, I s → ok s e → step s e = some t → I t)
    (hnot : ∀ s e, I s → pop s e ≠ some a) : a ∉ emitted step pop s es := by
  induction es generalizing s with
  | nil => exact List.not_mem_nil
  | cons e es ih =>
    rw [emitted, List.mem_append, Option.mem_toList, not_or]
    refine ⟨hnot s e hs, ?_⟩
    cases hu : step s e with
    | none => exact List.not_mem_nil
    | some u => exact ih (hok.tail hu) (hstep s e u hs hok.head hu)

theorem emitted_nodup {I : σ → Prop} {P : σ → α → Prop} (hok : StepsMeet step ok s es) (hs : I s)
    (hstep : ∀ s e t, I s → ok s e → step s e = some t → I t)
    (hlasts : ∀ s e t a, I s → ok s e → step s e = some t → P s a ∨ pop s e = some a → P t a)
    (hnot : ∀ s e a, I s → P s a → pop s e ≠ some a) : (emitted step pop s es).Nodup := by
  induction es generalizing s with
  | nil => exact List.nodup_nil
  | cons e es ih =>
    have hrest : ((step s e).elim [] fun t => emitted step pop t es).Nodup := by
      cases hu : step s e with
      | none => exact List.nodup_nil
      | some u => exact ih (hok.tail hu) (hstep s e u hs hok.head hu)
    rw [emitted]
    cases ha : pop s e with
    | none => exact hrest
    | some a =>
      refine List.nodup_cons.mpr ⟨?_, hrest⟩
      cases hu : step s e with
      | none => exact List.not_mem_nil
      | some u =>
        have hu' : I u ∧ P u a :=
          ⟨hstep s e u hs hok.head hu, hlasts s e u a hs hok.head hu (.inr ha)⟩
        apply not_mem_emitted (I := fun s => I s ∧ P s a) (hok.tail hu) hu'
        · intro s e t hs hok hst
          exact ⟨hstep s e t hs.1 hok hst, hlasts s e t a hs.1 hok hst (.inl hs.2)⟩
        · exact fun s e hs => hnot s e a hs.1 hs.2

end Queues

section Tests

/-- Whether the events pass a test, each in the state in which it is taken. -/
def passes (step : σ → ε → Option σ) (test : σ → ε → Bool) : σ → List ε → Bool
  | _, [] => true
  | s, e :: es => test s e && (step s e).all fun t => passes step test t es

theorem StepsMeet.of_passes {step : σ → ε → Option σ} {test : σ → ε → Bool} {ok : σ → ε → Prop}
    (himp : ∀ s e, test s e = true → ok s e) {s : σ} {es : List ε}
    (h : passes step test s es = true) : StepsMeet step ok s es := by
  induction es generalizing s with
  | nil => exact .nil step ok s
  | cons e es ih =>
    obtain ⟨htest, hrest⟩ := (Bool.and_eq_true _ _).mp h
    refine .cons (himp s e htest) fun t ht => ih ?_
    rwa [ht] at hrest

end Tests

end Aiqb
