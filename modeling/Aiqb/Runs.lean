import Mathlib.Data.List.Infix
import Mathlib.Logic.Function.Iterate

namespace Aiqb
set_option autoImplicit true

/-- A partial step function takes `s` to `t` along the events `es`. -/
def Run (step : σ → ε → Option σ) (s : σ) (es : List ε) (t : σ) : Prop :=
  es.foldlM step s = some t

instance [DecidableEq σ] (step : σ → ε → Option σ) (s t : σ) (es : List ε) :
    Decidable (Run step s es t) :=
  inferInstanceAs (Decidable (_ = _))

@[simp] theorem Run.nil_iff : Run step s [] t ↔ s = t := by
  simp only [Run, List.foldlM_nil, Option.pure_def, Option.some.injEq]

theorem Run.cons_iff : Run step s (e :: es) u ↔ ∃ t, step s e = some t ∧ Run step t es u := by
  simp only [Run, List.foldlM_cons, Option.bind_eq_bind, Option.bind_eq_some_iff]

theorem Run.append_iff :
    Run step s (es ++ fs) u ↔ ∃ t, Run step s es t ∧ Run step t fs u := by
  simp only [Run, List.foldlM_append, Option.bind_eq_bind, Option.bind_eq_some_iff]

theorem Run.snoc_iff :
    Run step s (es ++ [e]) u ↔ ∃ t, Run step s es t ∧ step t e = some u := by
  rw [Run.append_iff]
  simp only [Run, List.foldlM_cons, List.foldlM_nil, Option.bind_eq_bind, Option.pure_def,
    Option.bind_fun_some]

/-- Where the steps that can be taken do not depend on the state, there is a run when each event
allows its step. -/
theorem Run.exists_iff {step : σ → ε → Option σ} {allowed : ε → Prop}
    (h : ∀ s e, (step s e).isSome ↔ allowed e) (s : σ) (es : List ε) :
    (∃ t, Run step s es t) ↔ ∀ e ∈ es, allowed e := by
  induction es generalizing s with
  | nil => exact iff_of_true ⟨s, Run.nil_iff.mpr rfl⟩ fun _ he => nomatch he
  | cons e es ih =>
    rw [List.forall_mem_cons, ← h s e]
    constructor
    · rintro ⟨t, hr⟩
      obtain ⟨u, hu, hr⟩ := Run.cons_iff.mp hr
      exact ⟨Option.isSome_of_mem hu, (ih u).mp ⟨t, hr⟩⟩
    · rintro ⟨hsome, hall⟩
      obtain ⟨u, hu⟩ := Option.isSome_iff_exists.mp hsome
      obtain ⟨t, hr⟩ := (ih u).mpr hall
      exact ⟨t, Run.cons_iff.mpr ⟨u, hu, hr⟩⟩

theorem Run.unique (h : Run step s es t) (h' : Run step s es u) : t = u :=
  Option.some.inj (h.symm.trans h')

theorem Run.prefix_run (h : Run step s es u) (hp : pre <+: es) : ∃ t, Run step s pre t := by
  obtain ⟨suf, rfl⟩ := hp
  obtain ⟨t, ht, _⟩ := Run.append_iff.mp h
  exact ⟨t, ht⟩

/-- Each event of `es` is taken in a state that allows it. -/
def StepsMeet (step : σ → ε → Option σ) (ok : σ → ε → Prop) (s : σ) (es : List ε) : Prop :=
  ∀ pre e t, pre ++ [e] <+: es → Run step s pre t → ok t e

/-- Each state passed on the way along `es` has the property. -/
def AllReached (step : σ → ε → Option σ) (P : σ → Prop) (s : σ) (es : List ε) : Prop :=
  ∀ pre t, pre <+: es → Run step s pre t → P t

theorem StepsMeet.of_prefix (h : StepsMeet step ok s es) (hp : pre <+: es) :
    StepsMeet step ok s pre :=
  fun _ _ _ hq => h _ _ _ (hq.trans hp)

theorem StepsMeet.imp (h : StepsMeet step ok s es)
    (himp : ∀ t e, ok t e → ok' t e) : StepsMeet step ok' s es :=
  fun _ _ _ hp hr => himp _ _ (h _ _ _ hp hr)

theorem StepsMeet.congr (h : ∀ pre e t, Run step s pre t → (ok t e ↔ ok' t e)) :
    StepsMeet step ok s es ↔ StepsMeet step ok' s es := by
  constructor
  · exact fun hok pre e t hp hr => (h pre e t hr).mp (hok pre e t hp hr)
  · exact fun hok pre e t hp hr => (h pre e t hr).mpr (hok pre e t hp hr)

theorem StepsMeet.nil (step : σ → ε → Option σ) (ok : σ → ε → Prop) (s : σ) :
    StepsMeet step ok s [] := by
  intro pre e t hp
  cases List.append_eq_nil_iff.mp (List.prefix_nil.mp hp) with
  | intro _ he => cases he

theorem StepsMeet.cons (h : ok s e) (ht : ∀ t, step s e = some t → StepsMeet step ok t es) :
    StepsMeet step ok s (e :: es) := by
  intro pre e' u hp hr
  cases pre with
  | nil =>
    rw [List.nil_append, List.cons_prefix_cons] at hp
    rw [Run.nil_iff] at hr
    exact hp.1 ▸ hr ▸ h
  | cons d pre =>
    rw [List.cons_append, List.cons_prefix_cons] at hp
    obtain ⟨t, hs, hr⟩ := Run.cons_iff.mp hr
    rw [hp.1] at hs
    exact ht t hs pre e' u hp.2 hr

theorem StepsMeet.head (h : StepsMeet step ok s (e :: es)) : ok s e :=
  h [] e s ⟨es, rfl⟩ (Run.nil_iff.mpr rfl)

theorem StepsMeet.tail (h : StepsMeet step ok s (e :: es)) (hs : step s e = some t) :
    StepsMeet step ok t es := by
  intro pre d u hp hr
  apply h (e :: pre) d u
  · rw [List.cons_append, List.cons_prefix_cons]
    exact ⟨rfl, hp⟩
  · exact Run.cons_iff.mpr ⟨t, hs, hr⟩

/-- Two machines run along when each allowed step of the first is one of the second too. -/
theorem StepsMeet.simulate {R : σ → τ → Prop} {step : σ → ε → Option σ}
    {step' : τ → ε → Option τ}
    (hsim : ∀ s b e, R s b → ok s e →
      ∃ t c, step s e = some t ∧ step' b e = some c ∧ R t c)
    (hok : StepsMeet step ok s es) (h : R s b) :
    ∃ t c, Run step s es t ∧ Run step' b es c ∧ R t c := by
  induction es generalizing s b with
  | nil => exact ⟨s, b, Run.nil_iff.mpr rfl, Run.nil_iff.mpr rfl, h⟩
  | cons e es ih =>
    obtain ⟨t, c, ht, hc, htc⟩ := hsim s b e h hok.head
    obtain ⟨u, d, hu, hd, hud⟩ := ih (hok.tail ht) htc
    exact ⟨u, d, Run.cons_iff.mpr ⟨t, ht, hu⟩, Run.cons_iff.mpr ⟨c, hc, hd⟩, hud⟩

/-- The invariant rule: what each allowed step preserves, relative to the events so far, holds
at the end of a run whose steps are all allowed. -/
theorem Run.preserves_history {I : List ε → σ → Prop} (hr : Run step s es t)
    (hok : StepsMeet step ok s es) (hinit : I [] s)
    (hstep : ∀ pre t e u, pre ++ [e] <+: es → I pre t → ok t e → step t e = some u →
      I (pre ++ [e]) u) : I es t := by
  induction es using List.reverseRecOn generalizing t with
  | nil =>
    rw [Run.nil_iff] at hr
    exact hr ▸ hinit
  | append_singleton es e ih =>
    obtain ⟨m, hm, he⟩ := Run.snoc_iff.mp hr
    have hpre : es <+: es ++ [e] := List.prefix_append _ _
    have hI : I es m := ih hm (hok.of_prefix hpre)
      (fun pre t e' u hp => hstep pre t e' u (hp.trans hpre))
    exact hstep es m e t (List.prefix_refl _) hI (hok es e m (List.prefix_refl _) hm) he

theorem Run.preserves {I : σ → Prop} (hr : Run step s es t) (hok : StepsMeet step ok s es)
    (hinit : I s) (hstep : ∀ t e u, I t → ok t e → step t e = some u → I u) : I t :=
  hr.preserves_history (I := fun _ => I) hok hinit (fun _ t e u _ => hstep t e u)

theorem StepsMeet.trivial (step : σ → ε → Option σ) (s : σ) (es : List ε) :
    StepsMeet step (fun _ _ => True) s es :=
  fun _ _ _ _ _ => True.intro

theorem Run.invariant {I : σ → Prop} (hr : Run step s es t) (hinit : I s)
    (hstep : ∀ t e u, I t → step t e = some u → I u) : I t :=
  hr.preserves (StepsMeet.trivial _ _ _) hinit (fun t e u hI _ => hstep t e u hI)

/-- Along a run, a property stays true exactly where each step meets the condition under which it
does. -/
theorem Run.allReached_iff {I : σ → Prop} (hr : Run step s es u) (hinit : I s) (hP : P s)
    (hinv : ∀ t e v, I t → step t e = some v → I v)
    (hstep : ∀ t e v, I t → P t → step t e = some v → (P v ↔ ok t e)) :
    AllReached step P s es ↔ StepsMeet step ok s es := by
  constructor
  · intro hall pre e t hp ht
    obtain ⟨v, hv⟩ := hr.prefix_run hp
    obtain ⟨t', ht', he⟩ := Run.snoc_iff.mp hv
    cases ht.unique ht'
    have hpre : P t := hall pre t ((List.prefix_append _ _).trans hp) ht
    exact (hstep t e v (ht.invariant hinit hinv) hpre he).mp (hall _ v hp hv)
  · intro hok pre t hp ht
    have hboth : I t ∧ P t := by
      apply ht.preserves (hok.of_prefix hp) ⟨hinit, hP⟩
      rintro t e v ⟨hi, hpt⟩ hmeets he
      exact ⟨hinv t e v hi he, (hstep t e v hi hpt he).mpr hmeets⟩
    exact hboth.2

theorem optionRel_bind {R : α → β → Prop} {S : γ → δ → Prop} {x : Option α} {y : Option β}
    {f : α → Option γ} {g : β → Option δ} (h : Option.Rel R x y)
    (hf : ∀ a b, R a b → Option.Rel S (f a) (g b)) : Option.Rel S (x.bind f) (y.bind g) := by
  cases h with
  | none => exact .none
  | some hab => exact hf _ _ hab

theorem optionRel_imp {R S : α → β → Prop} {x : Option α} {y : Option β}
    (h : Option.Rel R x y) (himp : ∀ a b, R a b → S a b) : Option.Rel S x y := by
  cases h with
  | none => exact .none
  | some hab => exact .some (himp _ _ hab)

theorem optionRel_left {R : α → β → Prop} {x : Option α} {y : Option β} (h : Option.Rel R x y)
    (hx : x = some a) : ∃ b, y = some b ∧ R a b := by
  cases h with
  | none => cases hx
  | some hab =>
    cases hx
    exact ⟨_, rfl, hab⟩

theorem optionRel_right {R : α → β → Prop} {x : Option α} {y : Option β} (h : Option.Rel R x y)
    (hy : y = some b) : ∃ a, x = some a ∧ R a b := by
  cases h with
  | none => cases hy
  | some hab =>
    cases hy
    exact ⟨_, rfl, hab⟩

/-- A simulation of single steps is a simulation of runs. -/
theorem Run.simulate {R : σ → τ → Prop} {step : σ → ε → Option σ} {step' : τ → ε → Option τ}
    (hsim : ∀ s b e, R s b → Option.Rel R (step s e) (step' b e)) (h : R s b) (es : List ε) :
    Option.Rel R (es.foldlM step s) (es.foldlM step' b) := by
  induction es generalizing s b with
  | nil => exact .some h
  | cons e es ih =>
    rw [List.foldlM_cons, List.foldlM_cons]
    have hrel := hsim s b e h
    generalize step s e = o at hrel
    generalize step' b e = o' at hrel
    cases hrel with
    | none => exact .none
    | some hd => exact ih hd

theorem Run.related {R : σ → τ → Prop} {step : σ → ε → Option σ} {step' : τ → ε → Option τ}
    (hsim : ∀ s b e, R s b → Option.Rel R (step s e) (step' b e)) (h : R s b)
    (hr : Run step s es t) : ∃ c, Run step' b es c ∧ R t c :=
  optionRel_left (Run.simulate hsim h es) hr

theorem Run.realized {R : σ → τ → Prop} {step : σ → ε → Option σ} {step' : τ → ε → Option τ}
    (hsim : ∀ s b e, R s b → Option.Rel R (step s e) (step' b e)) (h : R s b)
    (hr : Run step' b es c) : ∃ t, Run step s es t ∧ R t c :=
  optionRel_right (Run.simulate hsim h es) hr

def Throughout (P : List ε → ε → Prop) (es : List ε) : Prop := ∀ pre e, pre ++ [e] <+: es → P pre e

theorem Throughout.nil (P : List ε → ε → Prop) : Throughout P [] := by
  intro pre e hp
  cases List.append_eq_nil_iff.mp (List.prefix_nil.mp hp) with
  | intro _ he => cases he

theorem Throughout.snoc (h : Throughout P es) (he : P es e) : Throughout P (es ++ [e]) := by
  intro pre d hp
  rcases List.prefix_concat_iff.mp hp with heq | hp
  · obtain ⟨rfl, hd⟩ := List.append_inj' heq rfl
    cases hd
    exact he
  · exact h pre d hp

theorem Throughout.init (h : Throughout P (es ++ [e])) : Throughout P es :=
  fun pre d hp => h pre d (hp.trans (List.prefix_append es [e]))

theorem Throughout.last (h : Throughout P (es ++ [e])) : P es e := h es e List.prefix_rfl

theorem Throughout.of_mem (h : Throughout P es) (he : e ∈ es) :
    ∃ pre, pre ++ [e] <+: es ∧ P pre e := by
  obtain ⟨pre, post, rfl⟩ := List.append_of_mem he
  have hp : pre ++ [e] <+: pre ++ e :: post := ⟨post, List.append_assoc pre [e] post⟩
  exact ⟨pre, hp, h pre e hp⟩

theorem AllReached.of_run (h : AllReached step P s es) (hr : Run step s es t) : P t :=
  h es t (List.prefix_refl _) hr

/-- What the allowed steps keep holds in every state reached by them. -/
theorem StepsMeet.allReached {I P : σ → Prop} (hok : StepsMeet step ok s es) (hinit : I s)
    (hstep : ∀ t e u, I t → ok t e → step t e = some u → I u) (himp : ∀ t, I t → P t) :
    AllReached step P s es := by
  intro pre t hp ht
  exact himp t (ht.preserves (hok.of_prefix hp) hinit hstep)

/-- Two machines that take each event together. -/
def sideBySide {σ τ : Type u} (step : σ → ε → Option σ) (step' : τ → ε → Option τ) (s : σ × τ)
    (e : ε) : Option (σ × τ) := do
  let t ← step s.1 e
  let t' ← step' s.2 e
  some (t, t')

theorem sideBySide_iff : sideBySide step step' s e = some t ↔
    step s.1 e = some t.1 ∧ step' s.2 e = some t.2 := by
  simp only [sideBySide, Option.bind_eq_bind, Option.bind_eq_some_iff, Option.some.injEq]
  constructor
  · rintro ⟨u, hu, u', hu', rfl⟩
    exact ⟨hu, hu'⟩
  · exact fun ⟨h, h'⟩ => ⟨t.1, h, t.2, h', rfl⟩

theorem Run.sideBySide_iff : Run (sideBySide step step') s es t ↔
    Run step s.1 es t.1 ∧ Run step' s.2 es t.2 := by
  induction es generalizing s with
  | nil =>
    simp only [Run.nil_iff]
    exact Prod.ext_iff
  | cons e es ih =>
    simp only [Run.cons_iff, Aiqb.sideBySide_iff, ih]
    constructor
    · rintro ⟨u, ⟨hu, hu'⟩, ht, ht'⟩
      exact ⟨⟨u.1, hu, ht⟩, u.2, hu', ht'⟩
    · rintro ⟨⟨u, hu, ht⟩, u', hu', ht'⟩
      exact ⟨(u, u'), ⟨hu, hu'⟩, ht, ht'⟩

def turns (step : σ → Option σ) : Nat → σ → Option σ
  | 0, s => some s
  | n + 1, s => (step s).bind (turns step n)

theorem turns_related {R : σ → τ → Prop} {step : σ → Option σ} {step' : τ → τ}
    (h : ∀ s t, R s t → ∃ s', step s = some s' ∧ R s' (step' t)) (n : Nat) :
    ∀ {s t}, R s t → ∃ s', turns step n s = some s' ∧ R s' (step'^[n] t) := by
  induction n with
  | zero => exact fun {s _} hr => ⟨s, rfl, hr⟩
  | succ n ih =>
    intro s t hr
    obtain ⟨s₁, e₁, hr₁⟩ := h s t hr
    obtain ⟨s', e', hr'⟩ := ih hr₁
    refine ⟨s', ?_, hr'⟩
    rw [turns, e₁, Option.bind_some, e']

end Aiqb
