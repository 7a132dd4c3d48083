import Mathlib.Data.Nat.Init

set_option autoImplicit true

namespace Loops

/-- What a computation with loops comes to under a bound on their turns. -/
inductive Outcome (α : Type) where
  | finished (a : α)
  | undefined
  | unfinished
  deriving DecidableEq

def Outcome.bind : Outcome α → (α → Outcome β) → Outcome β
  | finished a, f => f a
  | undefined, _ => undefined
  | unfinished, _ => unfinished

theorem Outcome.bind_finished (o : Outcome α) : o.bind .finished = o := by
  cases o <;> rfl

def Outcome.ofOption : Option α → Outcome α
  | some a => finished a
  | none => undefined

/-- `while (cond) body`, where a turn may contain loops itself. -/
def whileLoop (cond : σ → Bool) (body : Nat → σ → Outcome σ) : Nat → σ → Outcome σ
  | 0, _ => .unfinished
  | n + 1, s => if cond s then (body n s).bind (whileLoop cond body n) else .finished s

/-- From some bound on, the outcome is the same. -/
def Settles (f : Nat → Outcome α) (o : Outcome α) : Prop := ∃ bound, ∀ n, bound ≤ n → f n = o

namespace Settles

theorem const (o : Outcome α) : Settles (fun _ => o) o := ⟨0, fun _ _ => rfl⟩

theorem unique (h : Settles f o) (h' : Settles f o') : o = o' := by
  obtain ⟨b, hb⟩ := h
  obtain ⟨b', hb'⟩ := h'
  rw [← hb (max b b') (Nat.le_max_left b b'), hb' (max b b') (Nat.le_max_right b b')]

theorem congr (h : Settles f o) (hf : ∀ n, f n = g n) : Settles g o := by
  obtain ⟨b, hb⟩ := h
  exact ⟨b, fun n hn => (hf n).symm.trans (hb n hn)⟩

theorem succ (h : Settles f o) (hf : ∀ n, g (n + 1) = f n) : Settles g o := by
  obtain ⟨b, hb⟩ := h
  refine ⟨b + 1, ?_⟩
  intro n hn
  cases n with
  | zero => exact absurd hn (Nat.not_succ_le_zero b)
  | succ n => rw [hf, hb n (Nat.le_of_succ_le_succ hn)]

theorem bind {f : Nat → Outcome α} {g : Nat → α → Outcome β} (h : Settles f (.finished a))
    (hg : Settles (fun n => g n a) o) : Settles (fun n => (f n).bind (g n)) o := by
  obtain ⟨b, hb⟩ := h
  obtain ⟨b', hb'⟩ := hg
  refine ⟨max b b', ?_⟩
  intro n hn
  dsimp only
  rw [hb n (Nat.le_trans (Nat.le_max_left b b') hn)]
  exact hb' n (Nat.le_trans (Nat.le_max_right b b') hn)

theorem map {f : Nat → Outcome α} (h : Settles f (.finished a)) (g : α → β) :
    Settles (fun n => (f n).bind fun a => .finished (g a)) (.finished (g a)) :=
  h.bind (.const _)

theorem bind_undefined {f : Nat → Outcome α} (g : Nat → α → Outcome β)
    (h : Settles f .undefined) : Settles (fun n => (f n).bind (g n)) .undefined := by
  obtain ⟨b, hb⟩ := h
  refine ⟨b, ?_⟩
  intro n hn
  dsimp only
  rw [hb n hn]
  rfl

end Settles

section While

variable {σ : Type} {cond : σ → Bool} {body : Nat → σ → Outcome σ} {s t : σ} {o : Outcome σ}

theorem settles_stop (hc : cond s = false) :
    Settles (fun n => whileLoop cond body n s) (.finished s) := by
  apply Settles.succ (.const _)
  intro n
  rw [whileLoop, hc]
  rfl

theorem settles_turn (hc : cond s = true) (hb : Settles (fun n => body n s) (.finished t))
    (ht : Settles (fun n => whileLoop cond body n t) o) :
    Settles (fun n => whileLoop cond body n s) o := by
  apply Settles.succ (hb.bind ht)
  intro n
  rw [whileLoop, if_pos hc]

theorem settles_undefined (hc : cond s = true) (hb : Settles (fun n => body n s) .undefined) :
    Settles (fun n => whileLoop cond body n s) .undefined := by
  apply Settles.succ (hb.bind_undefined (whileLoop cond body))
  intro n
  rw [whileLoop, if_pos hc]

/-- What the turns of a loop take from one number to the next is reached for every number up to the
bound, and the loop goes on from there. -/
theorem settles_reach {I : Nat → σ → Prop} {last : Nat}
    (hcond : ∀ k s, k < last → I k s → cond s = true)
    (hbody : ∀ k s, k < last → I k s →
      ∃ t, Settles (fun n => body n s) (.finished t) ∧ I (k + 1) t)
    (h : I 0 s) : ∀ k ≤ last, ∃ t, I k t ∧
      ∀ o, Settles (fun n => whileLoop cond body n t) o →
        Settles (fun n => whileLoop cond body n s) o := by
  intro k
  induction k with
  | zero => exact fun _ => ⟨s, h, fun _ ho => ho⟩
  | succ k ih =>
    intro hk
    obtain ⟨m, hm, hback⟩ := ih (Nat.le_of_succ_le hk)
    obtain ⟨t, ht, hnext⟩ := hbody k m hk hm
    exact ⟨t, hnext, fun o ho => hback o (settles_turn (hcond k m hk hm) ht ho)⟩

end While

section For

variable {σ : Type} {cond : σ → Bool} {next : σ → σ} {body : Nat → σ → Outcome σ} {s : σ}

def forLoop (cond : σ → Bool) (next : σ → σ) (body : Nat → σ → Outcome σ) :
    Nat → σ → Outcome σ :=
  whileLoop cond fun n s => (body n s).bind fun s => .finished (next s)

variable {I : Nat → σ → Prop} {last : Nat}

theorem for_reach (hcond : ∀ k s, k < last → I k s → cond s = true)
    (hbody : ∀ k s, k < last → I k s →
      ∃ t, Settles (fun n => body n s) (.finished t) ∧ I (k + 1) (next t))
    (h : I 0 s) : ∀ k ≤ last, ∃ t, I k t ∧
      ∀ o, Settles (fun n => forLoop cond next body n t) o →
        Settles (fun n => forLoop cond next body n s) o := by
  apply settles_reach hcond _ h
  intro k s hk hs
  obtain ⟨t, ht, hnext⟩ := hbody k s hk hs
  exact ⟨next t, ht.map next, hnext⟩

/-- The rule for a loop that counts up to a bound. -/
theorem settles_for (hcond : ∀ k s, I k s → (cond s = true ↔ k < last))
    (hbody : ∀ k s, k < last → I k s →
      ∃ t, Settles (fun n => body n s) (.finished t) ∧ I (k + 1) (next t))
    (h : I 0 s) :
    ∃ t, Settles (fun n => forLoop cond next body n s) (.finished t) ∧ I last t := by
  obtain ⟨t, ht, hback⟩ := for_reach (fun k s hk hs => (hcond k s hs).mpr hk) hbody h last
    (Nat.le_refl last)
  have hstop : cond t = false := by
    rw [Bool.eq_false_iff, ne_eq, hcond last t ht]
    exact Nat.lt_irrefl last
  exact ⟨t, hback _ (settles_stop hstop), ht⟩

theorem for_undefined (bad : Nat) (hcond : ∀ k s, k ≤ bad → I k s → cond s = true)
    (hbody : ∀ k s, k < bad → I k s →
      ∃ t, Settles (fun n => body n s) (.finished t) ∧ I (k + 1) (next t))
    (hbad : ∀ s, I bad s → Settles (fun n => body n s) .undefined) (h : I 0 s) :
    Settles (fun n => forLoop cond next body n s) .undefined := by
  obtain ⟨t, ht, hback⟩ :=
    for_reach (fun k s hk hs => hcond k s (Nat.le_of_lt hk) hs) hbody h bad (Nat.le_refl bad)
  apply hback
  apply settles_undefined (hcond bad t (Nat.le_refl bad) ht)
  exact (hbad t ht).bind_undefined _

theorem for_once {t : σ} (hc : cond s = true) (hb : Settles (fun n => body n s) (.finished t))
    (hstop : cond (next t) = false) :
    Settles (fun n => forLoop cond next body n s) (.finished (next t)) :=
  settles_turn hc (hb.map next) (settles_stop hstop)

end For

section Counters

variable {σ : Type} {cond : σ → Bool} {next : σ → σ} {body : Nat → σ → Outcome σ} {s : σ}
  {counter : σ → UInt64} {last : UInt64} {I : Nat → σ → Prop}

theorem toNat_succ {i : UInt64} (hi : i.toNat = k) (hk : k < last.toNat) :
    (i + 1).toNat = k + 1 := by
  have hlt := last.toNat_lt
  rw [UInt64.toNat_add, UInt64.toNat_one, hi]
  exact Nat.mod_eq_of_lt (by omega)

/-- The rule for a loop with a machine word as its counter, which its turns leave alone. -/
theorem counter_finished (hcond : ∀ s, cond s = true ↔ counter s < last)
    (hnext : ∀ s, counter (next s) = counter s + 1)
    (hbody : ∀ k s, k < last.toNat → (counter s).toNat = k → I k s →
      ∃ t, Settles (fun n => body n s) (.finished t) ∧ counter t = counter s ∧ I (k + 1) (next t))
    (h0 : counter s = 0) (h : I 0 s) :
    ∃ t, Settles (fun n => forLoop cond next body n s) (.finished t) ∧ counter t = last ∧
      I last.toNat t := by
  have hfor : ∃ t, Settles (fun n => forLoop cond next body n s) (.finished t) ∧
      (counter t).toNat = last.toNat ∧ I last.toNat t := by
    apply settles_for (I := fun k s => (counter s).toNat = k ∧ I k s)
    · rintro k s ⟨hk, _⟩
      rw [hcond, UInt64.lt_iff_toNat_lt, hk]
    · rintro k s hlt ⟨hk, hs⟩
      obtain ⟨t, ht, hsame, hnew⟩ := hbody k s hlt hk hs
      refine ⟨t, ht, ?_, hnew⟩
      rw [hnext, hsame]
      exact toNat_succ hk hlt
    · exact ⟨congrArg UInt64.toNat h0, h⟩
  obtain ⟨t, ht, hlast, hI⟩ := hfor
  exact ⟨t, ht, UInt64.toNat_inj.mp hlast, hI⟩

theorem counter_undefined (bad : Nat) (hcond : ∀ s, cond s = true ↔ counter s < last)
    (hnext : ∀ s, counter (next s) = counter s + 1)
    (hbody : ∀ k s, k < bad → (counter s).toNat = k → I k s →
      ∃ t, Settles (fun n => body n s) (.finished t) ∧ counter t = counter s ∧ I (k + 1) (next t))
    (hbad : ∀ s, (counter s).toNat = bad → I bad s → Settles (fun n => body n s) .undefined)
    (hlt : bad < last.toNat) (h0 : counter s = 0) (h : I 0 s) :
    Settles (fun n => forLoop cond next body n s) .undefined := by
  apply for_undefined bad (I := fun k s => (counter s).toNat = k ∧ I k s)
  · rintro k s hk ⟨hks, _⟩
    rw [hcond, UInt64.lt_iff_toNat_lt, hks]
    exact Nat.lt_of_le_of_lt hk hlt
  · rintro k s hk ⟨hks, hs⟩
    obtain ⟨t, ht, hsame, hnew⟩ := hbody k s hk hks hs
    refine ⟨t, ht, ?_, hnew⟩
    rw [hnext, hsame]
    exact toNat_succ hks (Nat.lt_trans hk hlt)
  · rintro s ⟨hks, hs⟩
    exact hbad s hks hs
  · exact ⟨congrArg UInt64.toNat h0, h⟩

end Counters

end Loops
