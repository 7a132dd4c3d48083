import Aiqb.Runs
import Mathlib.Order.WellFounded

namespace Aiqb
set_option autoImplicit true

/-- An endless run, through the states `s`, along the events `e`. -/
def Endless (step : σ → ε → Option σ) (s : Nat → σ) (e : Nat → ε) : Prop :=
  ∀ i, step (s i) (e i) = some (s (i + 1))

section Endless

variable {step : σ → ε → Option σ} {ok : σ → ε → Prop} {s : Nat → σ} {e : Nat → ε}

theorem Endless.preserves {I : σ → Prop} (h : Endless step s e) (hok : ∀ i, ok (s i) (e i))
    (hinit : I (s 0)) (hstep : ∀ t f u, I t → ok t f → step t f = some u → I u) (i : Nat) :
    I (s i) := by
  induction i with
  | zero => exact hinit
  | succ i ih => exact hstep _ _ _ ih (hok i) (h i)

end Endless

end Aiqb
