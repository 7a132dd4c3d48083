import Mathlib.Data.List.Nodup
import Mathlib.Data.List.Lattice
import Mathlib.Logic.Function.Basic

set_option autoImplicit true

/-- Each item is in the list of its phase, once, and in no other list. -/
structure Placed (list : κ → List α) (phase : α → Option κ) : Prop where
  nodup : ∀ k, (list k).Nodup
  mem : ∀ k x, x ∈ list k ↔ phase x = some k

namespace Placed

variable {list list' : κ → List α} {phase : α → Option κ} {x : α} {j k : κ}

theorem ne_of_phase (h : Placed list phase) (hx : x ∈ list k) (hjk : j ≠ k) :
    x ∉ list j := by
  intro hj
  rw [h.mem] at hx hj
  exact hjk (Option.some.inj (hj.symm.trans hx))

theorem mem_flatMap (h : Placed list phase) (ks : List κ) :
    x ∈ ks.flatMap list ↔ ∃ k ∈ ks, phase x = some k := by
  simp only [List.mem_flatMap, h.mem]

theorem flatMap_nodup (h : Placed list phase) {ks : List κ} (hks : ks.Nodup) :
    (ks.flatMap list).Nodup := by
  rw [List.nodup_flatMap]
  refine ⟨fun k _ => h.nodup k, hks.imp ?_⟩
  intro j k hjk x hj hk
  rw [h.mem] at hj hk
  exact hjk (Option.some.inj (hj.symm.trans hk))

variable [DecidableEq α]

theorem enter (h : Placed list phase) (hx : phase x = none) (hto : list' k = list k ++ [x])
    (hsame : ∀ i, i ≠ k → list' i = list i) :
    Placed list' (Function.update phase x (some k)) := by
  have hnew (i : κ) : x ∉ list i := by
    intro hi
    rw [h.mem, hx] at hi
    cases hi
  constructor
  · intro i
    by_cases hi : i = k
    · subst hi
      rw [hto, List.nodup_append_comm]
      exact List.nodup_cons.mpr ⟨hnew i, h.nodup i⟩
    · rw [hsame i hi]
      exact h.nodup i
  · intro i y
    by_cases hy : y = x
    · subst hy
      rw [Function.update_self, Option.some.injEq]
      by_cases hi : i = k
      · subst hi
        simp only [hto, List.mem_append, List.mem_singleton, or_true]
      · rw [hsame i hi]
        exact iff_of_false (hnew i) (Ne.symm hi)
    · rw [Function.update_of_ne hy, ← h.mem]
      by_cases hi : i = k
      · subst hi
        simp only [hto, List.mem_append, List.mem_singleton, hy, or_false]
      · rw [hsame i hi]

theorem move (h : Placed list phase) (hx : x ∈ list j) (hjk : j ≠ k)
    (hfrom : list' j = (list j).erase x) (hto : list' k = list k ++ [x])
    (hsame : ∀ i, i ≠ j → i ≠ k → list' i = list i) :
    Placed list' (Function.update phase x (some k)) := by
  have hother (i : κ) (hi : i ≠ j) : x ∉ list i := h.ne_of_phase hx hi
  constructor
  · intro i
    by_cases hk : i = k
    · subst hk
      rw [hto, List.nodup_append_comm]
      exact List.nodup_cons.mpr ⟨hother i (Ne.symm hjk), h.nodup i⟩
    · by_cases hj : i = j
      · subst hj
        rw [hfrom]
        exact (h.nodup i).erase x
      · rw [hsame i hj hk]
        exact h.nodup i
  · intro i y
    by_cases hy : y = x
    · subst hy
      rw [Function.update_self, Option.some.injEq]
      by_cases hk : i = k
      · subst hk
        simp only [hto, List.mem_append, List.mem_singleton, or_true]
      · refine iff_of_false ?_ (Ne.symm hk)
        by_cases hj : i = j
        · subst hj
          rw [hfrom]
          exact (h.nodup i).not_mem_erase
        · rw [hsame i hj hk]
          exact hother i hj
    · rw [Function.update_of_ne hy, ← h.mem]
      by_cases hk : i = k
      · subst hk
        simp only [hto, List.mem_append, List.mem_singleton, hy, or_false]
      · by_cases hj : i = j
        · subst hj
          rw [hfrom, List.mem_erase_of_ne hy]
        · rw [hsame i hj hk]

end Placed
