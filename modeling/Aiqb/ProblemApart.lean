import Aiqb.ProblemBook
import Mathlib.Data.List.Perm.Basic
import Mathlib.Data.List.ReduceOption

namespace Aiqb
set_option autoImplicit true

theorem reduceOption_erase (l : List (Option Ptr)) (p : Ptr) :
    (l.erase (some p)).reduceOption = l.reduceOption.erase p := by
  induction l with
  | nil => rfl
  | cons o l ih =>
    cases o with
    | none =>
      rw [List.erase_cons_tail (by simp), List.reduceOption_cons_of_none,
        List.reduceOption_cons_of_none, ih]
    | some q =>
      by_cases hq : q = p
      · rw [hq, List.erase_cons_head, List.reduceOption_cons_of_some, List.erase_cons_head]
      · rw [List.erase_cons_tail (by simpa using hq), List.reduceOption_cons_of_some, ih,
          List.reduceOption_cons_of_some, List.erase_cons_tail (by simpa using hq)]

theorem reduceOption_erase_none (l : List (Option Ptr)) :
    (l.erase none).reduceOption = l.reduceOption := by
  induction l with
  | nil => rfl
  | cons o l ih =>
    cases o with
    | none => rw [List.erase_cons_head, List.reduceOption_cons_of_none]
    | some q =>
      rw [List.erase_cons_tail (by simp), List.reduceOption_cons_of_some, ih,
        List.reduceOption_cons_of_some]

namespace ProblemBook

def held (b : ProblemBook) : List Ptr :=
  b.dispatcher.held ++ b.registering ++ b.returning.reduceOption

def places (b : ProblemBook) : List Ptr := b.problems ++ b.problemQueue ++ b.held

/-- No atom is in two places. -/
structure Apart (b : ProblemBook) : Prop where
  nodup : b.places.Nodup
  live : ∀ p ∈ b.places, ∃ a, b.val p = some a

variable {b b' : ProblemBook} {p : Ptr} {e : ProblemEvent} {a : FsdbT}

theorem Apart.held_live (h : b.Apart) (hp : p ∈ b.held) : ∃ a, b.val p = some a :=
  h.live p (List.mem_append_right _ hp)

theorem Apart.notMem_problems (h : b.Apart) (hp : p ∈ b.held) : p ∉ b.problems :=
  fun hm => List.disjoint_of_nodup_append h.nodup (List.mem_append_left _ hm) hp

theorem Apart.notMem_queue (h : b.Apart) (hp : p ∈ b.held) : p ∉ b.problemQueue :=
  fun hm => List.disjoint_of_nodup_append h.nodup (List.mem_append_right _ hm) hp

theorem mem_held_dispatcher (hp : p ∈ b.dispatcher.held) : p ∈ b.held :=
  List.mem_append_left _ (List.mem_append_left _ hp)

structure DispatcherApart (b : ProblemBook) : Prop where
  live : ∀ p ∈ b.dispatcher.held, ∃ a, b.val p = some a
  notMem_problems : ∀ p ∈ b.dispatcher.held, p ∉ b.problems
  notMem_queue : ∀ p ∈ b.dispatcher.held, p ∉ b.problemQueue

theorem Apart.dispatcher (h : b.Apart) : b.DispatcherApart where
  live _ hp := h.held_live (mem_held_dispatcher hp)
  notMem_problems _ hp := h.notMem_problems (mem_held_dispatcher hp)
  notMem_queue _ hp := h.notMem_queue (mem_held_dispatcher hp)

theorem mem_held_registering (hp : p ∈ b.registering) : p ∈ b.held :=
  List.mem_append_left _ (List.mem_append_right _ hp)

theorem mem_held_returning (hp : some p ∈ b.returning) : p ∈ b.held :=
  List.mem_append_right _ (List.reduceOption_mem_iff.mpr hp)

theorem setStatus_other {a : FsdbT} (status : UInt8) {q : Ptr} (hq : q ≠ p) :
    b.setStatus p status a q = b.val q := Function.update_of_ne hq _ _

theorem setStatus_self (b : ProblemBook) (p : Ptr) (status : UInt8) (a : FsdbT) :
    b.setStatus p status a p = some { a with header.status := status } := Function.update_self _ _ _

theorem setStatus_keeps (ha : b.val p = some a) (status : UInt8) {q : Ptr} {c : FsdbT}
    (hq : b.val q = some c) :
    ∃ c', b.setStatus p status a q = some c' ∧ c'.header.id = c.header.id := by
  by_cases he : q = p
  · subst he
    cases ha.symm.trans hq
    exact ⟨_, setStatus_self .., rfl⟩
  · exact ⟨c, (setStatus_other status he).trans hq, rfl⟩

theorem step_val (hs : b.step e = some b') (hp : b.val p = some a) (hsize : p ≠ b.size) :
    ∃ a', b'.val p = some a' ∧ a'.header.id = a.header.id := by
  cases e with
  | register time =>
    cases hs
    exact ⟨a, (Function.update_of_ne hsize _ _).trans hp, rfl⟩
  | insert q =>
    simp only [step, insert, Option.ite_none_right_eq_some, Option.some.injEq] at hs
    exact hs.2 ▸ ⟨a, hp, rfl⟩
  | dispatch =>
    simp only [step, dispatch] at hs
    split at hs
    · split at hs <;> cases hs <;> exact ⟨a, hp, rfl⟩
    · split at hs <;> cases hs <;> exact ⟨a, hp, rfl⟩
    · obtain ⟨c, hc, rfl⟩ := Option.map_eq_some_iff.mp hs
      split
      · exact setStatus_keeps hc statusInProgress hp
      · exact ⟨a, hp, rfl⟩
    · cases hs
      exact ⟨a, hp, rfl⟩
    · cases hs
      exact ⟨a, hp, rfl⟩
  | markSolved q =>
    simp only [step, markSolved, Option.ite_none_right_eq_some] at hs
    obtain ⟨c, hc, rfl⟩ := Option.map_eq_some_iff.mp hs.2
    exact setStatus_keeps hc statusSolved hp
  | takeSolved q =>
    simp only [step, takeSolved, Option.ite_none_right_eq_some] at hs
    obtain ⟨c, hc, rfl⟩ := Option.map_eq_some_iff.mp hs.2
    exact ⟨a, hp, rfl⟩
  | giveBack atom =>
    simp only [step, giveBack, Option.ite_none_right_eq_some, Option.some.injEq] at hs
    exact hs.2 ▸ ⟨a, hp, rfl⟩

theorem register_places (b : ProblemBook) (time : UInt64) :
    (b.register time).places.Perm (b.size :: b.places) := by
  rw [List.perm_iff_count]
  intro q
  simp only [places, held, register, List.count_append, List.count_cons, List.count_nil]
  omega

theorem step_places (hs : b.step e = some b') (he : ∀ time, e ≠ .register time) :
    b'.places.Perm b.places := by
  rw [List.perm_iff_count]
  intro q
  cases e with
  | register time => exact absurd rfl (he time)
  | insert p =>
    simp only [step, insert, Option.ite_none_right_eq_some, Option.some.injEq] at hs
    obtain ⟨hp, rfl⟩ := hs
    have hcount := (List.perm_cons_erase hp).count_eq q
    simp only [places, held, List.count_append, List.count_cons, List.count_nil] at hcount ⊢
    omega
  | dispatch =>
    simp only [step, dispatch] at hs
    cases hd : b.dispatcher with
    | idle =>
      simp only [hd] at hs
      split at hs <;> cases hs <;> simp only [places, held, hd, Dispatcher.held]
    | ready =>
      simp only [hd] at hs
      cases hb : b.problems with
      | nil =>
        simp only [hb] at hs
        cases hs
        simp only [places, held, hd, hb, Dispatcher.held]
      | cons p rest =>
        simp only [hb] at hs
        cases hs
        simp only [places, held, hd, hb, Dispatcher.held, List.count_append, List.count_cons,
          List.count_nil]
        omega
    | holding p =>
      simp only [hd] at hs
      obtain ⟨a, _, rfl⟩ := Option.map_eq_some_iff.mp hs
      split
      · simp only [places, held, hd, Dispatcher.held]
      · simp only [places, held, hd, Dispatcher.held, List.count_append, List.count_cons,
          List.count_nil]
        omega
    | marked p =>
      simp only [hd] at hs
      cases hs
      simp only [places, held, hd, Dispatcher.held, List.count_append, List.count_cons,
        List.count_nil]
      omega
    | queued p =>
      simp only [hd] at hs
      cases hs
      simp only [places, held, hd, Dispatcher.held]
  | markSolved p =>
    simp only [step, markSolved, Option.ite_none_right_eq_some] at hs
    obtain ⟨a, _, rfl⟩ := Option.map_eq_some_iff.mp hs.2
    rfl
  | takeSolved p =>
    simp only [step, takeSolved, Option.ite_none_right_eq_some] at hs
    obtain ⟨a, _, rfl⟩ := Option.map_eq_some_iff.mp hs.2
    cases hl : lookupDb b.val b.problemQueue (some (.byId a.header.id)) with
    | none =>
      simp only [places, held, Option.elim_none, List.reduceOption_append,
        List.reduceOption_singleton, Option.toList_none, List.append_nil]
    | some r =>
      have hcount := (List.perm_cons_erase (lookupDb_mem hl)).count_eq q
      simp only [places, held, Option.elim_some, List.reduceOption_append,
        List.reduceOption_singleton, Option.toList_some, List.count_append, List.count_cons,
        List.count_nil] at hcount ⊢
      omega
  | giveBack atom =>
    simp only [step, giveBack, Option.ite_none_right_eq_some, Option.some.injEq] at hs
    obtain ⟨hp, rfl⟩ := hs
    cases atom with
    | none =>
      simp only [places, held, Option.toList_none, List.append_nil, reduceOption_erase_none]
    | some p =>
      have hmem : p ∈ b.returning.reduceOption := List.reduceOption_mem_iff.mpr hp
      have hcount := (List.perm_cons_erase hmem).count_eq q
      simp only [places, held, Option.toList_some, reduceOption_erase, List.count_append,
        List.count_cons, List.count_nil] at hcount ⊢
      omega

theorem Apart.register (h : b.Apart) (hsize : b.size ∉ b.places) (time : UInt64) :
    (b.register time).Apart where
  nodup := (register_places b time).nodup_iff.mpr (List.nodup_cons.mpr ⟨hsize, h.nodup⟩)
  live p hp := by
    rcases List.mem_cons.mp ((register_places b time).mem_iff.mp hp) with rfl | hp
    · exact ⟨_, Function.update_self _ _ _⟩
    · obtain ⟨a, ha⟩ := h.live p hp
      have hne : p ≠ b.size := fun he => hsize (he ▸ hp)
      exact ⟨a, (Function.update_of_ne hne _ _).trans ha⟩

theorem Apart.step (h : b.Apart) (hsize : b.size ∉ b.places) (hs : b.step e = some b') :
    b'.Apart := by
  by_cases he : ∃ time, e = .register time
  · obtain ⟨time, rfl⟩ := he
    cases hs
    exact h.register hsize time
  · have hperm := step_places hs fun time ht => he ⟨time, ht⟩
    refine ⟨hperm.nodup_iff.mpr h.nodup, ?_⟩
    intro p hp
    have hp' := hperm.mem_iff.mp hp
    obtain ⟨a, ha⟩ := h.live p hp'
    obtain ⟨a', ha', _⟩ := step_val hs ha fun hz => hsize (hz ▸ hp')
    exact ⟨a', ha'⟩

end ProblemBook

theorem ProblemSide.Keeps.size_notMem {s : ProblemSide} {b : ProblemBook} (hk : s.Keeps b)
    (h : b.Apart) : b.size ∉ b.places := by
  intro hp
  obtain ⟨a, ha⟩ := h.live _ hp
  rw [← hk.val, ← hk.size] at ha
  exact s.heap.size_not_live (Heap.live_of_val ha)

end Aiqb
