import Aiqb.Runs
import Mathlib.Data.List.Nodup

namespace Aiqb
set_option autoImplicit true

/-- The loop that accepts connections and the client threads it starts, which all hold the address
of the one variable `new_socket_fd`. The threads are listed by what each has read through it. -/
structure Acceptor where
  newSocketFd : Option Nat
  creating : Bool
  accepted : List Nat
  threads : List (Option Nat)
  deriving DecidableEq

inductive AcceptEvent where
  | accept (fd : Nat)
  | acceptFails
  | create
  | read (thread : Nat)

namespace Acceptor

def start : Acceptor := ⟨none, false, [], []⟩

def step (s : Acceptor) : AcceptEvent → Option Acceptor
  | .accept fd =>
    if s.creating = false ∧ fd ∉ s.accepted then
      some { s with newSocketFd := some fd, creating := true, accepted := s.accepted ++ [fd] }
    else none
  | .acceptFails => if s.creating then none else some s
  | .create =>
    if s.creating then some { s with creating := false, threads := s.threads ++ [none] } else none
  | .read thread =>
    if s.threads[thread]? = some none then
      some { s with threads := s.threads.set thread s.newSocketFd }
    else none

structure Served (s : Acceptor) : Prop where
  own : ∀ (i fd : Nat), s.threads[i]? = some (some fd) → s.accepted[i]? = some fd
  once : ∀ (i j fd : Nat), s.threads[i]? = some (some fd) → s.threads[j]? = some (some fd) → i = j

def ReadsInTime (s : Acceptor) : AcceptEvent → Prop
  | .read thread => s.threads[thread]? = some none → thread + 1 = s.accepted.length
  | _ => True

/-- The variable holds the last connection; each but the one being handed over has a thread. -/
structure WellFormed (s : Acceptor) : Prop where
  distinct : s.accepted.Nodup
  last : s.newSocketFd = s.accepted.getLast?
  created : s.accepted.length = s.threads.length + s.creating.toNat

theorem WellFormed.start : start.WellFormed := ⟨List.nodup_nil, rfl, rfl⟩

theorem step_read_iff : step s (.read i) = some t ↔
    s.threads[i]? = some none ∧ { s with threads := s.threads.set i s.newSocketFd } = t := by
  rw [step, Option.ite_none_right_eq_some, Option.some.injEq]

theorem WellFormed.step (hw : WellFormed s) (hs : s.step e = some t) : t.WellFormed := by
  cases e with
  | accept fd =>
    obtain ⟨⟨hc, hfd⟩, he⟩ := Option.ite_none_right_eq_some.mp hs
    cases he
    refine ⟨?_, ?_, ?_⟩
    · rw [List.nodup_append_comm]
      exact List.nodup_cons.mpr ⟨hfd, hw.distinct⟩
    · exact List.getLast?_concat.symm
    · have hlen := hw.created
      rw [hc] at hlen
      rw [List.length_append, hlen]
      rfl
  | acceptFails =>
    obtain ⟨_, he⟩ := Option.ite_none_left_eq_some.mp hs
    cases he
    exact hw
  | create =>
    obtain ⟨hc, he⟩ := Option.ite_none_right_eq_some.mp hs
    cases he
    refine ⟨hw.distinct, hw.last, ?_⟩
    have hlen := hw.created
    rw [hc] at hlen
    rw [hlen, List.length_append]
    rfl
  | read i =>
    obtain ⟨_, rfl⟩ := step_read_iff.mp hs
    refine ⟨hw.distinct, hw.last, ?_⟩
    rw [List.length_set]
    exact hw.created

theorem WellFormed.read_iff (hw : WellFormed s) (hi : s.threads[i]? = some none) :
    s.newSocketFd = s.accepted[i]? ↔ i + 1 = s.accepted.length := by
  have hlt : i < s.accepted.length := by
    rw [hw.created]
    exact Nat.lt_add_right _ (List.getElem?_eq_some_iff.mp hi).1
  rw [hw.last, List.getLast?_eq_getElem?, eq_comm, List.getElem?_inj hlt hw.distinct]
  omega

theorem WellFormed.served (hw : WellFormed s)
    (hown : ∀ (i fd : Nat), s.threads[i]? = some (some fd) → s.accepted[i]? = some fd) :
    s.Served := by
  refine ⟨hown, ?_⟩
  intro i j fd hi hj
  have hfi := hown i fd hi
  have hfj := hown j fd hj
  have hlt := (List.getElem?_eq_some_iff.mp hfi).1
  exact (List.getElem?_inj hlt hw.distinct).mp (hfi.trans hfj.symm)

theorem Served.step (hw : WellFormed s) (hv : s.Served) (hok : s.ReadsInTime e)
    (hs : s.step e = some t) : t.Served := by
  apply (hw.step hs).served
  intro i fd hi
  cases e with
  | accept fd' =>
    obtain ⟨_, he⟩ := Option.ite_none_right_eq_some.mp hs
    cases he
    have hfd := hv.own i fd hi
    rw [List.getElem?_append_left (List.getElem?_eq_some_iff.mp hfd).1]
    exact hfd
  | acceptFails =>
    obtain ⟨_, he⟩ := Option.ite_none_left_eq_some.mp hs
    cases he
    exact hv.own i fd hi
  | create =>
    obtain ⟨_, he⟩ := Option.ite_none_right_eq_some.mp hs
    cases he
    by_cases hlt : i < s.threads.length
    · rw [List.getElem?_append_left hlt] at hi
      exact hv.own i fd hi
    · rw [List.getElem?_append_right (Nat.le_of_not_lt hlt), List.getElem?_singleton] at hi
      split at hi
      · cases hi
      · cases hi
  | read j =>
    obtain ⟨hj, rfl⟩ := step_read_iff.mp hs
    by_cases hij : j = i
    · subst hij
      have hlt := (List.getElem?_eq_some_iff.mp hj).1
      rw [List.getElem?_set_self hlt, Option.some.injEq] at hi
      rw [← (hw.read_iff hj).mpr (hok hj), hi]
    · rw [List.getElem?_set_ne hij] at hi
      exact hv.own i fd hi

theorem Served.in_time (hw : WellFormed s) (hi : s.threads[i]? = some none)
    (hs : s.step (.read i) = some t) (hv : t.Served) : i + 1 = s.accepted.length := by
  obtain ⟨_, rfl⟩ := step_read_iff.mp hs
  apply (hw.read_iff hi).mp
  have hlt := (List.getElem?_eq_some_iff.mp hi).1
  have hpos : 0 < s.accepted.length := by
    rw [hw.created]
    exact Nat.lt_add_right _ (Nat.zero_lt_of_lt hlt)
  obtain ⟨fd, hfd⟩ := Option.isSome_iff_exists.mp (List.getLast?_isSome.mpr
    (List.length_pos_iff.mp hpos))
  rw [← hw.last] at hfd
  have htaken : (s.threads.set i s.newSocketFd)[i]? = some (some fd) := by
    rw [List.getElem?_set_self hlt, hfd]
  rw [hfd]
  exact (hv.own i fd htaken).symm

end Acceptor

open Acceptor in
/-- Every thread takes the connection it was created for, in all orders of events, exactly where
each reads before the next connection is stored. -/
theorem connections_served_iff (es : List AcceptEvent) :
    AllReached Acceptor.step Served .start es ↔ StepsMeet Acceptor.step ReadsInTime .start es := by
  have hform : ∀ pre t, Run Acceptor.step .start pre t → t.WellFormed :=
    fun pre t hr => hr.invariant WellFormed.start fun _ _ _ hw => hw.step
  constructor
  · intro hall pre e t hp hr
    cases e with
    | read i =>
      intro hi
      have hs : t.step (.read i) = some { t with threads := t.threads.set i t.newSocketFd } :=
        step_read_iff.mpr ⟨hi, rfl⟩
      exact Served.in_time (hform pre t hr) hi hs
        (hall _ _ hp (Run.snoc_iff.mpr ⟨t, hr, hs⟩))
    | accept fd => trivial
    | acceptFails => trivial
    | create => trivial
  · intro hok pre t hp hr
    have hinv : t.WellFormed ∧ t.Served := by
      apply hr.preserves (hok.of_prefix hp)
      · exact ⟨.start, WellFormed.start.served fun i fd hi => by cases hi⟩
      · rintro t e u ⟨hw, hv⟩ hin hs
        exact ⟨hw.step hs, hv.step hw hin hs⟩
    exact hinv.2

/-- Two connections are accepted before the first thread reads: both threads take the second. -/
theorem connections_not_served :
    ¬ ∀ es, AllReached Acceptor.step Acceptor.Served .start es := by
  intro hall
  have hr : Run Acceptor.step .start
      [.accept 4, .create, .accept 5, .create, .read 0, .read 1]
      ⟨some 5, false, [4, 5], [some 5, some 5]⟩ := by decide
  have hone := ((hall _).of_run hr).once 0 1 5 rfl rfl
  cases hone

end Aiqb
