import Aiqb.Fairness
import Aiqb.ProblemTurns
import Mathlib.Data.Prod.Lex

namespace Aiqb
set_option autoImplicit true

/-- How far the main loop is from its next look at the ring. -/
def Dispatcher.stage : Dispatcher → Nat
  | holding _ => 4
  | marked _ => 3
  | queued _ => 2
  | idle => 1
  | ready => 0

theorem Dispatcher.mem_held {d : Dispatcher} : p ∈ d.list .held ↔ d = .holding p := by
  cases d <;> simp [list, eq_comm]

theorem Dispatcher.mem_queued {d : Dispatcher} : p ∈ d.list .queued ↔ d = .queued p := by
  cases d <;> simp [list, eq_comm]

/-- The distance of a problem from being solved: its phase, the problems before it in the ring, the
stage of the main loop, and the work of the solvers. -/
def distance (phase place stage work : Nat) : Nat ×ₗ Nat ×ₗ Nat ×ₗ Nat :=
  toLex (phase, toLex (place, toLex (stage, work)))

theorem distance_phase (h : i < j) : distance i k m n < distance j k' m' n' :=
  Prod.Lex.toLex_lt_toLex.mpr (.inl h)

theorem distance_place (h : k < k') : distance j k m n < distance j k' m' n' :=
  Prod.Lex.toLex_lt_toLex.mpr (.inr ⟨rfl, Prod.Lex.toLex_lt_toLex.mpr (.inl h)⟩)

theorem distance_stage (h : m < m') : distance j k m n < distance j k m' n' :=
  Prod.Lex.toLex_lt_toLex.mpr
    (.inr ⟨rfl, Prod.Lex.toLex_lt_toLex.mpr (.inr ⟨rfl, Prod.Lex.toLex_lt_toLex.mpr (.inl h)⟩)⟩)

theorem distance_work (h : n < n') : distance j k m n < distance j k m n' :=
  Prod.Lex.toLex_lt_toLex.mpr (.inr ⟨rfl, Prod.Lex.toLex_lt_toLex.mpr
    (.inr ⟨rfl, Prod.Lex.toLex_lt_toLex.mpr (.inr ⟨rfl, h⟩)⟩)⟩)

namespace ProblemBook

/-- The steps that the solvers have to take until the queue is empty. -/
def work (b : ProblemBook) : Nat := 2 * b.started.length + b.solved.length

instance (b : ProblemBook) : Decidable b.HasRoom := inferInstanceAs (Decidable (_ < _))

/-- What brings the main loop on: a step of its own, or, where it finds no room, one of a solver. -/
def helper (b : ProblemBook) : ProblemEvent :=
  if b.dispatcher = .idle ∧ ¬ b.HasRoom then
    match b.started, b.solved with
    | p :: _, _ => .markSolved p
    | [], p :: _ => .takeSolved p
    | [], [] => .dispatch
  else .dispatch

def Solved (b : ProblemBook) (p : Ptr) : Prop :=
  ∃ a, b.val p = some a ∧ a.header.status = statusSolved

/-- A problem on its way until it is solved, with its distance and the event that brings it on. -/
inductive Awaits (b : ProblemBook) (p : Ptr) : Nat ×ₗ Nat ×ₗ Nat ×ₗ Nat → ProblemEvent → Prop
  | registering (hp : p ∈ b.registering) : b.Awaits p (distance 5 0 0 0) (.insert p)
  | waiting (hp : b.problems[k]? = some p) :
    b.Awaits p (distance 4 k b.dispatcher.stage b.work) b.helper
  | held (hd : b.dispatcher = .holding p) : b.Awaits p (distance 3 0 0 0) .dispatch
  | marked (hd : b.dispatcher = .marked p) : b.Awaits p (distance 2 0 0 0) .dispatch
  | queued (hd : b.dispatcher = .queued p) : b.Awaits p (distance 1 0 0 0) .dispatch
  | started (hp : p ∈ b.started) : b.Awaits p (distance 0 0 0 0) (.markSolved p)

variable {o : Origin} {b b' : ProblemBook} {p q : Ptr} {e f : ProblemEvent}

/-- A step `e` that leads to `b'` does not throw a problem back that waits for `f`. -/
def Advances (b' : ProblemBook) (p : Ptr) (r : Nat ×ₗ Nat ×ₗ Nat ×ₗ Nat) (e f : ProblemEvent) :
    Prop :=
  b'.Solved p ∨ (∃ r' f', b'.Awaits p r' f' ∧ r' < r) ∨ b'.Awaits p r f ∧ e ≠ f

theorem Advances.nearer (h : b'.Awaits p r' f') (hr : r' < r) : b'.Advances p r e f :=
  .inr (.inl ⟨r', f', h, hr⟩)

theorem Advances.same (h : b'.Awaits p r f) (he : e ≠ f) : b'.Advances p r e f :=
  .inr (.inr ⟨h, he⟩)

theorem helper_cases (hb : b.Sound o) (hlimit : b.limit ≠ 0) :
    b.helper = .dispatch ∧ (b.dispatcher = .idle → b.HasRoom) ∨
      (∃ q ∈ b.started, b.helper = .markSolved q) ∨ ∃ q ∈ b.solved, b.helper = .takeSolved q := by
  by_cases hfull : b.dispatcher = .idle ∧ ¬ b.HasRoom
  · obtain ⟨hidle, hroom⟩ := hfull
    obtain ⟨phase, hloc⟩ := hb.located
    have hqueue : b.problemQueue ≠ [] := by
      intro hnil
      apply hroom
      rw [HasRoom, hnil, UInt64.lt_iff_toNat_lt]
      have hpos : 0 < b.limit.toNat := Nat.pos_of_ne_zero fun h => hlimit (UInt32.toNat_inj.mp h)
      simpa using hpos
    obtain ⟨q, hq⟩ := List.exists_mem_of_ne_nil _ hqueue
    obtain ⟨k, hphase, hin⟩ := (hloc.queue q).mp hq
    have hmem : q ∈ b.list k := (hloc.placed.mem k q).mpr hphase
    rw [helper, if_pos ⟨hidle, hroom⟩]
    right
    cases hs : b.started with
    | cons q' rest => exact .inl ⟨q', List.mem_cons_self, rfl⟩
    | nil =>
      cases hv : b.solved with
      | cons q' rest => exact .inr ⟨q', List.mem_cons_self, rfl⟩
      | nil =>
        cases k with
        | queued =>
          rw [list, hidle] at hmem
          cases hmem
        | started =>
          rw [list, hs] at hmem
          cases hmem
        | solved =>
          rw [list, hv] at hmem
          cases hmem
        | _ => cases hin
  · exact .inl ⟨if_neg hfull, fun hidle => by_contra fun hroom => hfull ⟨hidle, hroom⟩⟩

theorem Moves.registering (hm : b.Moves e b') (hp : p ∈ b.registering) :
    b'.Advances p (distance 5 0 0 0) e (.insert p) := by
  cases hm with
  | register time => exact .same (.registering (List.mem_append_left _ hp)) nofun
  | @insert q hq =>
    by_cases hpq : p = q
    · subst hpq
      have hlast : (b.problems ++ [p])[b.problems.length]? = some p := by
        rw [List.getElem?_append_right (Nat.le_refl _), Nat.sub_self]
        rfl
      exact .nearer (.waiting hlast) (distance_phase (by decide))
    · refine .same (.registering ((List.mem_erase_of_ne hpq).mpr hp)) ?_
      rintro ⟨rfl⟩
      exact hpq rfl
  | _ => exact .same (.registering hp) nofun

theorem Moves.started (hm : b.Moves e b') (hp : p ∈ b.started) :
    b'.Advances p (distance 0 0 0 0) e (.markSolved p) := by
  cases hm with
  | start hd => exact .same (.started (List.mem_append_left _ hp)) nofun
  | @markSolved q a hq ha =>
    by_cases hpq : p = q
    · subst hpq
      exact .inl ⟨_, setStatus_self _ _ _ _, rfl⟩
    · refine .same (.started ((List.mem_erase_of_ne hpq).mpr hp)) ?_
      rintro ⟨rfl⟩
      exact hpq rfl
  | _ => exact .same (.started hp) nofun

theorem Moves.dispatcher (hm : b.Moves e b') (he : e ≠ .dispatch) :
    b'.dispatcher = b.dispatcher := by
  cases hm <;> first | rfl | exact absurd rfl he

theorem Moves.held (hm : b.Moves e b') (hb : b.Sound o) (hd : b.dispatcher = .holding p) :
    b'.Advances p (distance 3 0 0 0) e .dispatch := by
  by_cases he : e = .dispatch
  · subst he
    cases hm with
    | @mark q a hd' ha hnew =>
      cases hd.symm.trans hd'
      exact .nearer (.marked rfl) (distance_phase (by decide))
    | @putBack q a hd' ha hold =>
      cases hd.symm.trans hd'
      obtain ⟨phase, hloc⟩ := hb.located
      have hheld : p ∈ b.list .held := Dispatcher.mem_held.mpr hd
      obtain ⟨c, hc, hst⟩ := hloc.val_of_mem hheld
      cases ha.symm.trans hc
      exact .inl ⟨a, ha, hst.resolve_left hold⟩
    | full hd' | room hd' | nothing hd' | take hd' | queue hd' | start hd' =>
      cases hd.symm.trans hd'
  · exact .same (.held ((hm.dispatcher he).trans hd)) he

theorem Moves.marked (hm : b.Moves e b') (hd : b.dispatcher = .marked p) :
    b'.Advances p (distance 2 0 0 0) e .dispatch := by
  by_cases he : e = .dispatch
  · subst he
    cases hm with
    | queue hd' =>
      cases hd.symm.trans hd'
      exact .nearer (.queued rfl) (distance_phase (by decide))
    | full hd' | room hd' | nothing hd' | take hd' | mark hd' | putBack hd' | start hd' =>
      cases hd.symm.trans hd'
  · exact .same (.marked ((hm.dispatcher he).trans hd)) he

theorem Moves.queued (hm : b.Moves e b') (hd : b.dispatcher = .queued p) :
    b'.Advances p (distance 1 0 0 0) e .dispatch := by
  by_cases he : e = .dispatch
  · subst he
    cases hm with
    | start hd' =>
      cases hd.symm.trans hd'
      exact .nearer (.started (List.mem_append_right _ (List.mem_singleton_self p)))
        (distance_phase (by decide))
    | full hd' | room hd' | nothing hd' | take hd' | mark hd' | putBack hd' | queue hd' =>
      cases hd.symm.trans hd'
  · exact .same (.queued ((hm.dispatcher he).trans hd)) he

theorem Moves.waiting (hm : b.Moves e b') (hb : b.Sound o) (hlimit : b.limit ≠ 0)
    (hp : b.problems[k]? = some p) :
    b'.Advances p (distance 4 k b.dispatcher.stage b.work) e b.helper := by
  have hhelper := helper_cases hb hlimit
  have hlast (l : List Ptr) : (b.problems ++ l)[k]? = some p := by
    rwa [List.getElem?_append_left (List.getElem?_eq_some_iff.mp hp).1]
  have hother (hdispatch : e ≠ .dispatch) (hmark : ∀ q, e ≠ .markSolved q)
      (htake : ∀ q, e ≠ .takeSolved q) : e ≠ b.helper := by
    rcases hhelper with ⟨h, _⟩ | ⟨q, _, h⟩ | ⟨q, _, h⟩ <;> rw [h]
    · exact hdispatch
    · exact hmark q
    · exact htake q
  cases hm with
  | register time => exact .same (.waiting (b := b.register time) hp) (hother nofun nofun nofun)
  | insert hq =>
    exact .same (.waiting (b := { b with problems := _, registering := _ }) (hlast _))
      (hother nofun nofun nofun)
  | giveBack hatom =>
    exact .same (.waiting (b := { b with problems := _, returning := _ }) (hlast _))
      (hother nofun nofun nofun)
  | full hd hroom =>
    refine .same (.waiting hp) ?_
    rcases hhelper with ⟨_, h⟩ | ⟨q, _, h⟩ | ⟨q, _, h⟩
    · exact absurd (h hd) hroom
    · rw [h]
      nofun
    · rw [h]
      nofun
  | room hd hroom =>
    refine .nearer (.waiting (b := { b with dispatcher := .ready }) hp) (distance_stage ?_)
    simp [hd, Dispatcher.stage]
  | nothing hd hnil =>
    rw [hnil] at hp
    cases hp
  | @take q rest hd hcons =>
    rw [hcons] at hp
    cases k with
    | zero =>
      cases hp
      exact .nearer (.held rfl) (distance_phase (by decide))
    | succ k =>
      exact .nearer (.waiting (b := { b with problems := rest, dispatcher := .holding q }) hp)
        (distance_place (Nat.lt_succ_self k))
  | mark hd ha hnew =>
    refine .nearer (.waiting (b := { b with val := _, dispatcher := .marked _ }) hp)
      (distance_stage ?_)
    simp [hd, Dispatcher.stage]
  | putBack hd ha hold =>
    refine .nearer (.waiting (b := { b with problems := _, dispatcher := .idle }) (hlast _))
      (distance_stage ?_)
    simp [hd, Dispatcher.stage]
  | queue hd =>
    refine .nearer (.waiting (b := { b with problemQueue := _, dispatcher := .queued _ }) hp)
      (distance_stage ?_)
    simp [hd, Dispatcher.stage]
  | start hd =>
    refine .nearer (.waiting (b := { b with started := _, dispatcher := .idle }) hp)
      (distance_stage ?_)
    simp [hd, Dispatcher.stage]
  | @markSolved q a hq ha =>
    refine .nearer (.waiting (b := { b with val := _, started := _, solved := _ }) hp)
      (distance_work ?_)
    have hpos := List.length_pos_of_mem hq
    simp only [work, List.length_erase_of_mem hq, List.length_append, List.length_singleton]
    omega
  | @takeSolved q a atom hq ha hatom =>
    refine .nearer (.waiting (b := { b with problemQueue := _, solved := _, returning := _ }) hp)
      (distance_work ?_)
    have hpos := List.length_pos_of_mem hq
    simp only [work, List.length_erase_of_mem hq]
    omega

theorem Moves.limit (hm : b.Moves e b') : b'.limit = b.limit := by
  cases hm <;> rfl

end ProblemBook

section Liveness

variable {o : Origin} {b b' : ProblemBook} {p : Ptr} {xs : List Ptr} {f : ProblemEvent}

theorem ProblemSide.Keeps.solved_lasts {s : ProblemSide} (hk : s.Keeps b) (hm : b.Moves e b')
    (h : b.Solved p) : b'.Solved p := by
  obtain ⟨a, ha, hst⟩ := h
  have hlive : s.heap.valOf p = some a := hk.val ▸ ha
  have hlt : p < b.size := hk.size ▸ (Heap.live_of_val hlive).lt_size
  cases hm with
  | register time => exact ⟨a, (Function.update_of_ne (Nat.ne_of_lt hlt) _ _).trans ha, hst⟩
  | @mark q c hd hc hnew =>
    by_cases hpq : p = q
    · subst hpq
      cases ha.symm.trans hc
      rw [hst] at hnew
      exact absurd hnew (by decide)
    · exact ⟨a, (ProblemBook.setStatus_other _ hpq).trans ha, hst⟩
  | @markSolved q c hq hc =>
    by_cases hpq : p = q
    · subst hpq
      exact ⟨_, ProblemBook.setStatus_self _ _ _ _, rfl⟩
    · exact ⟨a, (ProblemBook.setStatus_other _ hpq).trans ha, hst⟩
  | _ => exact ⟨a, ha, hst⟩

end Liveness

section Sample

/-- The states of a daemon to which these events happen; an event that is not possible is left
out. -/
def ProblemSide.after (s : ProblemSide) (e : Nat → ProblemEvent) : Nat → ProblemSide
  | 0 => s
  | i + 1 => (problemStep (s.after e i) (e i)).getD (s.after e i)

/-- The first problem is solved, and then the main loop looks at the ring forever. -/
def solvesFirst : Nat → ProblemEvent
  | 5 => .markSolved 0
  | 6 => .takeSolved 0
  | 7 => .giveBack (some 0)
  | _ => .dispatch

theorem solvesFirst_dispatch (h : 8 ≤ i) : solvesFirst i = .dispatch := by
  unfold solvesFirst
  split <;> first | rfl | omega

theorem solvesFirst_register (i : Nat) (time : UInt64) : solvesFirst i ≠ .register time := by
  unfold solvesFirst
  split <;> nofun

/-- No thread but the main loop has anything to do. -/
structure ProblemBook.AtRest (b : ProblemBook) : Prop where
  registering : b.registering = []
  started : b.started = []
  solved : b.solved = []
  returning : b.returning = []
  marked : ∀ p, b.dispatcher ≠ .marked p
  queued : ∀ p, b.dispatcher ≠ .queued p
  old : ∀ p a, b.val p = some a → a.header.status ≠ statusNew

theorem ProblemBook.AtRest.dispatch {b b' : ProblemBook} (h : b.AtRest)
    (hm : b.Moves .dispatch b') : b'.AtRest := by
  obtain ⟨hregistering, hstarted, hsolved, hreturning, hmarked, hqueued, hold⟩ := h
  cases hm with
  | full hd => exact ⟨hregistering, hstarted, hsolved, hreturning, hmarked, hqueued, hold⟩
  | room hd | nothing hd | take hd | putBack hd =>
    exact ⟨hregistering, hstarted, hsolved, hreturning, nofun, nofun, hold⟩
  | mark hd ha hnew => exact absurd hnew (hold _ _ ha)
  | queue hd => exact absurd hd (hmarked _)
  | start hd => exact absurd hd (hqueued _)

theorem waiting_after (i : Nat) :
    ∃ b, (ProblemSide.waiting.after solvesFirst i).Keeps b ∧
      b.Sound ProblemSide.waiting_loaded.origin := by
  induction i with
  | zero => exact ⟨_, ProblemSide.waiting_loaded.keeps, ProblemSide.waiting_loaded.sound⟩
  | succ i ih =>
    obtain ⟨b, hk, hb⟩ := ih
    rw [ProblemSide.after]
    cases hs : problemStep (ProblemSide.waiting.after solvesFirst i) (solvesFirst i) with
    | none => exact ⟨b, hk, hb⟩
    | some t =>
      have hid : IdsStayBelow (ProblemSide.waiting.after solvesFirst i) (solvesFirst i) :=
        fun time he => absurd he (solvesFirst_register i time)
      obtain ⟨b', _, hb'⟩ := hk.sound_step hb hid hs
      exact ⟨b', hb'⟩

theorem waiting_after_succ (h : problemStep (ProblemSide.waiting.after solvesFirst i)
    (solvesFirst i) = some t) : ProblemSide.waiting.after solvesFirst (i + 1) = t := by
  rw [ProblemSide.after, h, Option.getD_some]

theorem waiting_rests (h : 8 ≤ i) :
    ∃ b, (ProblemSide.waiting.after solvesFirst i).Keeps b ∧
      b.Sound ProblemSide.waiting_loaded.origin ∧ b.AtRest := by
  induction i, h using Nat.le_induction with
  | base =>
    obtain ⟨b, hk, hb⟩ := waiting_after 8
    refine ⟨b, hk, hb, ?_⟩
    constructor
    · exact hk.registering.symm.trans (by decide +kernel)
    · exact hk.started.symm.trans (by decide +kernel)
    · exact hk.solved.symm.trans (by decide +kernel)
    · exact hk.returning.symm.trans (by decide +kernel)
    · intro p hp
      have hidle : (ProblemSide.waiting.after solvesFirst 8).dispatcher = .idle := by decide +kernel
      cases hidle.symm.trans (hk.dispatcher.trans hp)
    · intro p hp
      have hidle : (ProblemSide.waiting.after solvesFirst 8).dispatcher = .idle := by decide +kernel
      cases hidle.symm.trans (hk.dispatcher.trans hp)
    · intro p a ha
      rw [← hk.val] at ha
      have hsize : (ProblemSide.waiting.after solvesFirst 8).heap.size = 1 := by decide +kernel
      have hstatus : ((ProblemSide.waiting.after solvesFirst 8).heap.valOf 0).map
          (fun a => a.header.status) = some statusSolved := by
        decide +kernel
      have hp : p = 0 := by
        have hlt := (Heap.live_of_val ha).lt_size
        rw [hsize] at hlt
        exact Nat.lt_one_iff.mp hlt
      rw [hp] at ha
      rw [ha, Option.map_some, Option.some.injEq] at hstatus
      rw [hstatus]
      decide
  | succ i hi ih =>
    obtain ⟨b, hk, hb, hrest⟩ := ih
    obtain ⟨t, ht⟩ := (hk.keepsAll hb).defined .dispatch trivial
    obtain ⟨b', hbs, hk', hb'⟩ := hk.sound_step (e := .dispatch) hb (fun _ he => nomatch he) ht
    rw [waiting_after_succ (by rwa [solvesFirst_dispatch hi])]
    exact ⟨b', hk', hb', hrest.dispatch (ProblemBook.moves hbs)⟩

end Sample

end Aiqb
