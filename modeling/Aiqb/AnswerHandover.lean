import Aiqb.AnswerIds

namespace Aiqb
set_option autoImplicit true

/-- The solver of `p` finds `p` itself in its queue, and stores it as solved. -/
def AnswerSide.HandsOver (s : AnswerSide) (p : Ptr) : Prop :=
  ∃ xs ys h queue s' a, s.Holds xs ys ∧ p ∈ ys ∧
    extractSolved s p = some (h, queue, some p) ∧
    answerStep s (.complete p) = some s' ∧ s'.Holds (xs ++ [p]) (ys.erase p) ∧
    s'.heap.valOf p = some a ∧ a.status = statusSolved

def AnswerSide.SparesSolvers (s : AnswerSide) (id : UInt64) : Prop :=
  ∃ s' freed, deleteAnswer s id = some (s', freed) ∧ ∀ p, freed = some p → p ∉ s.solvers

def KeepsHold (s : AnswerSide) : AnswerEvent → Prop
  | .complete p => p ∈ s.solvers → s.HandsOver p
  | .delete id => s.SparesSolvers id
  | _ => True

def AnswerSide.PlacedOnce (s : AnswerSide) : Prop :=
  ∃ xs ys, s.Holds xs ys ∧ ∀ p, s.heap.Live p → (xs ++ ys).count p = 1

/-- No answer ahead of `p` in its queue has the id of `p`. (An id that has wrapped to 0 stands for
the head of the queue.) -/
def AnswerSide.FirstWithId (s : AnswerSide) (p : Ptr) : Prop :=
  ∀ xs ahead behind, s.Holds xs (ahead ++ p :: behind) → ∀ a, s.heap.valOf p = some a →
    (a.id = 0 → ahead = []) ∧ ∀ q ∈ ahead, ∀ c, s.heap.valOf q = some c → c.id ≠ a.id

def CompletesFirst (s : AnswerSide) : AnswerEvent → Prop
  | .complete p => p ∈ s.solvers → s.FirstWithId p
  | _ => True

theorem lookupId_self_iff {val : Ptr → Option AnswerT} (hp : p ∉ ahead) (hv : val p = some a) :
    lookupId val (ahead ++ p :: behind) a.id = some p ↔
      (a.id = 0 → ahead = []) ∧ ∀ q ∈ ahead, ∀ c, val q = some c → c.id ≠ a.id := by
  constructor
  · intro h
    by_cases h0 : a.id = 0
    · rw [lookupId, if_pos h0] at h
      cases ahead with
      | nil => exact ⟨fun _ => rfl, fun _ hq => absurd hq List.not_mem_nil⟩
      | cons q ahead =>
        cases h
        exact absurd List.mem_cons_self hp
    · rw [lookupId, if_neg h0, List.find?_append] at h
      refine ⟨fun h0' => absurd h0' h0, ?_⟩
      intro q hq c hc hid
      cases hf : ahead.find? (fun p => (val p).any fun c => a.id == c.id) with
      | none =>
        apply List.find?_eq_none.mp hf q hq
        simp [hc, hid]
      | some r =>
        rw [hf] at h
        cases h
        exact hp (List.mem_of_find?_eq_some hf)
  · rintro ⟨hzero, hother⟩
    exact lookupId_first hv (fun _ => rfl) hzero hother

namespace AnswerBook

variable {b b' : AnswerBook} {e : AnswerEvent}

structure Manned (b : AnswerBook) : Prop where
  placed : b.Placed
  solvers : b.solvers.Perm b.answerQueue

theorem manned_start (limit : UInt32) : (start limit).Manned := ⟨placed_start limit, .rfl⟩

theorem Manned.step (hm : b.Manned)
    (hfirst : ∀ p a, e = .complete p → b.val p = some a →
      lookupId b.val b.answerQueue a.id = some p)
    (h : b.step e = some b') : b'.Manned := by
  refine ⟨hm.placed.step h, ?_⟩
  cases e with
  | register a =>
    cases h
    exact hm.solvers
  | dispatch =>
    rcases dispatch_cases h with rfl | ⟨p, rest, a, hb, hv, ⟨hst, rfl⟩ | ⟨hst, rfl⟩⟩
    · exact hm.solvers
    · exact hm.solvers.append_right [p]
    · exact hm.solvers
  | complete p =>
    obtain ⟨hp, a, hv, ⟨hq, rfl⟩ | ⟨q, c, hq, hc, rfl⟩⟩ := complete_cases h
    · rw [hfirst p a rfl hv] at hq
      cases hq
    · rw [hfirst p a rfl hv] at hq
      cases hq
      exact hm.solvers.erase p
  | delete id =>
    cases h
    rcases delete_cases b id with he | ⟨p, hl, he⟩
    · rw [he]
      exact hm.solvers
    · rw [he]
      exact hm.solvers

theorem Manned.queued (hm : b.Manned) (hp : p ∈ b.solvers) : p ∈ b.answerQueue :=
  hm.solvers.mem_iff.mp hp

theorem Manned.live (hm : b.Manned) (hp : p ∈ b.solvers) : ∃ a, b.val p = some a :=
  Option.isSome_iff_exists.mp ((hm.placed.live p).mp (List.mem_append_right _ (hm.queued hp)))

end AnswerBook

namespace Represents

variable {s : AnswerSide} {b : AnswerBook}

theorem placed_once (hr : Represents s b) (hp : b.Placed) : s.PlacedOnce := by
  refine ⟨b.answers, b.answerQueue, hr.holds, ?_⟩
  intro p hl
  rw [Heap.live_iff_val, hr.val] at hl
  exact List.count_eq_one_of_mem hp.nodup ((hp.live p).mpr (Option.isSome_iff_exists.mpr hl))

theorem first_with_id_iff (hr : Represents s b) (hp : p ∈ b.answerQueue) (hv : b.val p = some a) :
    s.FirstWithId p ↔ lookupId b.val b.answerQueue a.id = some p := by
  obtain ⟨ahead, behind, he⟩ := List.append_of_mem hp
  have hnd := hr.holds.answerQueue.nodup
  have hnot : p ∉ ahead := by
    rw [he] at hnd
    exact fun hm => (List.nodup_append.mp hnd).2.2 p hm p List.mem_cons_self rfl
  rw [he, lookupId_self_iff hnot hv]
  constructor
  · intro hf
    have hh := hr.holds
    rw [he] at hh
    rw [← hr.val] at hv ⊢
    exact hf _ _ _ hh a hv
  · intro h xs ahead' behind' hh a' ha'
    have hsplit := (hr.holds_eq hh).2.trans he
    have hnot' : p ∉ ahead' := by
      have hnd' := hh.answerQueue.nodup
      exact fun hm => (List.nodup_append.mp hnd').2.2 p hm p List.mem_cons_self rfl
    have hnotb : p ∉ behind' := by
      have hnd' := (List.nodup_append.mp hh.answerQueue.nodup).2.1
      exact (List.nodup_cons.mp hnd').1
    obtain ⟨rfl, _⟩ := (List.append_cons_inj_of_notMem hnot' hnotb).mp hsplit
    rw [hr.val] at ha'
    cases hv.symm.trans ha'
    rw [hr.val]
    exact h

theorem extracts_iff (hr : Represents s b) (hv : b.val p = some a) :
    (∃ h queue, Aiqb.extractSolved s p = some (h, queue, some p)) ↔
      lookupId b.val b.answerQueue a.id = some p := by
  obtain ⟨h₁, _, _, hy₁, _, v₁, hext⟩ := hr.extractSolved hv
  have hlook : lookupId h₁.valOf b.answerQueue a.id = lookupId b.val b.answerQueue a.id := by
    apply lookupId_congr
    intro q _
    rw [v₁]
    exact AnswerBook.update_id (a := { a with status := statusSolved }) hv rfl q
  rw [hext, ← hlook]
  constructor
  · rintro ⟨h, queue, he⟩
    cases hl : lookupId h₁.valOf b.answerQueue a.id with
    | none =>
      rw [extractQueue_none hy₁ hl] at he
      cases he
    | some q =>
      obtain ⟨h', queue', he', _⟩ := extractQueue_some hy₁ hl
      rw [he'] at he
      cases he
      rfl
  · intro hl
    obtain ⟨h', queue', he', _⟩ := extractQueue_some hy₁ hl
    exact ⟨h', queue', he'⟩

theorem hands_over (hr : Represents s b) (hm : b.Manned) (hp : p ∈ b.solvers)
    (hv : b.val p = some a) (hl : lookupId b.val b.answerQueue a.id = some p) :
    s.HandsOver p := by
  obtain ⟨h, queue, hext⟩ := (hr.extracts_iff hv).mpr hl
  have hrel := hr.complete p
  have hb : b.complete p = some { b with
      val := AnswerBook.number (Function.update b.val p (some { a with status := statusSolved }))
        b.answers p { a with status := statusSolved }
      answers := b.answers ++ [p]
      answerQueue := b.answerQueue.erase p
      solvers := b.solvers.erase p } := by
    simp only [AnswerBook.complete, if_pos hp, hv, hl, Option.bind_some, Function.update_self,
      Option.map_some]
  rw [hb] at hrel
  cases hs : answerStep s (.complete p) with
  | none => rw [hs] at hrel; cases hrel
  | some s' =>
    rw [hs] at hrel
    cases hrel with
    | some hr' =>
      have hval : s'.heap.valOf p = some { a with
          status := statusSolved
          id := assignedId (idsOf (Function.update b.val p
            (some { a with status := statusSolved })) b.answers) a.id } := by
        rw [hr'.val]
        exact Function.update_self _ _ _
      exact ⟨b.answers, b.answerQueue, h, queue, s', _, hr.holds, hm.queued hp, hext, hs,
        hr'.holds, hval, rfl⟩

theorem spares_solvers (hr : Represents s b) (hm : b.Manned) (id : UInt64) :
    s.SparesSolvers id := by
  obtain ⟨s', he, _⟩ := hr.delete id
  refine ⟨s', _, he, ?_⟩
  intro p hl hp
  rw [hr.solvers] at hp
  exact hr.holds.disjoint (lookupId_mem hl) (hm.queued hp)

end Represents

theorem manned_of_run (hok : StepsMeet answerStep CompletesFirst (.start limit) es)
    (hr : Run answerStep (.start limit) es t) : ∃ b, Represents t b ∧ b.Manned := by
  apply hr.preserves hok (I := fun t => ∃ b, Represents t b ∧ b.Manned)
  · exact ⟨_, represents_start limit, AnswerBook.manned_start limit⟩
  · rintro m e u ⟨b, hrep, hm⟩ hfirst hs
    obtain ⟨b', hb, hrep'⟩ := optionRel_left (hrep.step e) hs
    refine ⟨b', hrep', hm.step ?_ hb⟩
    rintro p a rfl hv
    have hp : p ∈ b.solvers := (AnswerBook.complete_cases hb).1
    exact (hrep.first_with_id_iff (hm.queued hp) hv).mp (hfirst (hrep.solvers ▸ hp))

/-- Every solver gets its own answer back, exactly when none finds its id ahead of its answer. -/
theorem AnswerSide.keeps_hold_iff_completes_first (limit : UInt32) (es : List AnswerEvent) :
    StepsMeet answerStep KeepsHold (.start limit) es ∧
        AllReached answerStep AnswerSide.PlacedOnce (.start limit) es ↔
      StepsMeet answerStep CompletesFirst (.start limit) es := by
  constructor
  · rintro ⟨hkeep, _⟩ pre e t hp hr
    cases e with
    | complete p =>
      intro hsolver
      obtain ⟨b, _, hrep⟩ :=
        Run.related (fun s b e h => h.step e) (represents_start limit) hr
      obtain ⟨xs, ys, h, queue, s', a, hh, hmem, hext, hs, _, _⟩ := hkeep pre _ t hp hr hsolver
      obtain ⟨rfl, rfl⟩ := hrep.holds_eq hh
      obtain ⟨c, hc⟩ := Heap.live_iff_val.mp (hrep.holds.answerQueue.live hmem)
      rw [hrep.val] at hc
      exact (hrep.first_with_id_iff hmem hc).mpr ((hrep.extracts_iff hc).mp ⟨h, queue, hext⟩)
    | register a => trivial
    | dispatch => trivial
    | delete id => trivial
  · intro hok
    constructor
    · intro pre e t hp hr
      have hpre : pre <+: es := (List.prefix_append pre [e]).trans hp
      obtain ⟨b, hrep, hm⟩ := manned_of_run (hok.of_prefix hpre) hr
      cases e with
      | complete p =>
        intro hsolver
        have hp' : p ∈ b.solvers := hrep.solvers ▸ hsolver
        obtain ⟨a, hv⟩ := hm.live hp'
        have hfirst := hok pre _ t hp hr hsolver
        exact hrep.hands_over hm hp' hv ((hrep.first_with_id_iff (hm.queued hp') hv).mp hfirst)
      | delete id => exact hrep.spares_solvers hm id
      | register a => trivial
      | dispatch => trivial
    · intro pre t hp hr
      obtain ⟨b, hrep, hm⟩ := manned_of_run (hok.of_prefix hp) hr
      exact hrep.placed_once hm.placed

theorem Represents.first_of_nodup (hr : Represents s b) (hc : b.Counted n) (hd : b.ids.Nodup)
    (hp : p ∈ b.answerQueue) (hv : b.val p = some a) :
    lookupId b.val b.answerQueue a.id = some p := by
  obtain ⟨ahead, behind, he⟩ := List.append_of_mem hp
  have hnd := hr.holds.answerQueue.nodup
  rw [he] at hnd ⊢
  have hnot : p ∉ ahead := fun hm => (List.nodup_append.mp hnd).2.2 p hm p List.mem_cons_self rfl
  rw [lookupId_self_iff hnot hv]
  have hmem : ∀ q ∈ ahead ++ p :: behind, q ∈ b.nodes := by
    rw [← he]
    exact fun q hq => List.mem_append_right _ hq
  constructor
  · intro h0
    exact absurd h0 (hc.ne_zero _ (mem_idsOf (hmem p (by simp)) hv))
  · intro q hq c hq' hid
    have huniq := (idsOf_nodup_iff hc.placed.nodup).mp hd
    have heq := huniq q (hmem q (List.mem_append_left _ hq)) c hq' p (hmem p (by simp)) a hv hid
    exact hnot (heq ▸ hq)

/-- A solver can only lose its answer after an id was assigned twice. -/
theorem completes_first_of_registers_freely (hreg : registrations es < 2 ^ 64 - 1)
    (hok : StepsMeet answerStep RegistersFreely (.start limit) es) :
    StepsMeet answerStep CompletesFirst (.start limit) es := by
  intro pre e t hp hr
  have hpre : pre <+: es := (List.prefix_append pre [e]).trans hp
  have hn := Nat.lt_of_le_of_lt (registrations_mono hpre) hreg
  obtain ⟨b, hrep, hc, hd⟩ := nodup_of_run hn (hok.of_prefix hpre) hr
  cases e with
  | complete p =>
    intro _ xs ahead behind hh a hv
    have hmem : p ∈ b.answerQueue := (hrep.holds_eq hh).2 ▸ by simp
    rw [hrep.val] at hv
    exact (hrep.first_with_id_iff hmem hv).mpr (hrep.first_of_nodup hc hd hmem hv) xs ahead behind
      hh a (hrep.val ▸ hv)
  | register a => trivial
  | dispatch => trivial
  | delete id => trivial

/-- Two answers with id 1 at their solvers: the second solver hands over the first answer. -/
theorem AnswerSide.hold_lost :
    ¬ StepsMeet answerStep KeepsHold (.start 2)
      [.register .oneRow, .dispatch, .register .oneRow, .dispatch, .complete 1] := by
  intro hkeep
  have hb : ∃ b, Run AnswerBook.step (.start 2)
      [.register .oneRow, .dispatch, .register .oneRow, .dispatch] b ∧ b.solvers = [0, 1] ∧
      b.val 1 = some { AnswerT.oneRow with id := 1, status := statusInProgress } ∧
      lookupId b.val b.answerQueue 1 = some 0 := ⟨_, rfl, rfl, rfl, rfl⟩
  obtain ⟨b, hb, hsol, hv, hl⟩ := hb
  obtain ⟨t, hr, hrep⟩ := Run.realized (fun s b e h => h.step e) (represents_start 2) hb
  have hin : 1 ∈ t.solvers := by rw [hrep.solvers, hsol]; decide
  obtain ⟨_, _, h, queue, _, _, _, _, hext, _⟩ := hkeep _ _ t (List.prefix_refl _) hr hin
  have hl' := (hrep.extracts_iff hv).mp ⟨h, queue, hext⟩
  rw [hl] at hl'
  cases hl'

end Aiqb
