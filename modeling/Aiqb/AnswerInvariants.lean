import Aiqb.AnswerRefinement

namespace Aiqb
set_option autoImplicit true

theorem idsOf_eq (val : Ptr → Option AnswerT) (xs : List Ptr) :
    idsOf val xs = xs.filterMap fun p => (val p).map AnswerT.id := by
  rw [idsOf, List.map_filterMap]

theorem idsOf_append (val : Ptr → Option AnswerT) (xs ys : List Ptr) :
    idsOf val (xs ++ ys) = idsOf val xs ++ idsOf val ys := by
  rw [idsOf, List.filterMap_append, List.map_append]
  rfl

theorem idsOf_cons {val : Ptr → Option AnswerT} (hv : val p = some a) (xs : List Ptr) :
    idsOf val (p :: xs) = a.id :: idsOf val xs := by
  rw [idsOf, List.filterMap_cons_some hv, List.map_cons]
  rfl

theorem idsOf_perm (val : Ptr → Option AnswerT) (h : xs.Perm ys) :
    (idsOf val xs).Perm (idsOf val ys) :=
  (h.filterMap val).map AnswerT.id

theorem mem_idsOf (hp : p ∈ xs) (hv : val p = some a) : a.id ∈ idsOf val xs :=
  List.mem_map.mpr ⟨a, List.mem_filterMap.mpr ⟨p, hp, hv⟩, rfl⟩

namespace AnswerBook

variable {b b' : AnswerBook} {a c : AnswerT} {p : Ptr} {xs : List Ptr}

def nodes (b : AnswerBook) : List Ptr := b.answers ++ b.answerQueue

def ids (b : AnswerBook) : List UInt64 := idsOf b.val b.nodes

structure Placed (b : AnswerBook) : Prop where
  nodup : b.nodes.Nodup
  live : ∀ p, p ∈ b.nodes ↔ (b.val p).isSome
  fresh : ∀ p, b.size ≤ p → b.val p = none

/-- The effect common to dispatch and completion: nodes change places, and nothing of them but the
status, as long as they have ids. -/
structure Moves (b b' : AnswerBook) : Prop where
  nodes : b'.nodes.Perm b.nodes
  live : ∀ p, (b'.val p).isSome = (b.val p).isSome
  size : b'.size = b.size
  ids : (∀ i ∈ b.ids, i ≠ 0) → ∀ p, (b'.val p).map AnswerT.id = (b.val p).map AnswerT.id

theorem Moves.refl (b : AnswerBook) : Moves b b := ⟨.rfl, fun _ => rfl, rfl, fun _ _ => rfl⟩

theorem Moves.placed (hm : Moves b b') (hp : b.Placed) : b'.Placed where
  nodup := hm.nodes.nodup_iff.mpr hp.nodup
  live p := by rw [hm.nodes.mem_iff, hp.live, hm.live]
  fresh p hs := by
    have hn := hp.fresh p (hm.size ▸ hs)
    rw [← Option.not_isSome_iff_eq_none, hm.live, hn]
    exact Bool.false_ne_true

theorem Moves.ids_perm (hm : Moves b b') (hpos : ∀ i ∈ b.ids, i ≠ 0) : b'.ids.Perm b.ids := by
  have he : AnswerBook.ids b' = idsOf b.val b'.nodes := by
    rw [AnswerBook.ids, idsOf_eq, idsOf_eq]
    exact List.filterMap_congr fun p _ => hm.ids hpos p
  rw [he]
  exact idsOf_perm b.val hm.nodes

theorem number_of_ne_zero {val : Ptr → Option AnswerT} (hid : a.id ≠ 0) :
    number val xs p a = Function.update val p (some a) := by
  rw [number, assignedId, if_neg hid]

theorem number_isSome {val : Ptr → Option AnswerT} (hv : val p = some c) (q : Ptr) :
    (number val xs p a q).isSome = (val q).isSome := by
  by_cases hq : q = p
  · subst hq
    rw [number, Function.update_self, hv]
    rfl
  · rw [number, Function.update_of_ne hq]

theorem update_isSome {val : Ptr → Option AnswerT} (hv : val p = some c) (q : Ptr) :
    (Function.update val p (some a) q).isSome = (val q).isSome := by
  by_cases hq : q = p
  · subst hq
    rw [Function.update_self, hv]
    rfl
  · rw [Function.update_of_ne hq]

theorem update_id {val : Ptr → Option AnswerT} (hv : val p = some c) (hid : a.id = c.id)
    (q : Ptr) :
    (Function.update val p (some a) q).map AnswerT.id = (val q).map AnswerT.id := by
  by_cases hq : q = p
  · subst hq
    rw [Function.update_self, hv, Option.map_some, Option.map_some, hid]
  · rw [Function.update_of_ne hq]

theorem number_id {val : Ptr → Option AnswerT} (hv : val p = some c) (hid : a.id = c.id)
    (h0 : c.id ≠ 0) (q : Ptr) :
    (number val xs p a q).map AnswerT.id = (val q).map AnswerT.id := by
  rw [number_of_ne_zero (hid ▸ h0), update_id hv hid]

/-- All that a turn of the dispatcher can do. -/
theorem dispatch_cases (h : b.dispatch = some b') :
    b' = b ∨ ∃ p rest a, b.answers = p :: rest ∧ b.val p = some a ∧
      ((a.status = statusNew ∧ b' = { b with
          val := number (Function.update b.val p (some { a with status := statusInProgress }))
            b.answerQueue p { a with status := statusInProgress }
          answers := rest
          answerQueue := b.answerQueue ++ [p]
          solvers := b.solvers ++ [p] }) ∨
        (a.status ≠ statusNew ∧
          b' = { b with val := number b.val rest p a, answers := rest ++ [p] })) := by
  unfold dispatch at h
  split at h
  · cases hb : b.answers with
    | nil =>
      rw [hb] at h
      cases h
      exact .inl rfl
    | cons p rest =>
      rw [hb] at h
      obtain ⟨a, hv, he⟩ := Option.map_eq_some_iff.mp h
      refine .inr ⟨p, rest, a, rfl, hv, ?_⟩
      split at he
      · next hst => exact .inl ⟨hst, he.symm⟩
      · next hst => exact .inr ⟨hst, he.symm⟩
  · cases h
    exact .inl (rfl)

/-- All that a completion can do: the thread's own answer is marked, and the answer found under its
id, if any, changes queues. -/
theorem complete_cases (h : b.complete p = some b') :
    p ∈ b.solvers ∧ ∃ a, b.val p = some a ∧
      ((lookupId b.val b.answerQueue a.id = none ∧ b' = { b with
          val := Function.update b.val p (some { a with status := statusSolved })
          solvers := b.solvers.erase p }) ∨
        ∃ q c, lookupId b.val b.answerQueue a.id = some q ∧
          Function.update b.val p (some { a with status := statusSolved }) q = some c ∧
          b' = { b with
            val := number (Function.update b.val p (some { a with status := statusSolved }))
              b.answers q c
            answers := b.answers ++ [q]
            answerQueue := b.answerQueue.erase q
            solvers := b.solvers.erase p }) := by
  unfold complete at h
  split at h
  · next hp =>
    obtain ⟨a, hv, he⟩ := Option.bind_eq_some_iff.mp h
    refine ⟨hp, a, hv, ?_⟩
    cases hq : lookupId b.val b.answerQueue a.id with
    | none =>
      simp only [hq, Option.some.injEq] at he
      exact .inl ⟨rfl, he.symm⟩
    | some q =>
      simp only [hq, Option.map_eq_some_iff] at he
      obtain ⟨c, hc, he⟩ := he
      exact .inr ⟨q, c, rfl, hc, he.symm⟩
  · cases h

theorem dispatch_moves (h : b.dispatch = some b') : Moves b b' := by
  rcases dispatch_cases h with rfl | ⟨p, rest, a, hb, hv, ⟨hst, rfl⟩ | ⟨hst, rfl⟩⟩
  · exact .refl _
  · have hvp : Function.update b.val p (some { a with status := statusInProgress }) p =
        some { a with status := statusInProgress } := Function.update_self _ _ _
    refine ⟨?_, ?_, rfl, ?_⟩
    · simp only [nodes, hb, ← List.append_assoc]
      exact List.perm_append_singleton p _
    · intro q
      exact (number_isSome hvp q).trans (update_isSome hv q)
    · intro hpos q
      have h0 : a.id ≠ 0 := hpos _ (mem_idsOf (by rw [nodes, hb]; simp) hv)
      exact (number_id hvp rfl h0 q).trans
        (update_id (a := { a with status := statusInProgress }) hv rfl q)
  · refine ⟨?_, ?_, rfl, ?_⟩
    · simp only [nodes, hb]
      exact (List.perm_append_singleton p rest).append_right _
    · exact number_isSome hv
    · intro hpos q
      have h0 : a.id ≠ 0 := hpos _ (mem_idsOf (by rw [nodes, hb]; simp) hv)
      exact number_id hv (rfl) h0 q

theorem complete_moves (h : b.complete p = some b') : Moves b b' := by
  obtain ⟨hp, a, hv, ⟨hq, rfl⟩ | ⟨q, c, hq, hc, rfl⟩⟩ := complete_cases h
  · exact ⟨.rfl, update_isSome hv, rfl, fun _ => update_id hv (rfl)⟩
  · have hmem := lookupId_mem hq
    refine ⟨?_, ?_, rfl, ?_⟩
    · simp only [nodes, List.append_assoc]
      exact (List.perm_cons_erase hmem).symm.append_left _
    · intro r
      exact (number_isSome hc r).trans (update_isSome hv r)
    · intro hpos r
      have hcid : ∃ d, b.val q = some d ∧ d.id = c.id := by
        have hid := update_id (a := { a with status := statusSolved }) hv (rfl) q
        rw [hc, Option.map_some] at hid
        obtain ⟨d, hd, he⟩ := Option.map_eq_some_iff.mp hid.symm
        exact ⟨d, hd, he⟩
      obtain ⟨d, hd, he⟩ := hcid
      have h0 : c.id ≠ 0 := he ▸ hpos _ (mem_idsOf (List.mem_append_right _ hmem) hd)
      exact (number_id hc rfl h0 r).trans
        (update_id (a := { a with status := statusSolved }) hv rfl r)

theorem join_nodes (b : AnswerBook) (a : AnswerT) :
    (b.join a).nodes.Perm (b.size :: b.nodes) := by
  simp only [join, nodes, List.append_assoc]
  exact List.perm_middle

theorem register_nodes (b : AnswerBook) (a : AnswerT) :
    (b.register a).nodes.Perm (b.size :: b.nodes) := b.join_nodes { a with id := 0 }

theorem delete_cases (b : AnswerBook) (id : UInt64) :
    b.delete id = b ∨ ∃ p, lookupId b.val b.answers id = some p ∧
      b.delete id =
        { b with val := Function.update b.val p none, answers := b.answers.erase p } := by
  unfold delete
  cases hp : lookupId b.val b.answers id with
  | none => exact .inl (rfl)
  | some p => exact .inr ⟨p, rfl, rfl⟩

theorem Placed.size_notMem (hp : b.Placed) : b.size ∉ b.nodes := by
  rw [hp.live, hp.fresh _ (Nat.le_refl _)]
  exact Bool.false_ne_true

theorem Placed.join (hp : b.Placed) (a : AnswerT) : (b.join a).Placed where
  nodup := (join_nodes b a).nodup_iff.mpr (List.nodup_cons.mpr ⟨hp.size_notMem, hp.nodup⟩)
  live p := by
    rw [(join_nodes b a).mem_iff, List.mem_cons, hp.live]
    by_cases hps : p = b.size
    · subst hps
      simp only [AnswerBook.join, Function.update_self, Option.isSome_some, true_or]
    · simp only [AnswerBook.join, Function.update_of_ne hps, hps, false_or]
  fresh p hs := by
    have hlt : b.size < p := hs
    simp only [AnswerBook.join, Function.update_of_ne (Nat.ne_of_gt hlt)]
    exact hp.fresh p (Nat.le_of_lt hlt)

theorem Placed.register (hp : b.Placed) (a : AnswerT) : (b.register a).Placed :=
  hp.join { a with id := 0 }

theorem Placed.delete (hp : b.Placed) (id : UInt64) : (b.delete id).Placed := by
  rcases delete_cases b id with he | ⟨p, hl, he⟩
  · rw [he]
    exact hp
  · have hmem := lookupId_mem hl
    have hperm : b.nodes.Perm (p :: (b.answers.erase p ++ b.answerQueue)) :=
      (List.perm_cons_erase hmem).append_right _
    have hnd := List.nodup_cons.mp (hperm.nodup_iff.mp hp.nodup)
    rw [he]
    refine ⟨hnd.2, ?_, ?_⟩
    · intro q
      by_cases hq : q = p
      · subst hq
        simp only [Function.update_self, Option.isSome_none]
        exact iff_of_false hnd.1 Bool.false_ne_true
      · simp only [Function.update_of_ne hq]
        rw [← hp.live, hperm.mem_iff, List.mem_cons]
        exact ⟨.inr, fun h => h.resolve_left hq⟩
    · intro q hs
      by_cases hq : q = p
      · subst hq
        exact Function.update_self _ _ _
      · exact (Function.update_of_ne hq _ _).trans (hp.fresh q hs)

theorem placed_start (limit : UInt32) : (start limit).Placed :=
  ⟨List.nodup_nil, fun _ => iff_of_false List.not_mem_nil Bool.false_ne_true, fun _ _ => rfl⟩

theorem Placed.step (hp : b.Placed) (h : b.step e = some b') : b'.Placed := by
  cases e with
  | register a =>
    cases h
    exact hp.register a
  | dispatch => exact (dispatch_moves h).placed hp
  | complete p => exact (complete_moves h).placed hp
  | delete id =>
    cases h
    exact hp.delete id

end AnswerBook

end Aiqb
