import Aiqb.AnswerInvariants

namespace Aiqb
set_option autoImplicit true

def KeepsIds (val val' : Ptr → Option AnswerT) : Prop :=
  ∀ p a', val' p = some a' → ∃ a, val p = some a ∧ (a.id ≠ 0 → a'.id = a.id)

def Tells (val : Ptr → Option AnswerT) (told : List (Ptr × UInt64)) : Prop :=
  ∀ p k a, (p, k) ∈ told → val p = some a → k ≠ 0 → a.id = k

namespace KeepsIds

variable {val val' val'' : Ptr → Option AnswerT} {a c : AnswerT} {p : Ptr}

theorem refl (val : Ptr → Option AnswerT) : KeepsIds val val := fun _ a ha => ⟨a, ha, fun _ => rfl⟩

theorem trans (h : KeepsIds val val') (h' : KeepsIds val' val'') : KeepsIds val val'' := by
  intro p a'' ha''
  obtain ⟨a', ha', hid'⟩ := h' p a'' ha''
  obtain ⟨a, ha, hid⟩ := h p a' ha'
  refine ⟨a, ha, ?_⟩
  intro h0
  have he := hid h0
  exact (hid' (he ▸ h0)).trans he

theorem update (hv : val p = some c) (hid : c.id ≠ 0 → a.id = c.id) :
    KeepsIds val (Function.update val p (some a)) := by
  intro q a' ha'
  by_cases hq : q = p
  · subst hq
    rw [Function.update_self, Option.some.injEq] at ha'
    exact ⟨c, hv, ha' ▸ hid⟩
  · rw [Function.update_of_ne hq] at ha'
    exact ⟨a', ha', fun _ => rfl⟩

theorem number (hv : val p = some c) (xs : List Ptr) :
    KeepsIds val (AnswerBook.number val xs p c) := by
  apply update hv
  intro h0
  exact if_neg h0

theorem remove (val : Ptr → Option AnswerT) (p : Ptr) :
    KeepsIds val (Function.update val p none) := by
  intro q a' ha'
  by_cases hq : q = p
  · subst hq
    rw [Function.update_self] at ha'
    cases ha'
  · rw [Function.update_of_ne hq] at ha'
    exact ⟨a', ha', fun _ => rfl⟩

end KeepsIds

namespace Tells

variable {val val' : Ptr → Option AnswerT} {told : List (Ptr × UInt64)} {a : AnswerT} {p : Ptr}

theorem nil (val : Ptr → Option AnswerT) : Tells val [] :=
  fun _ _ _ hm => absurd hm List.not_mem_nil

theorem keeps (h : Tells val told) (hv : KeepsIds val val') : Tells val' told := by
  intro p k a' hm ha' hk
  obtain ⟨a, ha, hid⟩ := hv p a' ha'
  have he := h p k a hm ha hk
  exact (hid (he ▸ hk)).trans he

theorem snoc (h : Tells val told) (hp : ∀ k, (p, k) ∉ told) (a : AnswerT) :
    Tells (Function.update val p (some a)) (told ++ [(p, a.id)]) := by
  intro q k c hm hc hk
  rcases List.mem_append.mp hm with hm | hm
  · have hq : q ≠ p := fun he => hp k (he ▸ hm)
    rw [Function.update_of_ne hq] at hc
    exact h q k c hm hc hk
  · cases List.mem_singleton.mp hm
    rw [Function.update_self, Option.some.injEq] at hc
    rw [hc]

end Tells

namespace AnswerBook

variable {b b' : AnswerBook} {told : List (Ptr × UInt64)} {p : Ptr}

theorem dispatch_keeps (h : b.dispatch = some b') : KeepsIds b.val b'.val := by
  rcases dispatch_cases h with rfl | ⟨p, rest, a, _, hv, ⟨_, rfl⟩ | ⟨_, rfl⟩⟩
  · exact .refl _
  · exact (KeepsIds.update (a := { a with status := statusInProgress }) hv fun _ => rfl).trans
      (.number (Function.update_self _ _ _) b.answerQueue)
  · exact .number hv rest

theorem complete_keeps (h : b.complete p = some b') : KeepsIds b.val b'.val := by
  obtain ⟨_, a, hv, ⟨_, rfl⟩ | ⟨q, c, _, hc, rfl⟩⟩ := complete_cases h
  · exact .update hv fun _ => rfl
  · exact (KeepsIds.update (a := { a with status := statusSolved }) hv fun _ => rfl).trans
      (.number hc b.answers)

theorem delete_keeps (b : AnswerBook) (id : UInt64) : KeepsIds b.val (b.delete id).val := by
  rcases delete_cases b id with he | ⟨p, _, he⟩
  · rw [he]
    exact .refl _
  · rw [he]
    exact .remove b.val p

/-- What clients were told about the answers of the book. -/
structure Told (b : AnswerBook) (told : List (Ptr × UInt64)) : Prop where
  placed : b.Placed
  below : ∀ p k, (p, k) ∈ told → p < b.size
  tells : Tells b.val told

theorem told_start (limit : UInt32) : (start limit).Told [] :=
  ⟨placed_start limit, fun _ _ hm => absurd hm List.not_mem_nil, .nil _⟩

theorem Told.join (h : b.Told told) (a : AnswerT) :
    (b.join a).Told (told ++ [(b.size, assignedId (idsOf b.val b.answers) a.id)]) where
  placed := h.placed.join a
  below p k hm := by
    rcases List.mem_append.mp hm with hm | hm
    · exact Nat.lt_succ_of_lt (h.below p k hm)
    · cases List.mem_singleton.mp hm
      exact Nat.lt_succ_self _
  tells := h.tells.snoc (fun k hm => Nat.lt_irrefl _ (h.below _ k hm)) _

theorem Told.mono (h : b.Told told) (hsub : told' ⊆ told) : b.Told told' :=
  ⟨h.placed, fun p k hm => h.below p k (hsub hm), fun p k a hm => h.tells p k a (hsub hm)⟩

theorem delete_size (b : AnswerBook) (id : UInt64) : (b.delete id).size = b.size := by
  rcases delete_cases b id with he | ⟨_, _, he⟩ <;> rw [he]

theorem Told.delete (h : b.Told told) (id : UInt64) : (b.delete id).Told told where
  placed := h.placed.delete id
  below := b.delete_size id ▸ h.below
  tells := h.tells.keeps (b.delete_keeps id)

theorem Told.step (h : b.Told told) (hs : b.step e = some b') : b'.Told told := by
  cases e with
  | register a =>
    cases hs
    exact (h.join { a with id := 0 }).mono (List.subset_append_left _ _)
  | dispatch =>
    exact ⟨h.placed.step (e := .dispatch) hs, (dispatch_moves hs).size ▸ h.below,
      h.tells.keeps (dispatch_keeps hs)⟩
  | complete p =>
    exact ⟨h.placed.step (e := .complete p) hs, (complete_moves hs).size ▸ h.below,
      h.tells.keeps (complete_keeps hs)⟩
  | delete id =>
    cases hs
    exact h.delete id

end AnswerBook

end Aiqb
