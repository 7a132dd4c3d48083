import Aiqb.ProblemsKept
import Aiqb.StoreSteps

namespace Aiqb
set_option autoImplicit true

def ProblemBook.Has (b : ProblemBook) (stored : List StoredProblem) : Prop :=
  ∀ r ∈ stored, ∃ p ∈ b.places, ∃ a, b.val p = some a ∧ a.header.id = r.id

/-- What holds of a daemon whatever ids its database has. -/
structure ProblemStore.Tracks (s : ProblemStore) (b : ProblemBook) : Prop where
  keeps : s.side.Keeps b
  apart : b.Apart
  has : b.Has s.stored

namespace ProblemBook

variable {b b' : ProblemBook} {e : ProblemEvent} {stored : List StoredProblem}

theorem Has.register (h : b.Has stored) (hsize : b.size ∉ b.places) (time : UInt64)
    {r : StoredProblem} (hr : r.id = b.autoIncrement) :
    (b.register time).Has (stored ++ [r]) := by
  have hplaces := register_places b time
  intro r' hr'
  rcases List.mem_append.mp hr' with hr' | hr'
  · obtain ⟨p, hp, a, ha, hid⟩ := h r' hr'
    have hne : p ≠ b.size := fun he => hsize (he ▸ hp)
    exact ⟨p, hplaces.mem_iff.mpr (List.mem_cons_of_mem _ hp), a,
      (Function.update_of_ne hne _ _).trans ha, hid⟩
  · cases List.mem_singleton.mp hr'
    exact ⟨b.size, hplaces.mem_iff.mpr List.mem_cons_self, _, Function.update_self _ _ _, hr.symm⟩

theorem Has.step (h : b.Has stored) (hsize : b.size ∉ b.places) (he : ∀ time, e ≠ .register time)
    (hs : b.step e = some b') : b'.Has stored := by
  intro r hr
  obtain ⟨p, hp, a, ha, hid⟩ := h r hr
  have hne : p ≠ b.size := fun he => hsize (he ▸ hp)
  obtain ⟨a', ha', hid'⟩ := step_val hs ha hne
  exact ⟨p, (step_places hs he).mem_iff.mpr hp, a', ha', hid'.trans hid⟩

theorem Has.complete (h : b.Has stored) (id : UInt64) :
    b.Has (stored.map (StoredProblem.complete id)) := by
  intro r hr
  obtain ⟨r', hr', rfl⟩ := List.mem_map.mp hr
  rw [StoredProblem.complete_id]
  exact h r' hr'

end ProblemBook

/-- A registration takes the next id, and either stores the problem under it or nothing. -/
theorem registerProblem_side (h : registerProblem t s r = some (s', res)) :
    (s'.side = skipId s.side ∧ s'.stored = s.stored) ∨
      ∃ q : StoredProblem, q.id = s.side.autoIncrement ∧ s'.side = registerAtom s.side r.time ∧
        s'.stored = s.stored ++ [q] := by
  simp only [registerProblem] at h
  split at h
  · cases h
    exact .inl ⟨rfl, rfl⟩
  · split at h
    · cases h
      exact .inl ⟨rfl, rfl⟩
    · split at h
      · cases h
      · cases h
        exact .inl ⟨rfl, rfl⟩
      · split at h
        · cases h
          exact .inl ⟨rfl, rfl⟩
        · split at h
          · cases h
            exact .inl ⟨rfl, rfl⟩
          · cases h
            exact .inr ⟨_, rfl, rfl, rfl⟩

namespace ProblemStore.Tracks

variable {t : Tree} {s s' : ProblemStore} {b : ProblemBook} {p : Ptr}

theorem onProblem {side : ProblemSide} (h : s.Tracks b) (he : ∀ time, e ≠ .register time)
    (hs : problemStep s.side e = some side) :
    ∃ b', side.Keeps b' ∧ b'.Apart ∧ b'.Has s.stored := by
  have hsize := h.keeps.size_notMem h.apart
  obtain ⟨b', hb, hk⟩ := optionRel_left (h.keeps.step h.apart e) hs
  exact ⟨b', hk, h.apart.step hsize hb, h.has.step hsize he hb⟩

theorem onSide (h : s.Tracks b) (he : ∀ time, e ≠ .register time) (hs : s.onSide e = some s') :
    ∃ b', s'.Tracks b' := by
  obtain ⟨side, hside, rfl⟩ := Option.map_eq_some_iff.mp hs
  obtain ⟨b', hk, hb, hhas⟩ := h.onProblem he hside
  exact ⟨b', hk, hb, hhas⟩

theorem register (h : s.Tracks b) (hs : registerProblem t s r = some (s', res)) :
    ∃ b', s'.Tracks b' := by
  have hsize := h.keeps.size_notMem h.apart
  rcases registerProblem_side hs with ⟨hside, hstored⟩ | ⟨q, hq, hside, hstored⟩
  · refine ⟨b.skipId, hside ▸ h.keeps.skipId, ⟨h.apart.nodup, h.apart.live⟩, ?_⟩
    rw [hstored]
    exact h.has
  · refine ⟨b.register r.time, hside ▸ h.keeps.register r.time, h.apart.register hsize r.time, ?_⟩
    rw [hstored]
    exact h.has.register hsize r.time (hq.trans h.keeps.autoIncrement)

theorem complete (h : s.Tracks b) (hs : handlingProblem t s p now pad = some s') :
    ∃ b', s'.Tracks b' := by
  obtain ⟨side, a, hside, _, ⟨_, rfl⟩ | ⟨files, _, rfl⟩⟩ := handlingProblem_cases hs
  · obtain ⟨b', hk, hb, hhas⟩ := h.onProblem (e := .markSolved p) nofun hside
    exact ⟨b', hk, hb, hhas⟩
  · obtain ⟨b', hk, hb, hhas⟩ := h.onProblem (e := .markSolved p) nofun hside
    exact ⟨b', hk, hb, hhas.complete a.header.id⟩

theorem step (h : s.Tracks b) (he : ∀ cwd size entries, e ≠ .restart cwd size entries)
    (hs : storeStep t s e = some s') : ∃ b', s'.Tracks b' := by
  cases e with
  | register r =>
    obtain ⟨⟨store, res⟩, hreg, rfl⟩ := Option.map_eq_some_iff.mp hs
    exact h.register hreg
  | insert atom => exact h.onSide (e := .insert atom) nofun hs
  | dispatch => exact h.onSide (e := .dispatch) nofun hs
  | complete problem now pad => exact h.complete hs
  | takeSolved problem => exact h.onSide (e := .takeSolved problem) nofun hs
  | giveBack atom => exact h.onSide (e := .giveBack atom) nofun hs
  | restart cwd size entries => exact absurd rfl (he cwd size entries)

end ProblemStore.Tracks

end Aiqb
