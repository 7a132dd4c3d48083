import Mathlib.Data.List.Nodup
import Mathlib.Logic.Function.Iterate
import Mathlib.Logic.Function.Basic

set_option autoImplicit true

/-- Items in line, those that were taken out of it, and what each item carries. -/
structure Rota (α β : Type) where
  line : List α
  queue : List α
  data : α → β

namespace Rota

variable {α β : Type} [DecidableEq α] (fresh : β → Bool) (mark : β → β) (room : Nat → Bool)

/-- A turn for the first in line: when it is fresh it is marked and put into the queue, otherwise it
goes to the end of the line. Without room in the queue nothing happens. -/
def turn (r : Rota α β) : Rota α β :=
  if room r.queue.length then
    match r.line with
    | [] => r
    | p :: rest =>
      if fresh (r.data p) then
        ⟨rest, r.queue ++ [p], Function.update r.data p (mark (r.data p))⟩
      else { r with line := rest ++ [p] }
  else r

def marked (data : α → β) (xs : List α) (p : α) : β :=
  if p ∈ xs ∧ fresh (data p) then mark (data p) else data p

/-- When all had their turn, the fresh ones are in the queue, in order. -/
def served (r : Rota α β) : Rota α β where
  line := r.line.filter fun p => !fresh (r.data p)
  queue := r.queue ++ r.line.filter fun p => fresh (r.data p)
  data := marked fresh mark r.data r.line

def Admits (r : Rota α β) (n : Nat) : Prop := ∀ k < n, room (r.queue.length + k)

variable {fresh mark room} {queue : List α} {data : α → β} {p : α} {xs : List α}

theorem marked_of_not_mem (hp : p ∉ xs) : marked fresh mark data xs p = data p :=
  if_neg fun h => hp h.1

theorem filter_update (hp : p ∉ xs) (b : β) (f : β → Bool) :
    xs.filter (fun q => f (Function.update data p b q)) = xs.filter fun q => f (data q) := by
  apply List.filter_congr
  intro q hq
  have hne : q ≠ p := fun he => hp (he ▸ hq)
  rw [Function.update_of_ne hne]

theorem marked_cons_fresh (hp : p ∉ xs) (hf : fresh (data p)) :
    marked fresh mark (Function.update data p (mark (data p))) xs =
      marked fresh mark data (p :: xs) := by
  funext q
  by_cases hq : q = p
  · subst hq
    rw [marked_of_not_mem hp, Function.update_self, marked,
      if_pos ⟨List.mem_cons_self, hf⟩]
  · simp only [marked, Function.update_of_ne hq, List.mem_cons, hq, false_or]

theorem marked_cons_old (hf : ¬ fresh (data p)) :
    marked fresh mark data xs = marked fresh mark data (p :: xs) := by
  funext q
  by_cases hq : q = p
  · subst hq
    rw [marked, if_neg fun h => hf h.2, marked, if_neg fun h => hf h.2]
  · simp only [marked, List.mem_cons, hq, false_or]

theorem turns_front (mark : β → β) (front back : List α) (hn : front.Nodup)
    (hroom : Admits room ⟨front ++ back, queue, data⟩
      ((front.filter fun p => fresh (data p)).length + 1)) :
    (turn fresh mark room)^[front.length] ⟨front ++ back, queue, data⟩ =
      ⟨back ++ front.filter fun p => !fresh (data p),
        queue ++ front.filter fun p => fresh (data p), marked fresh mark data front⟩ := by
  induction front generalizing back queue data with
  | nil =>
    have hd : marked fresh mark data [] = data := funext fun p => marked_of_not_mem (by simp)
    simp only [List.length_nil, Function.iterate_zero, id_eq, List.nil_append, List.filter_nil,
      List.append_nil, hd]
  | cons p front ih =>
    rw [List.nodup_cons] at hn
    have hnow : room queue.length := hroom 0 (Nat.succ_pos _)
    rw [List.length_cons, Function.iterate_succ_apply]
    by_cases hf : fresh (data p)
    · have hturn : turn fresh mark room ⟨p :: front ++ back, queue, data⟩ =
          ⟨front ++ back, queue ++ [p], Function.update data p (mark (data p))⟩ := by
        simp only [turn, hnow, hf, if_true, List.cons_append]
      have hnew : (p :: front).filter (fun p => fresh (data p)) =
          p :: front.filter fun p => fresh (data p) := List.filter_cons_of_pos hf
      have hold : (p :: front).filter (fun p => !fresh (data p)) =
          front.filter fun p => !fresh (data p) := List.filter_cons_of_neg (by simpa using hf)
      rw [hnew, List.length_cons] at hroom
      rw [hturn, ih back hn.2, filter_update hn.1 _ fresh, filter_update hn.1 _ (!fresh ·),
        marked_cons_fresh hn.1 hf, hnew, hold, List.append_assoc, List.singleton_append]
      intro k hk
      rw [filter_update hn.1 _ fresh] at hk
      have hk' := hroom (k + 1) (Nat.succ_lt_succ hk)
      dsimp only at hk' ⊢
      rw [List.length_append, List.length_singleton, Nat.add_assoc, Nat.add_comm 1 k]
      exact hk'
    · have hturn : turn fresh mark room ⟨p :: front ++ back, queue, data⟩ =
          ⟨front ++ (back ++ [p]), queue, data⟩ := by
        simp only [turn, hnow, hf, if_true, List.cons_append, List.append_assoc]
        rfl
      have hnew : (p :: front).filter (fun p => fresh (data p)) =
          front.filter fun p => fresh (data p) := List.filter_cons_of_neg hf
      have hold : (p :: front).filter (fun p => !fresh (data p)) =
          p :: front.filter fun p => !fresh (data p) := List.filter_cons_of_pos (by simpa using hf)
      rw [hnew] at hroom
      rw [hturn, ih (back ++ [p]) hn.2 hroom, marked_cons_old hf, hnew, hold, List.append_assoc,
        List.singleton_append]

/-- A whole round serves everyone. -/
theorem turns_round (fresh : β → Bool) (r : Rota α β) (hn : r.line.Nodup)
    (hroom : r.Admits room ((r.line.filter fun p => fresh (r.data p)).length + 1)) :
    (turn fresh mark room)^[r.line.length] r = r.served fresh mark := by
  obtain ⟨line, queue, data⟩ := r
  have h := turns_front mark line [] hn (by rw [List.append_nil]; exact hroom)
  rw [List.append_nil, List.nil_append] at h
  exact h

end Rota
