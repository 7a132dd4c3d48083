import Aiqb.Answer
import Aiqb.LoadDb
import Aiqb.Loops

namespace Aiqb
set_option autoImplicit true

open Loops

/-- A store while it is released: the memory, the variable of the loop, and the nodes that were
freed. -/
structure Release (α : Type) where
  heap : Heap α
  atom : Ptr
  freed : List Ptr

namespace Release

section Releasing

variable {α : Type}

/-- One turn of the loop that releases a ring; `null` is the null pointer. -/
def turn (free : Heap α → Ptr → Option (Heap α)) (null : Ptr) (r : Release α) :
    Option (Release α) := do
  let deleted := r.atom
  let prev ← r.heap.prevOf r.atom
  let h ← r.heap.setNext prev null
  let atom ← h.nextOf r.atom
  let h ← free h deleted
  some ⟨h, atom, r.freed ++ [deleted]⟩

def goesOn (null : Ptr) (r : Release α) : Bool := r.atom ≠ null

def loop (free : Heap α → Ptr → Option (Heap α)) (null : Ptr) :
    Nat → Release α → Outcome (Release α) :=
  whileLoop (goesOn null) fun _ r => .ofOption (r.turn free null)

def ring (free : Heap α → Ptr → Option (Heap α)) (null : Ptr) (h : Heap α) (head : Ptr)
    (turns : Nat) : Outcome (Release α) :=
  if head = null then .finished ⟨h, head, []⟩
  else (Outcome.ofOption (h.nextOf head)).bind fun atom => loop free null turns ⟨h, atom, []⟩

end Releasing

def freeAtom (null : Ptr) (h : Heap FsdbT) (atom : Ptr) : Option (Heap FsdbT) :=
  if atom = null then some h else h.free atom

/-- The data, which is no node, is freed before the answer that points to it. -/
def freeAnswer (null : Ptr) (h : Heap AnswerT) (answer : Ptr) : Option (Heap AnswerT) :=
  if answer = null then some h
  else do
    let _ ← h.valOf answer
    h.free answer

def freeDb (null : Ptr) : Heap FsdbT → Ptr → Nat → Outcome (Release FsdbT) :=
  ring (freeAtom null) null

def freeQueue (null : Ptr) : Heap AnswerT → Ptr → Nat → Outcome (Release AnswerT) :=
  ring (freeAnswer null) null

end Release

/-- The release comes to an end without an access to a freed node, and then each node of the ring
was freed once, and no other one. -/
def ReleasesOnce (release : Nat → Outcome (Release α)) (h : Heap α) (xs : List Ptr) : Prop :=
  ∃ r, Settles release (.finished r) ∧ r.freed.Perm xs ∧ (∀ p ∈ xs, ¬ r.heap.Live p) ∧
    h.SameLinks r.heap xs ∧ ∀ p, p ∉ xs → r.heap.valOf p = h.valOf p

section Rings

variable {α : Type} {h : Heap α} {free : Heap α → Ptr → Option (Heap α)} {null d q : Ptr}

def Frees (free : Heap α → Ptr → Option (Heap α)) (null : Ptr) : Prop :=
  ∀ h p, p ≠ null → h.Live p → free h p = h.free p

theorem freeAtom_frees (null : Ptr) : Frees (Release.freeAtom null) null := by
  intro h p hp _
  exact if_neg hp

theorem freeAnswer_frees (null : Ptr) : Frees (Release.freeAnswer null) null := by
  intro h p hp hlive
  obtain ⟨a, ha⟩ := Heap.live_iff_val.mp hlive
  rw [Release.freeAnswer, if_neg hp, ha]
  rfl

theorem ne_null (hnull : ¬ h.Live null) (hp : h.Live p) : p ≠ null := by
  rintro rfl
  exact hnull hp

theorem release_ring (hd : h.Live d) (hnull : ¬ h.Live null) (hn : h.nextOf d = some q) :
    Release.ring free null h d = fun n => Release.loop free null n ⟨h, q, []⟩ := by
  funext n
  rw [Release.ring, if_neg (ne_null hnull hd), hn]
  rfl

/-- A turn at a node whose predecessor is in use frees the node, and goes on with the next one. -/
theorem turn_spec (hf : Frees free null) (hnull : p ≠ null) (hp : h.Live p) (hprev : h.Live q)
    (hq : h.prevOf p = some q) (freed : List Ptr) :
    ∃ h' r, Release.turn free null ⟨h, p, freed⟩ = some ⟨h', r, freed ++ [p]⟩ ∧
      Function.update h.nextOf q (some null) p = some r ∧
      h'.nextOf = Function.update (Function.update h.nextOf q (some null)) p none ∧
      h'.prevOf = Function.update h.prevOf p none ∧
      h'.valOf = Function.update h.valOf p none := by
  obtain ⟨h₁, hset, _, hn₁, hp₁, hv₁⟩ := Heap.setNext_spec hprev null
  have hlive : h₁.Live p := by
    rw [Heap.live_iff_val, hv₁]
    exact Heap.live_iff_val.mp hp
  obtain ⟨nd, hnd⟩ := Option.isSome_iff_exists.mp hlive
  have hnext : h₁.nextOf p = some nd.next := congrArg (Option.map Node.next) hnd
  obtain ⟨h₂, hfree, _, hn₂, hp₂, hv₂⟩ := Heap.free_spec hlive
  refine ⟨h₂, nd.next, ?_, ?_, ?_, ?_, ?_⟩
  · simp only [Release.turn, hq, hset, hnext, hf h₁ p hnull hlive, hfree, Option.bind_eq_bind,
      Option.bind_some]
  · rw [← hn₁, hnext]
  · rw [hn₂, hn₁]
  · rw [hp₂, hp₁]
  · rw [hv₂, hv₁]

/-- A turn at a node whose predecessor was freed writes to the freed node. -/
theorem turn_undefined (hprev : ¬ h.Live q) (hq : h.prevOf p = some q) (freed : List Ptr) :
    Release.turn free null ⟨h, p, freed⟩ = none := by
  have hwrite : h.setNext q null = none := Heap.write_dead _ hprev
  simp only [Release.turn, hq, hwrite, Option.bind_eq_bind, Option.bind_some, Option.bind_none]

theorem loop_turn {r r' : Release α} (hr : r.atom ≠ null) (ht : r.turn free null = some r')
    (hend : Settles (fun n => Release.loop free null n r') o) :
    Settles (fun n => Release.loop free null n r) o := by
  have hturn : Settles (fun _ => Outcome.ofOption (r.turn free null)) (.finished r') := by
    rw [ht]
    exact .const _
  have hc : r.goesOn null = true := decide_eq_true hr
  exact settles_turn hc hturn hend

theorem loop_undefined {r : Release α} (hr : r.atom ≠ null) (ht : r.turn free null = none) :
    Settles (fun n => Release.loop free null n r) .undefined := by
  have hturn : Settles (fun _ => Outcome.ofOption (r.turn free null)) .undefined := by
    rw [ht]
    exact .const _
  have hc : r.goesOn null = true := decide_eq_true hr
  exact settles_undefined hc hturn

theorem loop_stop (h : Heap α) (freed : List Ptr) :
    Settles (fun n => Release.loop free null n ⟨h, null, freed⟩) (.finished ⟨h, null, freed⟩) := by
  apply settles_stop
  exact decide_eq_false (not_not_intro rfl)

theorem releases_one (hf : Frees free null) (hnull : ¬ h.Live null)
    (hr : Ring h (some d) [d]) : ReleasesOnce (Release.ring free null h d) h [d] := by
  have hlive : h.Live d := hr.live List.mem_cons_self
  have hlink : h.Linked d d := by
    obtain ⟨_, hl⟩ := (Heap.chain_cycle (List.cons_ne_nil d [])).mp hr.linked
    exact hl
  obtain ⟨h', r, ht, hnext, hn', hp', hv'⟩ :=
    turn_spec hf (ne_null hnull hlive) hlive hlive hlink.2 []
  rw [Function.update_self] at hnext
  cases hnext
  refine ⟨⟨h', null, [d]⟩, ?_, .refl _, ?_, ?_, ?_⟩
  · rw [release_ring hlive hnull hlink.1]
    apply loop_turn (ne_null hnull hlive) ht
    exact loop_stop h' [d]
  · intro p hp
    rw [List.mem_singleton.mp hp, Heap.live_iff_val, hv', Function.update_self]
    rintro ⟨_, ⟨⟩⟩
  · intro p hp
    have hne : p ≠ d := List.mem_singleton.not.mp hp
    rw [hn', hp', Function.update_of_ne hne, Function.update_of_ne hne, Function.update_of_ne hne]
    exact ⟨rfl, rfl⟩
  · intro p hp
    rw [hv', Function.update_of_ne (List.mem_singleton.not.mp hp)]

theorem ring_links (hr : Ring h (some d) (d :: q :: xs)) :
    q ≠ d ∧ h.Linked d q ∧ ∃ r, h.Linked q r ∧ r ≠ q := by
  have hchain := (Cycle.chain_coe_cons _ _ _).mp hr.linked
  have hne : q ≠ d := by
    rintro rfl
    exact (List.nodup_cons.mp hr.nodup).1 List.mem_cons_self
  refine ⟨hne, (List.isChain_cons_cons.mp hchain).1, ?_⟩
  have hrest := (List.isChain_cons_cons.mp hchain).2
  cases xs with
  | nil => exact ⟨d, (List.isChain_cons_cons.mp hrest).1, hne.symm⟩
  | cons r xs =>
    refine ⟨r, (List.isChain_cons_cons.mp hrest).1, ?_⟩
    rintro rfl
    exact (List.nodup_cons.mp (List.nodup_cons.mp hr.nodup).2).1 List.mem_cons_self

/-- A longer ring is not: the second turn writes to the node that the first one freed. -/
theorem release_undefined (hf : Frees free null) (hnull : ¬ h.Live null)
    (hr : Ring h (some d) (d :: q :: xs)) :
    Settles (Release.ring free null h d) .undefined := by
  obtain ⟨hne, hdq, r, hqr, hrq⟩ := ring_links hr
  have hd : h.Live d := hr.live List.mem_cons_self
  have hq : h.Live q := Heap.live_of_prev hdq.2
  have hlive : h.Live r := Heap.live_of_prev hqr.2
  obtain ⟨h', r', ht, hnext, _, hp', hv'⟩ :=
    turn_spec hf (ne_null hnull hq) hq hd hdq.2 []
  rw [Function.update_of_ne hne, hqr.1] at hnext
  cases hnext
  rw [release_ring hd hnull hdq.1]
  apply loop_turn (ne_null hnull hq) ht
  apply loop_undefined (ne_null hnull hlive)
  have hfreed : ¬ h'.Live q := by
    rw [Heap.live_iff_val, hv', Function.update_self]
    rintro ⟨_, ⟨⟩⟩
  apply turn_undefined hfreed
  rw [hp', Function.update_of_ne hrq]
  exact hqr.2

theorem releases_once_iff (hf : Frees free null) (hnull : ¬ h.Live null)
    (hr : Ring h (some d) xs) :
    ReleasesOnce (Release.ring free null h d) h xs ↔ xs.length = 1 := by
  obtain ⟨ys, rfl⟩ := hr.head_some
  cases ys with
  | nil => exact iff_of_true (releases_one hf hnull hr) rfl
  | cons q ys =>
    refine iff_of_false ?_ (by simp)
    rintro ⟨r, hend, _⟩
    cases hend.unique (release_undefined hf hnull hr)

theorem exists_ring (a : α) (n : Nat) :
    ∃ (h : Heap α) (d : Ptr) (xs : List Ptr), Ring h (some d) xs ∧ xs.length = n + 1 := by
  suffices hring : ∃ (h : Heap α) (head : Option Ptr) (xs : List Ptr),
      Ring h head xs ∧ xs.length = n + 1 by
    obtain ⟨h, head, xs, hr, hlen⟩ := hring
    cases head with
    | none =>
      rw [hr.head_none] at hlen
      cases hlen
    | some d => exact ⟨h, d, xs, hr, hlen⟩
  have hadd : ∀ (h : Heap α) (head : Option Ptr) (xs : List Ptr), Ring h head xs →
      ∃ (h' : Heap α) (head' : Option Ptr), Ring h' head' (xs ++ [h.size]) := by
    intro h head xs hr
    have hnew : (h.alloc a).Live h.size := by
      rw [Heap.live_iff_val, Heap.alloc_valOf, Function.update_self]
      exact ⟨a, rfl⟩
    have hfresh : h.size ∉ xs := fun hp => h.size_not_live (hr.live hp)
    obtain ⟨h', head', _, hr', _⟩ := (hr.alloc a).insertTail hnew hfresh
    exact ⟨h', head', hr'⟩
  induction n with
  | zero =>
    obtain ⟨h, head, hr⟩ := hadd .empty none [] (Ring.nil _)
    exact ⟨h, head, _, hr, rfl⟩
  | succ n ih =>
    obtain ⟨h, head, xs, hr, hlen⟩ := ih
    obtain ⟨h', head', hr'⟩ := hadd h head xs hr
    exact ⟨h', head', _, hr', by rw [List.length_append, hlen]; rfl⟩

end Rings

section Databases

variable {h : Heap FsdbT} {null d : Ptr} {xs : List Ptr}

theorem freeDb_one (hr : Ring h (some d) [d]) :
    ∃ h', freeDb h (some d) = some h' ∧ h'.valOf = Function.update h.valOf d none := by
  have hlive : h.Live d := hr.live List.mem_cons_self
  obtain ⟨_, hn, hp⟩ := (Heap.chain_cycle (List.cons_ne_nil d [])).mp hr.linked
  obtain ⟨h', hfree, _, _, _, hv⟩ := Heap.free_spec hlive
  obtain ⟨size, hsize⟩ := Nat.exists_eq_add_of_lt hlive.lt_size
  refine ⟨h', ?_, hv⟩
  have hlast : h.nextOf d = some d := hn
  have hprev : h.prevOf d = some d := hp
  have hcell : (h.cell d).isSome = true := hlive
  simp only [freeDb, hlast, Option.bind_eq_bind, Option.bind_some, freeAtoms, hprev, hcell, if_true,
    hfree, List.mem_singleton, hsize]

theorem freeDb_longer (hr : Ring h (some d) (d :: q :: xs)) : freeDb h (some d) = none := by
  obtain ⟨hne, hdq, r, hqr, hrq⟩ := ring_links hr
  have hq : h.Live q := Heap.live_of_prev hdq.2
  have hcell : (h.cell d).isSome = true := hr.live List.mem_cons_self
  obtain ⟨h', hfree, _, _, hp, hv⟩ := Heap.free_spec hq
  have hback : h'.prevOf r = some q := by
    rw [hp, Function.update_of_ne hrq]
    exact hqr.2
  have hfreed : ¬ (h'.cell q).isSome = true := by
    rw [← Heap.Live, Heap.live_iff_val, hv, Function.update_self]
    rintro ⟨_, ⟨⟩⟩
  obtain ⟨size, hsize⟩ := Nat.exists_eq_add_of_lt hq.lt_size
  simp only [freeDb, hdq.1, Option.bind_eq_bind, Option.bind_some, freeAtoms, hdq.2, hcell,
    if_true, hqr.1, hfree, List.mem_singleton, if_neg hne, hsize, hback, if_neg hfreed]

/-- The release that a failed load makes is this one. -/
theorem freeDb_iff (hnull : ¬ h.Live null) (hr : Ring h (some d) xs) :
    (∃ h', freeDb h (some d) = some h' ∧ ∀ p ∈ xs, ¬ h'.Live p) ↔
      ReleasesOnce (Release.freeDb null h d) h xs := by
  rw [Release.freeDb, releases_once_iff (freeAtom_frees null) hnull hr]
  obtain ⟨ys, rfl⟩ := hr.head_some
  cases ys with
  | nil =>
    obtain ⟨h', he, hv⟩ := freeDb_one hr
    refine iff_of_true ⟨h', he, ?_⟩ rfl
    intro p hp
    rw [List.mem_singleton.mp hp, Heap.live_iff_val, hv, Function.update_self]
    rintro ⟨_, ⟨⟩⟩
  | cons q ys =>
    refine iff_of_false ?_ (by simp)
    rintro ⟨h', he, _⟩
    rw [freeDb_longer hr] at he
    cases he

end Databases

/-- Both releases are clean for the stores of one node, and for no larger ones. -/
theorem stores_released_iff (null : Ptr) :
    (∀ (h : Heap FsdbT) (db : Ptr) (xs : List Ptr), ¬ h.Live null → Ring h (some db) xs →
      (ReleasesOnce (Release.freeDb null h db) h xs ↔ xs.length = 1)) ∧
    ∀ (h : Heap AnswerT) (queue : Ptr) (xs : List Ptr), ¬ h.Live null → Ring h (some queue) xs →
      (ReleasesOnce (Release.freeQueue null h queue) h xs ↔ xs.length = 1) := by
  constructor
  · intro h db xs hnull hr
    exact releases_once_iff (freeAtom_frees null) hnull hr
  · intro h queue xs hnull hr
    exact releases_once_iff (freeAnswer_frees null) hnull hr

def FsdbT.sample : FsdbT := ⟨cstr "d/1", ⟨1, 0, 0, 0, statusNew⟩⟩

theorem stores_released_iff_one :
    (∃ (null : Ptr) (h : Heap FsdbT) (db : Ptr) (xs : List Ptr), ¬ h.Live null ∧
      Ring h (some db) xs ∧ (ReleasesOnce (Release.freeDb null h db) h xs ↔ xs.length = 1)) ∧
    ∃ (null : Ptr) (h : Heap AnswerT) (queue : Ptr) (xs : List Ptr), ¬ h.Live null ∧
      Ring h (some queue) xs ∧
      (ReleasesOnce (Release.freeQueue null h queue) h xs ↔ xs.length = 1) := by
  constructor
  · obtain ⟨h, db, xs, hr, _⟩ := exists_ring FsdbT.sample 0
    exact ⟨h.size, h, db, xs, h.size_not_live, hr,
      (stores_released_iff h.size).1 h db xs h.size_not_live hr⟩
  · obtain ⟨h, queue, xs, hr, _⟩ := exists_ring (⟨1, 0, 0, statusNew, none, none⟩ : AnswerT) 0
    exact ⟨h.size, h, queue, xs, h.size_not_live, hr,
      (stores_released_iff h.size).2 h queue xs h.size_not_live hr⟩

/-- A database of two problems. -/
theorem store_not_released : ∃ (null : Ptr) (h : Heap FsdbT) (db : Ptr) (xs : List Ptr),
    ¬ h.Live null ∧ Ring h (some db) xs ∧ xs.length = 2 ∧
    Settles (Release.freeDb null h db) .undefined ∧
    ¬ ReleasesOnce (Release.freeDb null h db) h xs := by
  obtain ⟨h, db, xs, hr, hlen⟩ := exists_ring FsdbT.sample 1
  have hfrees := freeAtom_frees h.size
  refine ⟨h.size, h, db, xs, h.size_not_live, hr, hlen, ?_, ?_⟩
  · obtain ⟨ys, rfl⟩ := hr.head_some
    cases ys with
    | nil => cases hlen
    | cons q ys => exact release_undefined hfrees h.size_not_live hr
  · intro hreleased
    have hone := (releases_once_iff hfrees h.size_not_live hr).mp hreleased
    rw [hlen] at hone
    cases hone

end Aiqb
