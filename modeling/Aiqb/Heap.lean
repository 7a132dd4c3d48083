import Mathlib.Data.Nat.Init
import Mathlib.Logic.Function.Basic

namespace Aiqb
set_option autoImplicit true

abbrev Ptr := Nat

/-- A list node in memory: its two links and what it carries. -/
structure Node (α : Type) where
  next : Ptr
  prev : Ptr
  val : α

/-- Memory for nodes. No address from `size` on is in use. -/
structure Heap (α : Type) where
  size : Nat
  cell : Ptr → Option (Node α)
  bound : ∀ p, size ≤ p → cell p = none

namespace Heap

def empty : Heap α := ⟨0, fun _ => none, fun _ _ => rfl⟩

def nextOf (h : Heap α) (p : Ptr) : Option Ptr := (h.cell p).map Node.next
def prevOf (h : Heap α) (p : Ptr) : Option Ptr := (h.cell p).map Node.prev
def valOf (h : Heap α) (p : Ptr) : Option α := (h.cell p).map Node.val

def Live (h : Heap α) (p : Ptr) : Prop := (h.cell p).isSome

theorem Live.lt_size {h : Heap α} (hp : h.Live p) : p < h.size := by
  by_contra hlt
  rw [Live, h.bound p (Nat.le_of_not_gt hlt)] at hp
  cases hp

theorem live_iff_val {h : Heap α} : h.Live p ↔ ∃ a, h.valOf p = some a := by
  simp only [Live, valOf, Option.isSome_iff_exists, Option.map_eq_some_iff]
  exact ⟨fun ⟨nd, hnd⟩ => ⟨nd.val, nd, hnd, rfl⟩, fun ⟨_, nd, hnd, _⟩ => ⟨nd, hnd⟩⟩

theorem live_of_val {h : Heap α} (hv : h.valOf p = some a) : h.Live p :=
  live_iff_val.mpr ⟨a, hv⟩

theorem live_of_next {h : Heap α} (hn : h.nextOf p = some q) : h.Live p := by
  simp only [nextOf, Option.map_eq_some_iff] at hn
  obtain ⟨nd, hnd, _⟩ := hn
  simp only [Live, hnd, Option.isSome_some]

theorem live_of_prev {h : Heap α} (hn : h.prevOf p = some q) : h.Live p := by
  simp only [prevOf, Option.map_eq_some_iff] at hn
  obtain ⟨nd, hnd, _⟩ := hn
  simp only [Live, hnd, Option.isSome_some]

/-- A fresh node. Its links are not meaningful yet. -/
def alloc (h : Heap α) (v : α) : Heap α where
  size := h.size + 1
  cell := Function.update h.cell h.size (some ⟨h.size, h.size, v⟩)
  bound p hp := by
    have hlt : h.size < p := hp
    rw [Function.update_of_ne (Nat.ne_of_gt hlt)]
    exact h.bound p (Nat.le_of_lt hlt)

def reserve (h : Heap α) : Heap α where
  size := h.size + 1
  cell := h.cell
  bound p hp := h.bound p (Nat.le_of_succ_le hp)

/-- Writing through a pointer is undefined unless it points to a node in use. -/
def write (h : Heap α) (p : Ptr) (f : Node α → Option (Node α)) : Option (Heap α) :=
  match hp : h.cell p with
  | none => none
  | some nd => some
    { size := h.size
      cell := Function.update h.cell p (f nd)
      bound := by
        intro q hq
        have hne : q ≠ p := by
          rintro rfl
          simp only [h.bound q hq, reduceCtorEq] at hp
        rw [Function.update_of_ne hne]
        exact h.bound q hq }

def setNext (h : Heap α) (p q : Ptr) : Option (Heap α) :=
  h.write p fun nd => some { nd with next := q }

def setPrev (h : Heap α) (p q : Ptr) : Option (Heap α) :=
  h.write p fun nd => some { nd with prev := q }

def setVal (h : Heap α) (p : Ptr) (v : α) : Option (Heap α) :=
  h.write p fun nd => some { nd with val := v }

def free (h : Heap α) (p : Ptr) : Option (Heap α) :=
  h.write p fun _ => none

theorem write_live {h : Heap α} (f : Node α → Option (Node α)) (hp : h.cell p = some nd) :
    ∃ h', h.write p f = some h' ∧ h'.size = h.size ∧
      h'.cell = Function.update h.cell p (f nd) := by
  unfold write
  split
  · next hn => rw [hn] at hp; cases hp
  · next nd' hn =>
    rw [hn] at hp
    cases hp
    exact ⟨_, rfl, rfl, rfl⟩

theorem write_dead {h : Heap α} (f : Node α → Option (Node α)) (hp : ¬ h.Live p) :
    h.write p f = none := by
  unfold write
  split
  · rfl
  · next hn => exact (hp (by rw [Live, hn]; rfl)).elim

theorem map_update (c : Ptr → Option (Node α)) (f : Node α → β) (p : Ptr)
    (o : Option (Node α)) :
    (fun q => (Function.update c p o q).map f) =
      Function.update (fun q => (c q).map f) p (o.map f) := by
  funext q
  by_cases hq : q = p
  · subst hq; simp only [Function.update_self]
  · simp only [Function.update_of_ne hq]

theorem map_update_same (c : Ptr → Option (Node α)) (f : Node α → β) (hp : c p = some nd)
    (hf : f nd' = f nd) :
    (fun q => (Function.update c p (some nd') q).map f) = fun q => (c q).map f := by
  rw [map_update, Function.update_eq_self_iff, hp, Option.map_some, Option.map_some, hf]

theorem setNext_spec {h : Heap α} (hp : h.Live p) (q : Ptr) :
    ∃ h', h.setNext p q = some h' ∧ h'.size = h.size ∧
      h'.nextOf = Function.update h.nextOf p (some q) ∧
      h'.prevOf = h.prevOf ∧ h'.valOf = h.valOf := by
  obtain ⟨nd, hnd⟩ := Option.isSome_iff_exists.mp hp
  obtain ⟨h', he, hs, hc⟩ := write_live (fun nd => some { nd with next := q }) hnd
  refine ⟨h', he, hs, ?_, ?_, ?_⟩
  · unfold nextOf; rw [hc, map_update]; rfl
  · unfold prevOf; rw [hc]; exact map_update_same _ _ hnd rfl
  · unfold valOf; rw [hc]; exact map_update_same _ _ hnd rfl

theorem setPrev_spec {h : Heap α} (hp : h.Live p) (q : Ptr) :
    ∃ h', h.setPrev p q = some h' ∧ h'.size = h.size ∧
      h'.prevOf = Function.update h.prevOf p (some q) ∧
      h'.nextOf = h.nextOf ∧ h'.valOf = h.valOf := by
  obtain ⟨nd, hnd⟩ := Option.isSome_iff_exists.mp hp
  obtain ⟨h', he, hs, hc⟩ := write_live (fun nd => some { nd with prev := q }) hnd
  refine ⟨h', he, hs, ?_, ?_, ?_⟩
  · unfold prevOf; rw [hc, map_update]; rfl
  · unfold nextOf; rw [hc]; exact map_update_same _ _ hnd rfl
  · unfold valOf; rw [hc]; exact map_update_same _ _ hnd rfl

theorem setVal_spec {h : Heap α} (hp : h.Live p) (v : α) :
    ∃ h', h.setVal p v = some h' ∧ h'.size = h.size ∧
      h'.valOf = Function.update h.valOf p (some v) ∧
      h'.nextOf = h.nextOf ∧ h'.prevOf = h.prevOf := by
  obtain ⟨nd, hnd⟩ := Option.isSome_iff_exists.mp hp
  obtain ⟨h', he, hs, hc⟩ := write_live (fun nd => some { nd with val := v }) hnd
  refine ⟨h', he, hs, ?_, ?_, ?_⟩
  · unfold valOf; rw [hc, map_update]; rfl
  · unfold nextOf; rw [hc]; exact map_update_same _ _ hnd rfl
  · unfold prevOf; rw [hc]; exact map_update_same _ _ hnd rfl

theorem free_spec {h : Heap α} (hp : h.Live p) :
    ∃ h', h.free p = some h' ∧ h'.size = h.size ∧
      h'.nextOf = Function.update h.nextOf p none ∧
      h'.prevOf = Function.update h.prevOf p none ∧
      h'.valOf = Function.update h.valOf p none := by
  obtain ⟨nd, hnd⟩ := Option.isSome_iff_exists.mp hp
  obtain ⟨h', he, hs, hc⟩ := write_live (fun _ => none) hnd
  refine ⟨h', he, hs, ?_, ?_, ?_⟩
  · unfold nextOf; rw [hc, map_update]; rfl
  · unfold prevOf; rw [hc, map_update]; rfl
  · unfold valOf; rw [hc, map_update]; rfl

theorem alloc_nextOf (h : Heap α) (v : α) :
    (h.alloc v).nextOf = Function.update h.nextOf h.size (some h.size) :=
  map_update _ _ _ _

theorem alloc_prevOf (h : Heap α) (v : α) :
    (h.alloc v).prevOf = Function.update h.prevOf h.size (some h.size) :=
  map_update _ _ _ _

theorem alloc_valOf (h : Heap α) (v : α) :
    (h.alloc v).valOf = Function.update h.valOf h.size (some v) :=
  map_update _ _ _ _

theorem size_not_live (h : Heap α) : ¬ h.Live h.size :=
  fun hl => Nat.lt_irrefl _ hl.lt_size

end Heap

end Aiqb
