import Aiqb.Rings

namespace Aiqb
set_option autoImplicit true

namespace Heap

/-- Follow `next` until a node matches or the head comes round again. -/
def search (h : Heap α) (m : α → Bool) (head : Ptr) : Nat → Ptr → Option (Option Ptr)
  | 0, _ => none
  | fuel + 1, p => do
    let nd ← h.cell p
    if m nd.val then some (some p)
    else if nd.next = head then some none
    else h.search m head fuel nd.next

def fold (h : Heap α) (f : β → α → β) (head : Ptr) : Nat → Ptr → β → Option β
  | 0, _, _ => none
  | fuel + 1, p, acc => do
    let nd ← h.cell p
    let acc := f acc nd.val
    if nd.next = head then some acc else h.fold f head fuel nd.next acc

def vals (h : Heap α) (xs : List Ptr) : List α := xs.filterMap h.valOf

theorem node_of_next {h : Heap α} (hn : h.nextOf p = some q) :
    ∃ nd, h.cell p = some nd ∧ nd.next = q ∧ h.valOf p = some nd.val := by
  simp only [nextOf, Option.map_eq_some_iff] at hn
  obtain ⟨nd, hc, hq⟩ := hn
  exact ⟨nd, hc, hq, by rw [valOf, hc, Option.map_some]⟩

theorem node_of_chain {h : Heap α} (hc : (p :: q :: xs).IsChain h.Linked) :
    ∃ nd, h.cell p = some nd ∧ nd.next = q ∧ h.valOf p = some nd.val :=
  node_of_next (List.isChain_cons_cons.mp hc).1.1

theorem search_chain {h : Heap α} (m : α → Bool) {d p : Ptr} {ys : List Ptr} {fuel : Nat}
    (hc : (p :: (ys ++ [d])).IsChain h.Linked) (hd : d ∉ ys) (hf : ys.length < fuel) :
    h.search m d fuel p = some ((p :: ys).find? fun q => (h.valOf q).any m) := by
  induction ys generalizing p fuel with
  | nil =>
    obtain ⟨fuel, rfl⟩ := Nat.exists_eq_add_one_of_ne_zero (Nat.ne_zero_of_lt hf)
    obtain ⟨nd, hcell, hnext, hval⟩ := node_of_chain hc
    simp only [search, hcell, Option.bind_eq_bind, Option.bind_some, hnext, ↓reduceIte,
      List.find?_cons, hval, Option.any_some, List.find?_nil]
    cases m nd.val <;> rfl
  | cons b ys ih =>
    obtain ⟨fuel, rfl⟩ := Nat.exists_eq_add_one_of_ne_zero (Nat.ne_zero_of_lt hf)
    obtain ⟨nd, hcell, hnext, hval⟩ := node_of_chain hc
    rw [List.mem_cons, not_or] at hd
    have hrest := hc.of_cons
    have hf' : ys.length < fuel := Nat.lt_of_succ_lt_succ hf
    rw [search, hcell, List.find?_cons, hval, Option.any_some]
    simp only [Option.bind_eq_bind, Option.bind_some, hnext, if_neg (Ne.symm hd.1),
      ih hrest hd.2 hf']
    cases m nd.val <;> rfl

theorem fold_chain {h : Heap α} (f : β → α → β) {d p : Ptr} {ys : List Ptr} {fuel : Nat}
    (b : β) (hc : (p :: (ys ++ [d])).IsChain h.Linked) (hd : d ∉ ys) (hf : ys.length < fuel) :
    h.fold f d fuel p b = some ((h.vals (p :: ys)).foldl f b) := by
  induction ys generalizing p fuel b with
  | nil =>
    obtain ⟨fuel, rfl⟩ := Nat.exists_eq_add_one_of_ne_zero (Nat.ne_zero_of_lt hf)
    obtain ⟨nd, hcell, hnext, hval⟩ := node_of_chain hc
    simp only [fold, hcell, Option.bind_eq_bind, Option.bind_some, hnext, ↓reduceIte, vals,
      List.filterMap_cons, hval, List.filterMap_nil, List.foldl_cons, List.foldl_nil]
  | cons c ys ih =>
    obtain ⟨fuel, rfl⟩ := Nat.exists_eq_add_one_of_ne_zero (Nat.ne_zero_of_lt hf)
    obtain ⟨nd, hcell, hnext, hval⟩ := node_of_chain hc
    rw [List.mem_cons, not_or] at hd
    have hrest := hc.of_cons
    have hf' : ys.length < fuel := Nat.lt_of_succ_lt_succ hf
    rw [fold, hcell]
    simp only [Option.bind_eq_bind, Option.bind_some, hnext, if_neg (Ne.symm hd.1),
      ih _ hrest hd.2 hf', vals, List.filterMap_cons, hval, List.foldl_cons]

end Heap

namespace Ring

theorem chain_from_head {h : Heap α} (hr : Ring h (some d) xs) :
    ∃ ys, xs = d :: ys ∧ (d :: (ys ++ [d])).IsChain h.Linked ∧ d ∉ ys := by
  obtain ⟨ys, rfl⟩ := hr.head_some
  exact ⟨ys, rfl, (Cycle.chain_coe_cons _ _ _).mp hr.linked, (List.nodup_cons.mp hr.nodup).1⟩

/-- A search of a ring ends, with the first match of the list it stands for. -/
theorem search {h : Heap α} (hr : Ring h (some d) xs) (m : α → Bool) :
    h.search m d h.size d = some (xs.find? fun p => (h.valOf p).any m) := by
  have hle := hr.length_le
  obtain ⟨ys, rfl, hc, hd⟩ := hr.chain_from_head
  exact Heap.search_chain m hc hd hle

theorem fold {h : Heap α} (hr : Ring h (some d) xs) (f : β → α → β) (b : β) :
    h.fold f d h.size d b = some ((h.vals xs).foldl f b) := by
  have hle := hr.length_le
  obtain ⟨ys, rfl, hc, hd⟩ := hr.chain_from_head
  exact Heap.fold_chain f b hc hd hle

theorem vals_length {h : Heap α} (hr : Ring h head xs) : (h.vals xs).length = xs.length := by
  have hl : ∀ p ∈ xs, ∃ a, h.valOf p = some a := fun p hp => Heap.live_iff_val.mp (hr.live hp)
  clear hr
  induction xs with
  | nil => rfl
  | cons p xs ih =>
    obtain ⟨a, ha⟩ := hl p List.mem_cons_self
    simp only [Heap.vals, List.filterMap_cons, ha, List.length_cons] at ih ⊢
    rw [ih fun q hq => hl q (List.mem_cons_of_mem _ hq)]

theorem count {h : Heap α} (hr : Ring h (some d) xs) :
    h.fold (fun count _ => count + 1) d h.size d 0 = some (UInt64.ofNat xs.length) := by
  rw [hr.fold, ← hr.vals_length]
  congr 1
  suffices hc : ∀ (vs : List α) (c : Nat),
      vs.foldl (fun count _ => count + 1) (UInt64.ofNat c) = UInt64.ofNat (c + vs.length) by
    simpa using hc (h.vals xs) 0
  intro vs
  induction vs with
  | nil => exact fun c => rfl
  | cons v vs ih =>
    intro c
    have hstep : UInt64.ofNat c + 1 = UInt64.ofNat (c + 1) := by simp
    rw [List.foldl_cons, hstep, ih, List.length_cons]
    congr 1
    omega

end Ring

/-- A walk that keeps the larger id finds one that is no smaller than any other. -/
theorem foldl_lastId (ids : List UInt64) (b : UInt64) :
    b.toNat ≤ (ids.foldl (fun l i => if l > i then l else i) b).toNat ∧
      ∀ i ∈ ids, i.toNat ≤ (ids.foldl (fun l i => if l > i then l else i) b).toNat := by
  induction ids generalizing b with
  | nil => exact ⟨Nat.le_refl _, fun _ hi => nomatch hi⟩
  | cons j ids ih =>
    obtain ⟨hb, hm⟩ := ih (if b > j then b else j)
    have hmax : b.toNat ≤ (if b > j then b else j).toNat ∧
        j.toNat ≤ (if b > j then b else j).toNat := by
      split
      · next hlt => exact ⟨Nat.le_refl _, Nat.le_of_lt (UInt64.lt_iff_toNat_lt.mp hlt)⟩
      · next hle => exact ⟨UInt64.le_iff_toNat_le.mp (UInt64.not_lt.mp hle), Nat.le_refl _⟩
    rw [List.foldl_cons]
    refine ⟨Nat.le_trans hmax.1 hb, ?_⟩
    intro i hi
    rcases List.mem_cons.mp hi with rfl | hi
    · exact Nat.le_trans hmax.2 hb
    · exact hm i hi

theorem foldl_lastId_le {ids : List UInt64} {b : UInt64} (hi : ∀ i ∈ ids, i.toNat ≤ n)
    (hb : b.toNat ≤ n) :
    (ids.foldl (fun l i => if l > i then l else i) b).toNat ≤ n := by
  induction ids generalizing b with
  | nil => exact hb
  | cons j ids ih =>
    rw [List.foldl_cons]
    apply ih fun i hm => hi i (List.mem_cons_of_mem _ hm)
    split
    · exact hb
    · exact hi j List.mem_cons_self

theorem foldl_lastId_mem (ids : List UInt64) (b : UInt64) :
    ids.foldl (fun l i => if l > i then l else i) b = b ∨
      ids.foldl (fun l i => if l > i then l else i) b ∈ ids := by
  induction ids generalizing b with
  | nil => exact .inl rfl
  | cons j ids ih =>
    rw [List.foldl_cons]
    cases ih (if b > j then b else j) with
    | inl he =>
      rw [he]
      split
      · exact .inl rfl
      · exact .inr List.mem_cons_self
    | inr hm => exact .inr (List.mem_cons_of_mem j hm)

theorem foldl_lastId_max {ids : List UInt64} {b : UInt64} (hne : ids ≠ [])
    (hb : ∀ i ∈ ids, b.toNat ≤ i.toNat) :
    (ids.map UInt64.toNat).max? =
      some (ids.foldl (fun l i => if l > i then l else i) b).toNat := by
  have hle := (foldl_lastId ids b).2
  apply List.max?_eq_some_iff.mpr
  constructor
  · cases foldl_lastId_mem ids b with
    | inl he =>
      obtain ⟨i, rest, rfl⟩ := List.exists_cons_of_ne_nil hne
      have hi := hle i List.mem_cons_self
      rw [he] at hi ⊢
      rw [Nat.le_antisymm (hb i List.mem_cons_self) hi]
      exact List.mem_map_of_mem List.mem_cons_self
    | inr hm => exact List.mem_map_of_mem hm
  · intro n hn
    obtain ⟨i, hi, rfl⟩ := List.mem_map.mp hn
    exact hle i hi

end Aiqb
