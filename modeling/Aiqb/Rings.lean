import Aiqb.Heap
import Mathlib.Data.List.Cycle

namespace Aiqb
set_option autoImplicit true

namespace Heap

def Linked (h : Heap α) (p q : Ptr) : Prop := h.nextOf p = some q ∧ h.prevOf q = some p

def linkSelf (h : Heap α) (p : Ptr) : Option (Heap α) := do
  let h ← h.setPrev p p
  h.setNext p p

/-- Link a node in between the tail and the head `d` of a ring. -/
def linkTail (h : Heap α) (d p : Ptr) : Option (Heap α) := do
  let h ← h.setNext p d
  let last ← h.prevOf d
  let h ← h.setPrev p last
  let last ← h.prevOf d
  let h ← h.setNext last p
  h.setPrev d p

def insertTail (h : Heap α) (head : Option Ptr) (p : Ptr) : Option (Heap α × Option Ptr) :=
  match head with
  | none => (h.linkSelf p).map (·, some p)
  | some d => (h.linkTail d p).map (·, some d)

/-- Take a node out of the ring it is in; a head that leaves is succeeded by its neighbour. -/
def unlink (h : Heap α) (head : Option Ptr) (p : Ptr) : Option (Heap α × Option Ptr) := do
  let before ← h.prevOf p
  let after ← h.nextOf p
  let h ← h.setNext before after
  let after ← h.nextOf p
  let before ← h.prevOf p
  let h ← h.setPrev after before
  let after ← h.nextOf p
  some (h, if head = some p then if p = after then none else some after else head)

def SameLinks (h h' : Heap α) (xs : List Ptr) : Prop :=
  ∀ p, p ∉ xs → h'.nextOf p = h.nextOf p ∧ h'.prevOf p = h.prevOf p

theorem chain_congr {h : Heap α} {h' : Heap β} {xs : List Ptr} (hc : xs.IsChain h.Linked)
    (hn : ∀ p ∈ xs.dropLast, h'.nextOf p = h.nextOf p)
    (hp : ∀ p ∈ xs.tail, h'.prevOf p = h.prevOf p) : xs.IsChain h'.Linked := by
  induction xs with
  | nil => exact .nil
  | cons a xs ih =>
    cases xs with
    | nil => exact .singleton a
    | cons b xs =>
      rw [List.isChain_cons_cons] at hc ⊢
      have ha := hn a (by simp)
      have hb := hp b (by simp)
      refine ⟨⟨ha.trans hc.1.1, hb.trans hc.1.2⟩, ih hc.2 ?_ ?_⟩
      · intro q hq
        exact hn q (by simpa using .inr hq)
      · intro q hq
        exact hp q (List.mem_of_mem_tail hq)

theorem chain_cycle {h : Heap α} (hne : xs ≠ []) :
    Cycle.Chain h.Linked (xs : Cycle Ptr) ↔
      xs.IsChain h.Linked ∧ h.Linked (xs.getLast hne) (xs.head hne) := by
  cases xs with
  | nil => exact (hne rfl).elim
  | cons d xs =>
    rw [Cycle.chain_coe_cons, ← List.cons_append, List.isChain_append,
      List.getLast?_eq_some_getLast hne]
    simp

end Heap

/-- The nodes of a circular doubly linked list, read from its head. -/
structure Ring (h : Heap α) (head : Option Ptr) (xs : List Ptr) : Prop where
  head_eq : head = xs.head?
  nodup : xs.Nodup
  linked : Cycle.Chain h.Linked (xs : Cycle Ptr)

namespace Ring

theorem nil (h : Heap α) : Ring h none [] := ⟨rfl, List.nodup_nil, trivial⟩

theorem head_none (hr : Ring h none xs) : xs = [] := List.head?_eq_none_iff.mp hr.head_eq.symm

theorem head_some (hr : Ring h (some d) xs) : ∃ ys, xs = d :: ys := by
  cases xs with
  | nil => cases hr.head_eq
  | cons a ys =>
    cases hr.head_eq
    exact ⟨ys, rfl⟩

theorem live {h : Heap α} (hr : Ring h head xs) (hp : p ∈ xs) : h.Live p := by
  have hne := List.ne_nil_of_mem hp
  obtain ⟨hc, hl⟩ := (Heap.chain_cycle hne).mp hr.linked
  by_cases hlast : p = xs.getLast hne
  · subst hlast
    exact Heap.live_of_next hl.1
  · obtain ⟨as, bs, rfl⟩ := List.append_of_mem hp
    cases bs with
    | nil => exact (hlast (by simp)).elim
    | cons b bs =>
      rw [List.isChain_append, List.isChain_cons_cons] at hc
      exact Heap.live_of_next hc.2.1.1.1

theorem length_le {h : Heap α} (hr : Ring h head xs) : xs.length ≤ h.size := by
  have hsub : xs ⊆ List.range h.size := fun p hp => List.mem_range.mpr (hr.live hp).lt_size
  have hle := (List.subperm_of_subset hr.nodup hsub).length_le
  rwa [List.length_range] at hle

theorem chain_unique {h : Heap α} (hx : (p :: (xs ++ [d])).IsChain h.Linked)
    (hy : (p :: (ys ++ [d])).IsChain h.Linked) (hdx : d ∉ xs) (hdy : d ∉ ys) : xs = ys := by
  induction xs generalizing p ys with
  | nil =>
    cases ys with
    | nil => rfl
    | cons b ys =>
      simp only [List.nil_append, List.cons_append, List.isChain_cons_cons] at hx hy
      have he := hx.1.1.symm.trans hy.1.1
      cases he
      exact (hdy List.mem_cons_self).elim
  | cons a xs ih =>
    cases ys with
    | nil =>
      simp only [List.nil_append, List.cons_append, List.isChain_cons_cons] at hx hy
      have he := hx.1.1.symm.trans hy.1.1
      cases he
      exact (hdx List.mem_cons_self).elim
    | cons b ys =>
      simp only [List.cons_append, List.isChain_cons_cons] at hx hy
      have he := hx.1.1.symm.trans hy.1.1
      cases he
      rw [ih hx.2 hy.2 (List.not_mem_of_not_mem_cons hdx) (List.not_mem_of_not_mem_cons hdy)]

theorem unique {h : Heap α} (hx : Ring h head xs) (hy : Ring h head ys) : xs = ys := by
  cases head with
  | none => rw [hx.head_none, hy.head_none]
  | some d =>
    obtain ⟨xs, rfl⟩ := hx.head_some
    obtain ⟨ys, rfl⟩ := hy.head_some
    rw [chain_unique ((Cycle.chain_coe_cons _ _ _).mp hx.linked)
      ((Cycle.chain_coe_cons _ _ _).mp hy.linked) (List.nodup_cons.mp hx.nodup).1
      (List.nodup_cons.mp hy.nodup).1]

/-- A ring is untouched by what happens to the links of other nodes. -/
theorem frame {h : Heap α} {h' : Heap β} (hr : Ring h head xs)
    (hs : ∀ p ∈ xs, h'.nextOf p = h.nextOf p ∧ h'.prevOf p = h.prevOf p) : Ring h' head xs := by
  refine ⟨hr.head_eq, hr.nodup, ?_⟩
  by_cases hne : xs = []
  · subst hne; trivial
  · obtain ⟨hc, hl⟩ := (Heap.chain_cycle hne).mp hr.linked
    refine (Heap.chain_cycle hne).mpr ⟨Heap.chain_congr hc ?_ ?_, ?_, ?_⟩
    · exact fun p hp => (hs p (List.mem_of_mem_dropLast hp)).1
    · exact fun p hp => (hs p (List.mem_of_mem_tail hp)).2
    · exact (hs _ (List.getLast_mem hne)).1.trans hl.1
    · exact (hs _ (List.head_mem hne)).2.trans hl.2

theorem frame_disjoint {h h' : Heap α} (hr : Ring h head ys) (hs : h.SameLinks h' xs)
    (hd : List.Disjoint ys xs) : Ring h' head ys :=
  hr.frame fun p hp => hs p (hd hp)

theorem of_same_links {h : Heap α} {h' : Heap β} (hr : Ring h head xs)
    (hn : h'.nextOf = h.nextOf) (hp : h'.prevOf = h.prevOf) : Ring h' head xs :=
  hr.frame fun p _ => ⟨congrFun hn p, congrFun hp p⟩

theorem alloc {h : Heap α} (hr : Ring h head xs) (v : α) : Ring (h.alloc v) head xs := by
  refine hr.frame fun p hp => ?_
  have hne : p ≠ h.size := Nat.ne_of_lt (hr.live hp).lt_size
  rw [Heap.alloc_nextOf, Heap.alloc_prevOf, Function.update_of_ne hne, Function.update_of_ne hne]
  exact ⟨rfl, rfl⟩

theorem free {h h' : Heap α} (hr : Ring h head xs) (hf : h.free q = some h') (hq : q ∉ xs) :
    Ring h' head xs := by
  by_cases hl : h.Live q
  · obtain ⟨h₁, he, _, hn, hp, _⟩ := Heap.free_spec hl
    obtain rfl : h₁ = h' := Option.some.inj (he.symm.trans hf)
    refine hr.frame fun p hp' => ?_
    have hne : p ≠ q := fun he => hq (he ▸ hp')
    rw [hn, hp, Function.update_of_ne hne, Function.update_of_ne hne]
    exact ⟨rfl, rfl⟩
  · rw [Heap.free, Heap.write_dead _ hl] at hf
    cases hf

end Ring

theorem getLast_notMem_dropLast {xs : List α} (hn : xs.Nodup) (hne : xs ≠ []) :
    xs.getLast hne ∉ xs.dropLast := by
  rw [← List.dropLast_append_getLast hne, List.nodup_append] at hn
  exact fun hm => hn.2.2 _ hm _ (List.mem_singleton_self _) rfl

theorem head_notMem_tail {xs : List α} (hn : xs.Nodup) (hne : xs ≠ []) :
    xs.head hne ∉ xs.tail := by
  cases xs with
  | nil => exact (hne rfl).elim
  | cons a xs => exact (List.nodup_cons.mp hn).1

namespace Heap

theorem linkSelf_spec {h : Heap α} (hp : h.Live p) :
    ∃ h', h.linkSelf p = some h' ∧ h'.size = h.size ∧ h'.valOf = h.valOf ∧
      h'.nextOf = Function.update h.nextOf p (some p) ∧
      h'.prevOf = Function.update h.prevOf p (some p) := by
  obtain ⟨h₁, e₁, s₁, p₁, n₁, v₁⟩ := setPrev_spec hp p
  have hp₁ : h₁.Live p := live_of_prev (by rw [p₁, Function.update_self])
  obtain ⟨h₂, e₂, s₂, n₂, p₂, v₂⟩ := setNext_spec hp₁ p
  refine ⟨h₂, ?_, s₂.trans s₁, v₂.trans v₁, ?_, p₂.trans p₁⟩
  · simp only [linkSelf, Option.bind_eq_bind, e₁, Option.bind_some, e₂]
  · rw [n₂, n₁]

theorem linkTail_spec {h : Heap α} (hp : h.Live p) (hl : h.Live l)
    (hd : h.prevOf d = some l) (hpd : p ≠ d) :
    ∃ h', h.linkTail d p = some h' ∧ h'.size = h.size ∧ h'.valOf = h.valOf ∧
      h'.nextOf = Function.update (Function.update h.nextOf p (some d)) l (some p) ∧
      h'.prevOf = Function.update (Function.update h.prevOf p (some l)) d (some p) := by
  obtain ⟨h₁, e₁, s₁, n₁, p₁, v₁⟩ := setNext_spec hp d
  have hp₁ : h₁.Live p := live_of_next (by rw [n₁, Function.update_self])
  obtain ⟨h₂, e₂, s₂, p₂, n₂, v₂⟩ := setPrev_spec hp₁ l
  have hl₂ : h₂.Live l := live_iff_val.mpr (by rw [v₂, v₁]; exact live_iff_val.mp hl)
  obtain ⟨h₃, e₃, s₃, n₃, p₃, v₃⟩ := setNext_spec hl₂ p
  have hd₁ : h₁.prevOf d = some l := by rw [p₁, hd]
  have hd₂ : h₂.prevOf d = some l := by rw [p₂, Function.update_of_ne hpd.symm, hd₁]
  have hd₃ : h₃.Live d := live_of_prev (by rw [p₃, hd₂])
  obtain ⟨h₄, e₄, s₄, p₄, n₄, v₄⟩ := setPrev_spec hd₃ p
  refine ⟨h₄, ?_, ?_, ?_, ?_, ?_⟩
  · simp only [linkTail, Option.bind_eq_bind, e₁, Option.bind_some, hd₁, e₂, hd₂, e₃, e₄]
  · rw [s₄, s₃, s₂, s₁]
  · rw [v₄, v₃, v₂, v₁]
  · rw [n₄, n₃, n₂, n₁]
  · rw [p₄, p₃, p₂, p₁]

end Heap

/-- Linking a node in at the tail appends it to the list that the ring stands for. -/
theorem Ring.insertTail {h : Heap α} (hr : Ring h head xs) (hp : h.Live p) (hpx : p ∉ xs) :
    ∃ h' head', h.insertTail head p = some (h', head') ∧ Ring h' head' (xs ++ [p]) ∧
      h'.size = h.size ∧ h'.valOf = h.valOf ∧ h.SameLinks h' (xs ++ [p]) := by
  cases head with
  | none =>
    obtain rfl := hr.head_none
    obtain ⟨h', he, hs, hv, hn, hpv⟩ := Heap.linkSelf_spec hp
    refine ⟨h', some p, by simp only [Heap.insertTail, he, Option.map_some],
      ⟨rfl, List.nodup_singleton p, ?_⟩, hs, hv, ?_⟩
    · rw [List.nil_append, Cycle.chain_singleton]
      exact ⟨by rw [hn, Function.update_self], by rw [hpv, Function.update_self]⟩
    · intro q hq
      have hne : q ≠ p := by simpa using hq
      rw [hn, hpv, Function.update_of_ne hne, Function.update_of_ne hne]
      exact ⟨rfl, rfl⟩
  | some d =>
    obtain ⟨ys, rfl⟩ := hr.head_some
    have hne : d :: ys ≠ [] := List.cons_ne_nil _ _
    obtain ⟨hc, hl⟩ := (Heap.chain_cycle hne).mp hr.linked
    have hlm := List.getLast_mem hne
    have hpd : p ≠ d := fun he => hpx (he ▸ List.mem_cons_self)
    have hpl : p ≠ (d :: ys).getLast hne := fun he => hpx (he ▸ hlm)
    have hld : h.prevOf d = some ((d :: ys).getLast hne) := hl.2
    obtain ⟨h', he, hs, hv, hn, hpv⟩ := Heap.linkTail_spec hp (hr.live hlm) hld hpd
    refine ⟨h', some d, by simp only [Heap.insertTail, he, Option.map_some],
      ⟨rfl, ?_, ?_⟩, hs, hv, ?_⟩
    · rw [List.nodup_append]
      exact ⟨hr.nodup, List.nodup_singleton p,
        fun a ha b hb => by rw [List.mem_singleton.mp hb]; exact fun he => hpx (he ▸ ha)⟩
    · have hc' : (d :: ys).IsChain h'.Linked := by
        refine Heap.chain_congr hc ?_ ?_
        · intro q hq
          have hql : q ≠ (d :: ys).getLast hne :=
            fun he => getLast_notMem_dropLast hr.nodup hne (he ▸ hq)
          have hqp : q ≠ p := fun he => hpx (he ▸ List.mem_of_mem_dropLast hq)
          rw [hn, Function.update_of_ne hql, Function.update_of_ne hqp]
        · intro q hq
          have hqd : q ≠ d := fun he => head_notMem_tail hr.nodup hne (he ▸ hq)
          have hqp : q ≠ p := fun he => hpx (he ▸ List.mem_of_mem_tail hq)
          rw [hpv, Function.update_of_ne hqd, Function.update_of_ne hqp]
      rw [Heap.chain_cycle (by simp), List.isChain_append, List.getLast_append_singleton]
      refine ⟨⟨hc', .singleton p, ?_⟩, ?_⟩
      · intro a ha b hb
        rw [List.getLast?_eq_some_getLast hne, Option.mem_some_iff] at ha
        rw [List.head?_cons, Option.mem_some_iff] at hb
        subst ha hb
        exact ⟨by rw [hn, Function.update_self],
          by rw [hpv, Function.update_of_ne hpd, Function.update_self]⟩
      · change h'.Linked p d
        exact ⟨by rw [hn, Function.update_of_ne hpl, Function.update_self],
          by rw [hpv, Function.update_self]⟩
    · intro q hq
      rw [List.mem_append, List.mem_singleton, not_or] at hq
      have hql : q ≠ (d :: ys).getLast hne := fun he => hq.1 (he ▸ hlm)
      have hqd : q ≠ d := fun he => hq.1 (he ▸ List.mem_cons_self)
      rw [hn, hpv, Function.update_of_ne hql, Function.update_of_ne hq.2,
        Function.update_of_ne hqd, Function.update_of_ne hq.2]
      exact ⟨rfl, rfl⟩

theorem Heap.unlink_spec {h : Heap α} (hn : (p :: rest).Nodup)
    (hc : Cycle.Chain h.Linked ((p :: rest : List Ptr) : Cycle Ptr)) (head : Option Ptr) :
    ∃ h', h.unlink head p = some (h', if head = some p then rest.head? else head) ∧
      Cycle.Chain h'.Linked (rest : Cycle Ptr) ∧ h'.size = h.size ∧ h'.valOf = h.valOf ∧
      h.SameLinks h' (p :: rest) := by
  cases rest with
  | nil =>
    rw [Cycle.chain_singleton] at hc
    have hp : h.Live p := Heap.live_of_next hc.1
    obtain ⟨h₁, e₁, s₁, n₁, p₁, v₁⟩ := setNext_spec hp p
    have hp₁ : h₁.Live p := live_of_next (by rw [n₁, Function.update_self])
    obtain ⟨h₂, e₂, s₂, p₂, n₂, v₂⟩ := setPrev_spec hp₁ p
    have hn₁ : h₁.nextOf p = some p := by rw [n₁, Function.update_self]
    have hp₁' : h₁.prevOf p = some p := by rw [p₁]; exact hc.2
    have hn₂ : h₂.nextOf p = some p := by rw [n₂, hn₁]
    refine ⟨h₂, ?_, trivial, by rw [s₂, s₁], by rw [v₂, v₁], ?_⟩
    · simp only [unlink, Option.bind_eq_bind, hc.1, hc.2, Option.bind_some, e₁, hn₁, hp₁', e₂,
        hn₂, ↓reduceIte, List.head?_nil]
    · intro q hq
      have hne : q ≠ p := by simpa using hq
      rw [n₂, n₁, p₂, p₁, Function.update_of_ne hne, Function.update_of_ne hne]
      exact ⟨rfl, rfl⟩
  | cons b rest =>
    have hne : b :: rest ≠ [] := List.cons_ne_nil _ _
    obtain ⟨hpn, hnr⟩ := List.nodup_cons.mp hn
    rw [chain_cycle (List.cons_ne_nil _ _), List.isChain_cons_cons, List.getLast_cons hne,
      List.head_cons] at hc
    obtain ⟨⟨hpb, hch⟩, hlp⟩ := hc
    have hlm := List.getLast_mem hne
    have hpl : p ≠ (b :: rest).getLast hne := fun he => hpn (he ▸ hlm)
    have hbp : p ≠ b := fun he => hpn (he ▸ List.mem_cons_self)
    obtain ⟨h₁, e₁, s₁, n₁, p₁, v₁⟩ := setNext_spec (live_of_next hlp.1) b
    have hn₁ : h₁.nextOf p = some b := by rw [n₁, Function.update_of_ne hpl]; exact hpb.1
    have hp₁ : h₁.prevOf p = some ((b :: rest).getLast hne) := by rw [p₁]; exact hlp.2
    have hb₁ : h₁.Live b := live_of_prev (by rw [p₁]; exact hpb.2)
    obtain ⟨h₂, e₂, s₂, p₂, n₂, v₂⟩ := setPrev_spec hb₁ ((b :: rest).getLast hne)
    have hn₂ : h₂.nextOf p = some b := by rw [n₂, hn₁]
    refine ⟨h₂, ?_, ?_, by rw [s₂, s₁], by rw [v₂, v₁], ?_⟩
    · simp only [unlink, Option.bind_eq_bind, hlp.2, hpb.1, Option.bind_some, e₁, hn₁, hp₁, e₂,
        hn₂, if_neg hbp, List.head?_cons]
    · refine (chain_cycle hne).mpr ⟨chain_congr hch ?_ ?_, ?_, ?_⟩
      · intro q hq
        have hql : q ≠ (b :: rest).getLast hne :=
          fun he => getLast_notMem_dropLast hnr hne (he ▸ hq)
        rw [n₂, n₁, Function.update_of_ne hql]
      · intro q hq
        have hqb : q ≠ b := fun he => head_notMem_tail hnr hne (he ▸ hq)
        rw [p₂, Function.update_of_ne hqb, p₁]
      · rw [n₂, n₁, Function.update_self, List.head_cons]
      · rw [List.head_cons, p₂, Function.update_self]
    · intro q hq
      rw [List.mem_cons, not_or] at hq
      have hql : q ≠ (b :: rest).getLast hne := fun he => hq.2 (he ▸ hlm)
      have hqb : q ≠ b := fun he => hq.2 (he ▸ List.mem_cons_self)
      rw [n₂, n₁, p₂, p₁, Function.update_of_ne hql, Function.update_of_ne hqb]
      exact ⟨rfl, rfl⟩

/-- Unlinking a node of a ring erases it from the list that the ring stands for. -/
theorem Ring.unlink {h : Heap α} (hr : Ring h head xs) (hp : p ∈ xs) :
    ∃ h' head', h.unlink head p = some (h', head') ∧ Ring h' head' (xs.erase p) ∧
      h'.size = h.size ∧ h'.valOf = h.valOf ∧ h.SameLinks h' xs := by
  obtain ⟨as, bs, hpa, rfl, he⟩ := List.exists_erase_eq hp
  have hrot : as ++ p :: bs ~r p :: (bs ++ as) := List.isRotated_append
  have hrot' : as ++ bs ~r bs ++ as := List.isRotated_append
  have hc : Cycle.Chain h.Linked ((p :: (bs ++ as) : List Ptr) : Cycle Ptr) := by
    rw [← Cycle.coe_eq_coe.mpr hrot]
    exact hr.linked
  have hn : (p :: (bs ++ as)).Nodup := hrot.nodup_iff.mp hr.nodup
  obtain ⟨h', hu, hc', hs, hv, hsame⟩ := Heap.unlink_spec hn hc head
  rw [he]
  refine ⟨h', _, hu, ⟨?_, ?_, ?_⟩, hs, hv, ?_⟩
  · cases as with
    | nil => simp [hr.head_eq]
    | cons a as =>
      have hap : a ≠ p := fun hap => hpa (hap ▸ List.mem_cons_self)
      simp [hr.head_eq, hap]
  · exact hrot'.nodup_iff.mpr (List.nodup_cons.mp hn).2
  · rw [Cycle.coe_eq_coe.mpr hrot']
    exact hc'
  · intro q hq
    refine hsame q fun hm => hq ?_
    simp only [List.mem_cons, List.mem_append] at hm ⊢
    tauto

theorem Ring.alone (v : α) : Ring (Heap.empty.alloc v) (some 0) [0] where
  head_eq := rfl
  nodup := List.nodup_singleton 0
  linked := by
    rw [Cycle.chain_singleton]
    exact ⟨rfl, rfl⟩

def Heap.pair (v u : α) : Heap α where
  size := 2
  cell p := if p = 0 then some ⟨1, 1, v⟩ else if p = 1 then some ⟨0, 0, u⟩ else none
  bound p hp := by
    have h0 : p ≠ 0 := by omega
    have h1 : p ≠ 1 := by omega
    rw [if_neg h0, if_neg h1]

theorem Ring.pair (v u : α) : Ring (Heap.pair v u) (some 0) [0, 1] where
  head_eq := rfl
  nodup := by decide
  linked := by
    rw [Cycle.chain_coe_cons]
    exact .cons_cons ⟨rfl, rfl⟩ (.cons_cons ⟨rfl, rfl⟩ (.singleton 0))

theorem Heap.pair_val {v u a : α} (h : (Heap.pair v u).valOf p = some a) :
    p = 0 ∧ a = v ∨ p = 1 ∧ a = u := by
  simp only [valOf, pair] at h
  split at h
  · next hp => exact .inl ⟨hp, (Option.some.inj h).symm⟩
  · split at h
    · next hp => exact .inr ⟨hp, (Option.some.inj h).symm⟩
    · cases h

end Aiqb
