import Aiqb.RingWalks
import Aiqb.Runs

namespace Aiqb
set_option autoImplicit true

/-- Every head stands for a list of its own, and no node is in two of them. -/
structure Rings (h : Heap α) (head : κ → Option Ptr) (xs : κ → List Ptr) : Prop where
  ring : ∀ i, Ring h (head i) (xs i)
  apart : ∀ i j, i ≠ j → List.Disjoint (xs i) (xs j)

namespace Rings

theorem empty (h : Heap α) {head : κ → Option Ptr} (hn : ∀ i, head i = none) :
    Rings h head fun _ => [] where
  ring i := hn i ▸ Ring.nil h
  apart _ _ _ _ hp := (List.not_mem_nil hp).elim

theorem update [DecidableEq κ] {h h' : Heap α} {i : κ} (hr : Rings h head xs)
    (hi : Ring h' d ys) (hsub : ys ⊆ zs) (hs : h.SameLinks h' zs)
    (hz : ∀ j, j ≠ i → List.Disjoint (xs j) zs) :
    Rings h' (Function.update head i d) (Function.update xs i ys) := by
  constructor
  · intro j
    by_cases hj : j = i
    · subst hj
      rw [Function.update_self, Function.update_self]
      exact hi
    · rw [Function.update_of_ne hj, Function.update_of_ne hj]
      exact (hr.ring j).frame_disjoint hs (hz j hj)
  · intro j k hjk
    by_cases hj : j = i
    · subst hj
      rw [Function.update_self, Function.update_of_ne hjk.symm]
      exact fun p hp hk => hz k hjk.symm hk (hsub hp)
    · rw [Function.update_of_ne hj]
      by_cases hk : k = i
      · subst hk
        rw [Function.update_self]
        exact fun p hp hk => hz j hj hp (hsub hk)
      · rw [Function.update_of_ne hk]
        exact hr.apart j k hjk

theorem insert [DecidableEq κ] {h h' : Heap α} {i : κ} (hr : Rings h head xs)
    (hp : ∀ j, p ∉ xs j) (hi : Ring h' d (xs i ++ [p])) (hs : h.SameLinks h' (xs i ++ [p])) :
    Rings h' (Function.update head i d) (Function.update xs i (xs i ++ [p])) := by
  apply hr.update hi (List.Subset.refl _) hs
  intro j hj q hq hm
  rcases List.mem_append.mp hm with hm | hm
  · exact hr.apart j i hj hq hm
  · exact hp j (List.mem_singleton.mp hm ▸ hq)

theorem erase [DecidableEq κ] {h h' : Heap α} {i : κ} (hr : Rings h head xs)
    (hi : Ring h' d ((xs i).erase p)) (hs : h.SameLinks h' (xs i)) :
    Rings h' (Function.update head i d) (Function.update xs i ((xs i).erase p)) :=
  hr.update hi List.erase_subset hs fun j hj => hr.apart j i hj

end Rings

/-- The first node of a list that matches; without a condition it is the head. -/
def pick (val : Ptr → Option β) (xs : List Ptr) (m : Option (β → Bool)) : Option Ptr :=
  match m with
  | none => xs.head?
  | some m => xs.find? fun p => (val p).any m

inductive ListEvent (κ θ : Type) where
  | insert (i : κ) (node : Option Ptr)
  | extract (i : κ) (query : θ)

/-- Lists whose nodes carry values, and what was taken out of them so far. -/
structure ListFamily (κ β : Type) where
  val : Ptr → Option β
  list : κ → List Ptr
  returned : List (Option Ptr)

/-- What the operations mean: the value that a node joins a list with, and the condition that a
query stands for. -/
structure ListSpec (β θ : Type) where
  settle : List β → β → β
  cond : θ → Option (β → Bool)

def ListSpec.Joined (spec : ListSpec β θ) (v : β) : Prop := ∃ vs u, v = spec.settle vs u

namespace ListFamily

def start (val : Ptr → Option β) : ListFamily κ β := ⟨val, fun _ => [], []⟩

def vals (b : ListFamily κ β) (i : κ) : List β := (b.list i).filterMap b.val

def found (b : ListFamily κ β) (spec : ListSpec β θ) (i : κ) (query : θ) : Option Ptr :=
  pick b.val (b.list i) (spec.cond query)

def Joined (b : ListFamily κ β) (spec : ListSpec β θ) : Prop :=
  ∀ i, ∀ p ∈ b.list i, ∀ v, b.val p = some v → spec.Joined v

variable [DecidableEq κ]

def append (b : ListFamily κ β) (spec : ListSpec β θ) (i : κ) (p : Ptr) (v : β) : ListFamily κ β :=
  { b with
    val := Function.update b.val p (some (spec.settle (b.vals i) v))
    list := Function.update b.list i (b.list i ++ [p]) }

def remove (b : ListFamily κ β) (i : κ) (p : Ptr) : ListFamily κ β :=
  { b with
    list := Function.update b.list i ((b.list i).erase p)
    returned := b.returned ++ [some p] }

def step (spec : ListSpec β θ) (b : ListFamily κ β) : ListEvent κ θ → Option (ListFamily κ β)
  | .insert _ none => some b
  | .insert i (some p) => (b.val p).map (b.append spec i p)
  | .extract i query =>
    match b.found spec i query with
    | none => some { b with returned := b.returned ++ [none] }
    | some p => some (b.remove i p)

/-- Only nodes with a value that are in no list are inserted, and only where `ok` lets them join. -/
def Allows (ok : List β → β → Prop) (b : ListFamily κ β) : ListEvent κ θ → Prop
  | .insert i (some p) => (∀ j, p ∉ b.list j) ∧ ∃ v ∈ b.val p, ok (b.vals i) v
  | _ => True

instance [Fintype κ] (ok : List β → β → Prop) [∀ vs v, Decidable (ok vs v)]
    (b : ListFamily κ β) (e : ListEvent κ θ) : Decidable (b.Allows ok e) :=
  match e with
  | .insert _ (some p) => inferInstanceAs (Decidable ((∀ j, p ∉ b.list j) ∧ ∃ v ∈ b.val p, _))
  | .insert _ none => isTrue trivial
  | .extract _ _ => isTrue trivial

end ListFamily

/-- The two operations of a list that is kept as a ring. -/
structure RingOps (α θ : Type) where
  insert : Heap α → Option Ptr → Option Ptr → Option (Heap α × Option Ptr)
  extract : Heap α → Option Ptr → θ → Option (Heap α × Option Ptr × Option Ptr)

/-- Rings over one heap, by their heads, and what was taken out of them so far. -/
structure RingState (κ α : Type) where
  heap : Heap α
  head : κ → Option Ptr
  returned : List (Option Ptr)

namespace RingState

def start (h : Heap α) : RingState κ α := ⟨h, fun _ => none, []⟩

def step [DecidableEq κ] (ops : RingOps α θ) (s : RingState κ α) :
    ListEvent κ θ → Option (RingState κ α)
  | .insert i node => do
    let (heap, head) ← ops.insert s.heap (s.head i) node
    some { s with heap, head := Function.update s.head i head }
  | .extract i query => do
    let (heap, head, node) ← ops.extract s.heap (s.head i) query
    some ⟨heap, Function.update s.head i head, s.returned ++ [node]⟩

def Contains (s : RingState κ α) (i : κ) (p : Ptr) : Prop :=
  ∃ xs, Ring s.heap (s.head i) xs ∧ p ∈ xs

def Allows (view : α → β) (ok : List β → β → Prop) (s : RingState κ α) :
    ListEvent κ θ → Prop
  | .insert i (some p) =>
    (∀ j, ¬ s.Contains j p) ∧ ∃ a, s.heap.valOf p = some a ∧
      ∀ xs, Ring s.heap (s.head i) xs → ok ((s.heap.vals xs).map view) (view a)
  | _ => True

structure StandsFor (view : α → β) (s : RingState κ α) (b : ListFamily κ β) : Prop where
  rings : Rings s.heap s.head b.list
  val : ∀ p, b.val p = (s.heap.valOf p).map view
  returned : s.returned = b.returned

end RingState

/-- The operations on a ring are those on the list it stands for. -/
structure RingOps.Implement (ops : RingOps α θ) (spec : ListSpec β θ) (view : α → β)
    (ok : List β → β → Prop) : Prop where
  skip : ∀ h head, ops.insert h head none = some (h, head)
  insert : ∀ {h head xs p a}, Ring h head xs → p ∉ xs → h.valOf p = some a →
    (∀ v ∈ (h.vals xs).map view, spec.Joined v) → ok ((h.vals xs).map view) (view a) →
    ∃ h' head' a', ops.insert h head (some p) = some (h', head') ∧ Ring h' head' (xs ++ [p]) ∧
      h'.valOf = Function.update h.valOf p (some a') ∧ h.SameLinks h' (xs ++ [p]) ∧
      view a' = spec.settle ((h.vals xs).map view) (view a)
  extract_none : ∀ {h head xs query}, Ring h head xs →
    pick (fun p => (h.valOf p).map view) xs (spec.cond query) = none →
    ops.extract h head query = some (h, head, none)
  extract_some : ∀ {h head xs query p}, Ring h head xs →
    pick (fun p => (h.valOf p).map view) xs (spec.cond query) = some p →
    ∃ h' head', ops.extract h head query = some (h', head', some p) ∧
      Ring h' head' (xs.erase p) ∧ h'.valOf = h.valOf ∧ h.SameLinks h' xs

namespace RingState

variable {s : RingState κ α} {b : ListFamily κ β} {view : α → β}

theorem StandsFor.start (h : Heap α) (view : α → β) :
    (start h : RingState κ α).StandsFor view (.start fun p => (h.valOf p).map view) :=
  ⟨.empty h fun _ => rfl, fun _ => rfl, rfl⟩

theorem StandsFor.contains_iff (hs : s.StandsFor view b) : s.Contains i p ↔ p ∈ b.list i := by
  constructor
  · rintro ⟨xs, hr, hp⟩
    rwa [hr.unique (hs.rings.ring i)] at hp
  · exact fun hp => ⟨_, hs.rings.ring i, hp⟩

theorem StandsFor.vals_eq (hs : s.StandsFor view b) (i : κ) :
    (s.heap.vals (b.list i)).map view = b.vals i := by
  rw [Heap.vals, ListFamily.vals, List.map_filterMap]
  exact List.filterMap_congr fun p _ => (hs.val p).symm

theorem StandsFor.allows_iff (hs : s.StandsFor view b) {ok : List β → β → Prop}
    {e : ListEvent κ θ} : s.Allows view ok e ↔ b.Allows ok e := by
  cases e with
  | insert i node =>
    cases node with
    | none => exact Iff.rfl
    | some p =>
      refine and_congr (forall_congr' fun j => not_congr hs.contains_iff) ?_
      rw [hs.val]
      constructor
      · rintro ⟨a, ha, hok⟩
        exact ⟨view a, Option.mem_map.mpr ⟨a, ha, rfl⟩,
          hs.vals_eq i ▸ hok _ (hs.rings.ring i)⟩
      · rintro ⟨v, hv, hok⟩
        obtain ⟨a, ha, rfl⟩ := Option.mem_map.mp hv
        refine ⟨a, ha, fun xs hr => ?_⟩
        rw [hr.unique (hs.rings.ring i), hs.vals_eq i]
        exact hok
  | extract i query => exact Iff.rfl

theorem StandsFor.found_eq (hs : s.StandsFor view b) (spec : ListSpec β θ) (i : κ) (query : θ) :
    pick (fun p => (s.heap.valOf p).map view) (b.list i) (spec.cond query) =
      b.found spec i query := by
  rw [ListFamily.found, funext hs.val]

end RingState

theorem ListFamily.Joined.vals {b : ListFamily κ β} (hj : b.Joined spec)
    (hv : v ∈ b.vals i) : spec.Joined v := by
  obtain ⟨p, hp, hv⟩ := List.mem_filterMap.mp hv
  exact hj i p hp v hv

section Implementation

variable [DecidableEq κ] {ops : RingOps α θ} {spec : ListSpec β θ} {view : α → β}
  {ok : List β → β → Prop} {s : RingState κ α} {b : ListFamily κ β}

theorem ListFamily.Joined.step {b c : ListFamily κ β} (hj : b.Joined spec)
    (hs : b.step spec e = some c) : c.Joined spec := by
  cases e with
  | insert i node =>
    cases node with
    | none =>
      cases hs
      exact hj
    | some p =>
      obtain ⟨u, hu, rfl⟩ := Option.map_eq_some_iff.mp hs
      intro j q hq v hv
      simp only [append] at hq hv
      by_cases hqp : q = p
      · subst hqp
        rw [Function.update_self] at hv
        cases hv
        exact ⟨b.vals i, u, rfl⟩
      · rw [Function.update_of_ne hqp] at hv
        by_cases hji : j = i
        · subst hji
          rw [Function.update_self] at hq
          rcases List.mem_append.mp hq with hq | hq
          · exact hj j q hq v hv
          · exact (hqp (List.mem_singleton.mp hq)).elim
        · rw [Function.update_of_ne hji] at hq
          exact hj j q hq v hv
  | extract i query =>
    simp only [ListFamily.step] at hs
    cases hf : b.found spec i query with
    | none =>
      rw [hf] at hs
      cases hs
      exact hj
    | some p =>
      rw [hf] at hs
      cases hs
      intro j q hq v hv
      simp only [remove] at hq hv
      by_cases hji : j = i
      · subst hji
        rw [Function.update_self] at hq
        exact hj j q (List.mem_of_mem_erase hq) v hv
      · rw [Function.update_of_ne hji] at hq
        exact hj j q hq v hv

theorem RingOps.Implement.insert_step (hi : ops.Implement spec view ok)
    (hs : s.StandsFor view b) (hj : b.Joined spec) {i : κ} {p : Ptr}
    (ha : s.Allows (θ := θ) view ok (.insert i (some p))) :
    ∃ t c, s.step ops (.insert i (some p)) = some t ∧
      b.step spec (.insert i (some p)) = some c ∧ t.StandsFor view c := by
  obtain ⟨hfree, a, hv, hok⟩ := ha
  have hp : ∀ j, p ∉ b.list j := fun j hj => hfree j (hs.contains_iff.mpr hj)
  have hjoined : ∀ v ∈ (s.heap.vals (b.list i)).map view, spec.Joined v := by
    rw [hs.vals_eq]
    exact fun v => hj.vals
  obtain ⟨h', head', a', he, hr, hv', hsame, hset⟩ :=
    hi.insert (hs.rings.ring i) (hp i) hv hjoined (hok _ (hs.rings.ring i))
  have hb : b.val p = some (view a) := by rw [hs.val, hv, Option.map_some]
  refine ⟨{ s with heap := h', head := Function.update s.head i head' },
    b.append spec i p (view a), ?_, ?_, hs.rings.insert hp hr hsame, ?_, hs.returned⟩
  · simp only [RingState.step, he, Option.bind_eq_bind, Option.bind_some]
  · simp only [ListFamily.step, hb, Option.map_some]
  · intro q
    simp only [ListFamily.append, hv']
    by_cases hq : q = p
    · subst hq
      rw [Function.update_self, Function.update_self, Option.map_some, hset, hs.vals_eq]
    · rw [Function.update_of_ne hq, Function.update_of_ne hq, hs.val]

theorem RingOps.Implement.extract_step (hi : ops.Implement spec view ok)
    (hs : s.StandsFor view b) (i : κ) (query : θ) :
    ∃ t c, s.step ops (.extract i query) = some t ∧
      b.step spec (.extract i query) = some c ∧ t.StandsFor view c := by
  have hpick := hs.found_eq spec i query
  cases hf : b.found spec i query with
  | none =>
    have he := hi.extract_none (hs.rings.ring i) (hpick.trans hf)
    refine ⟨{ s with returned := s.returned ++ [none] },
      { b with returned := b.returned ++ [none] }, ?_, ?_, hs.rings, hs.val, ?_⟩
    · simp only [RingState.step, he, Option.bind_eq_bind, Option.bind_some,
        Function.update_eq_self]
    · simp only [ListFamily.step, hf]
    · rw [hs.returned]
  | some p =>
    obtain ⟨h', head', he, hr, hv', hsame⟩ :=
      hi.extract_some (hs.rings.ring i) (hpick.trans hf)
    refine ⟨⟨h', Function.update s.head i head', s.returned ++ [some p]⟩, b.remove i p, ?_, ?_,
      hs.rings.erase hr hsame, ?_, ?_⟩
    · simp only [RingState.step, he, Option.bind_eq_bind, Option.bind_some]
    · simp only [ListFamily.step, hf]
    · intro q
      rw [hv']
      exact hs.val q
    · simp only [ListFamily.remove, hs.returned]

theorem RingOps.Implement.step (hi : ops.Implement spec view ok) (hs : s.StandsFor view b)
    (hj : b.Joined spec) (e : ListEvent κ θ) (ha : s.Allows view ok e) :
    ∃ t c, s.step ops e = some t ∧ b.step spec e = some c ∧ t.StandsFor view c := by
  cases e with
  | insert i node =>
    cases node with
    | none =>
      refine ⟨s, b, ?_, rfl, hs⟩
      simp only [RingState.step, hi.skip, Option.bind_eq_bind, Option.bind_some,
        Function.update_eq_self]
    | some p => exact hi.insert_step hs hj ha
  | extract i query => exact hi.extract_step hs i query

/-- Whether the steps are allowed can be seen from the lists. -/
theorem RingOps.Implement.steps_meet (hi : ops.Implement spec view ok) (hs : s.StandsFor view b)
    (hj : b.Joined spec) {es : List (ListEvent κ θ)}
    (hok : StepsMeet (ListFamily.step spec) (ListFamily.Allows ok) b es) :
    StepsMeet (RingState.step ops) (RingState.Allows view ok) s es := by
  induction es generalizing s b with
  | nil => exact .nil _ _ _
  | cons e es ih =>
    have ha : s.Allows view ok e := hs.allows_iff.mpr hok.head
    refine .cons ha fun t ht => ?_
    obtain ⟨t', c, ht', hc, htc⟩ := hi.step hs hj e ha
    obtain rfl := Option.some.inj (ht'.symm.trans ht)
    exact ih htc (hj.step hc) (hok.tail hc)

/-- Whatever is inserted and extracted, in whatever rings, the lists follow. -/
theorem RingOps.Implement.run (hi : ops.Implement spec view ok) (h : Heap α)
    {es : List (ListEvent κ θ)}
    (hok : StepsMeet (RingState.step ops) (RingState.Allows view ok) (.start h) es) :
    ∃ t c, Run (RingState.step ops) (.start h) es t ∧
      Run (ListFamily.step spec) (.start fun p => (h.valOf p).map view) es c ∧
      t.StandsFor view c ∧ c.Joined spec := by
  apply StepsMeet.simulate ?_ hok
  · exact ⟨.start h view, fun i p hp => (List.not_mem_nil hp).elim⟩
  · rintro s b e ⟨hs, hj⟩ ha
    obtain ⟨t, c, ht, hc, htc⟩ := hi.step hs hj e ha
    exact ⟨t, c, ht, hc, htc, hj.step hc⟩

end Implementation

end Aiqb
