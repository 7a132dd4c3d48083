import Aiqb.DispatchTurns
import Aiqb.Emitted
import Aiqb.ProblemsKept

namespace Aiqb
set_option autoImplicit true

namespace ProblemSide

def Begun (s : ProblemSide) (p : Ptr) : Prop :=
  ∃ a, s.heap.valOf p = some a ∧ a.header.status ≠ statusNew

def taken (s : ProblemSide) : ProblemEvent → Option Ptr
  | .dispatch => if s.dispatcher = .ready then s.problems else none
  | _ => none

/-- The atom that the main loop has taken and is done with: it marks it, or puts it back. -/
def settled (s : ProblemSide) : ProblemEvent → Option Ptr
  | .dispatch =>
    match s.dispatcher with
    | .holding problem => some problem
    | _ => none
  | _ => none

def joined (s : ProblemSide) : ProblemEvent → Option Ptr
  | .insert atom => some atom
  | .dispatch =>
    match s.dispatcher with
    | .holding problem => (s.heap.valOf problem).bind fun a =>
      if a.header.status = statusNew then none else some problem
    | _ => none
  | .giveBack atom => atom
  | _ => none

end ProblemSide

section Turns

variable {o : Origin} {s s' u v : ProblemSide} {b b' : ProblemBook} {p : Ptr} {xs ys : List Ptr}
  {e : ProblemEvent}

/-- The ring of problems is a queue. -/
theorem ProblemSide.Keeps.problems_queue (hk : s.Keeps b) (hm : b.Moves e b') :
    b.problems ++ (s.joined e).toList = (s.taken e).toList ++ b'.problems := by
  have hhead : s.problems = b.problems.head? := hk.problems.head_eq
  cases hm with
  | take hd hcons =>
    simp only [joined, taken, hk.dispatcher, hd, hhead, hcons, List.head?_cons, ↓reduceIte]
    exact List.append_nil _
  | nothing hd hnil =>
    simp only [joined, taken, hk.dispatcher, hd, hhead, hnil, List.head?_nil, ↓reduceIte]
    rfl
  | mark hd ha hnew =>
    simp only [joined, taken, hk.dispatcher, hd, hk.val, ha, Option.bind_some, hnew, ↓reduceIte]
    exact List.append_nil _
  | putBack hd ha hold =>
    simp only [joined, taken, hk.dispatcher, hd, hk.val, ha, Option.bind_some, hold, ↓reduceIte]
    rfl
  | full hd | room hd | queue hd | start hd =>
    simp only [joined, taken, hk.dispatcher, hd]
    exact List.append_nil _
  | insert | giveBack => rfl
  | register | markSolved | takeSolved => exact List.append_nil _

theorem ProblemSide.Keeps.settled_queue (hk : s.Keeps b) (hm : b.Moves e b') :
    b.dispatcher.list .held ++ (s.taken e).toList =
      (s.settled e).toList ++ b'.dispatcher.list .held := by
  have hhead : s.problems = b.problems.head? := hk.problems.head_eq
  cases hm with
  | take hd hcons =>
    simp only [settled, taken, hk.dispatcher, hd, hhead, hcons, List.head?_cons, ↓reduceIte]
    rfl
  | nothing hd hnil =>
    simp only [settled, taken, hk.dispatcher, hd, hhead, hnil, List.head?_nil, ↓reduceIte]
    rfl
  | mark hd | putBack hd | full hd | room hd | queue hd | start hd =>
    simp only [settled, taken, hk.dispatcher, hd]
    rfl
  | _ => exact List.append_nil _

/-- A problem has begun for good, and one that is settled has begun. -/
theorem ProblemSide.Keeps.begun (hk : s.Keeps b) (hk' : s'.Keeps b') (hm : b.Moves e b')
    (h : s.Begun p ∨ s.settled e = some p) : s'.Begun p := by
  have hset {q : Ptr} {status : UInt8} {a : FsdbT} (hne : status ≠ statusNew)
      (h : (∃ c, b.val p = some c ∧ c.header.status ≠ statusNew) ∨ q = p) :
      ∃ c, b.setStatus q status a p = some c ∧ c.header.status ≠ statusNew := by
    by_cases he : p = q
    · rw [he, ProblemBook.setStatus_self]
      exact ⟨_, rfl, hne⟩
    · rw [ProblemBook.setStatus_other status he]
      exact h.resolve_right fun hq => he hq.symm
  rw [Begun, hk.val] at h
  rw [Begun, hk'.val]
  cases hm with
  | register time =>
    obtain ⟨a, ha, hne⟩ := h.resolve_right nofun
    refine ⟨a, ?_, hne⟩
    have hlive : s.heap.valOf p = some a := hk.val ▸ ha
    have hlt : p < b.size := hk.size ▸ (Heap.live_of_val hlive).lt_size
    exact (Function.update_of_ne (Nat.ne_of_lt hlt) _ _).trans ha
  | mark hd ha hnew =>
    apply hset (by decide)
    simpa only [settled, hk.dispatcher, hd, Option.some.injEq] using h
  | putBack hd ha hold =>
    rcases h with h | h
    · exact h
    · simp only [settled, hk.dispatcher, hd, Option.some.injEq] at h
      exact h ▸ ⟨_, ha, hold⟩
  | markSolved hp ha => exact hset (by decide) (.inl (h.resolve_right nofun))
  | full hd | room hd | nothing hd | take hd | queue hd | start hd =>
    apply h.resolve_right
    simp only [settled, hk.dispatcher, hd]
    nofun
  | insert | takeSolved | giveBack => exact h.resolve_right nofun

theorem ProblemSide.Keeps.waits (hk : s.Keeps b) (hk' : s'.Keeps b') (hb : b.Sound o)
    (hm : b.Moves e b') (hp : p ∈ b.problems) : s'.heap.valOf p = s.heap.valOf p := by
  obtain ⟨phase, hloc⟩ := hb.located
  have hwaiting : phase p = some .waiting := hloc.mem_problems.mp hp
  have hother {q : Ptr} {k : Phase} (hq : q ∈ b.list k) (hne : k ≠ .waiting) : p ≠ q := by
    rintro rfl
    have hphase := (hloc.placed.mem k p).mp hq
    rw [hwaiting, Option.some.injEq] at hphase
    exact hne hphase.symm
  rw [hk.val, hk'.val]
  cases hm with
  | register time =>
    obtain ⟨a, ha, _⟩ := hloc.val_of_mem (k := .waiting) hp
    have hlive : s.heap.valOf p = some a := hk.val ▸ ha
    have hlt : p < b.size := hk.size ▸ (Heap.live_of_val hlive).lt_size
    exact Function.update_of_ne (Nat.ne_of_lt hlt) _ _
  | @mark q a hd ha hnew =>
    have hheld : q ∈ b.list .held := by
      rw [ProblemBook.list, hd]
      exact List.mem_singleton_self _
    exact ProblemBook.setStatus_other _ (hother hheld (by decide))
  | markSolved hq ha => exact ProblemBook.setStatus_other _ (hother (k := .started) hq (by decide))
  | _ => rfl

/-- The daemon's memory stands for a sound book that lists these problems. -/
def ProblemSide.Lists (s : ProblemSide) (o : Origin) (xs : List Ptr) : Prop :=
  ∃ b, s.Keeps b ∧ b.Sound o ∧ b.problems = xs

theorem ProblemSide.Lists.step (h : s.Lists o xs) (hid : IdsStayBelow s e)
    (hs : problemStep s e = some s') :
    ∃ ys, s'.Lists o ys ∧ xs ++ (s.joined e).toList = (s.taken e).toList ++ ys := by
  obtain ⟨b, hk, hb, rfl⟩ := h
  obtain ⟨b', hbs, hk', hb'⟩ := hk.sound_step hb hid hs
  exact ⟨b'.problems, ⟨b', hk', hb', rfl⟩, hk.problems_queue (ProblemBook.moves hbs)⟩

theorem getElem?_of_queue {xs ys ps qs : List α} (h : xs ++ ps = qs ++ ys) (hk : xs[k]? = some a) :
    (k < qs.length → qs[k]? = some a) ∧ (qs.length ≤ k → ys[k - qs.length]? = some a) := by
  have hall : (qs ++ ys)[k]? = some a := by
    rw [← h, List.getElem?_append_left (List.getElem?_eq_some_iff.mp hk).1]
    exact hk
  constructor
  · intro hlt
    rwa [List.getElem?_append_left hlt] at hall
  · intro hle
    rwa [List.getElem?_append_right hle] at hall

theorem Dispatcher.held_length (d : Dispatcher) : (d.list .held).length ≤ 1 := by
  cases d <;> simp [list]

theorem ProblemSide.Lists.run (h : u.Lists o ys) (hok : StepsMeet problemStep IdsStayBelow u fs)
    (hr : Run problemStep u fs v) :
    ∃ zs, v.Lists o zs ∧ ys ++ emitted problemStep joined u fs =
      emitted problemStep taken u fs ++ zs :=
  hr.queue (Q := fun s xs => s.Lists o xs) hok h fun _ _ _ _ hs hid hstep => hs.step hid hstep

theorem ProblemSide.Lists.begun (h : u.Lists o ys) (hok : StepsMeet problemStep IdsStayBelow u fs)
    (hr : Run problemStep u fs v) (hp : (emitted problemStep taken u fs)[k]? = some p)
    (hk : k + 1 < (emitted problemStep taken u fs).length) : v.Begun p := by
  obtain ⟨b, hkeeps, hb, _⟩ := h
  have hsettled : ∃ zs, (∃ c, v.Keeps c ∧ c.Sound o ∧ c.dispatcher.list .held = zs) ∧
      b.dispatcher.list .held ++ emitted problemStep taken u fs =
        emitted problemStep settled u fs ++ zs := by
    apply hr.queue (Q := fun s zs => ∃ c, s.Keeps c ∧ c.Sound o ∧ c.dispatcher.list .held = zs) hok
      ⟨b, hkeeps, hb, rfl⟩
    rintro s _ e t ⟨c, hc, hsound, rfl⟩ hid hs
    obtain ⟨c', hcs, hc', hsound'⟩ := hc.sound_step hsound hid hs
    exact ⟨_, ⟨c', hc', hsound', rfl⟩, hc.settled_queue (ProblemBook.moves hcs)⟩
  obtain ⟨_, ⟨c, _, _, rfl⟩, hqueue⟩ := hsettled
  refine hr.of_emitted (I := fun s => ∃ c, s.Keeps c ∧ c.Sound o) (P := fun s q => s.Begun q) hok
    ⟨b, hkeeps, hb⟩ ?_ ?_ (?_ : p ∈ emitted problemStep settled u fs)
  · rintro s e t ⟨c, hc, hsound⟩ hid hs
    obtain ⟨c', _, hc'⟩ := hc.sound_step hsound hid hs
    exact ⟨c', hc'⟩
  · rintro s e t q ⟨c, hc, hsound⟩ hs hq
    obtain ⟨c', hcs, hc'⟩ := optionRel_left (hc.step hsound.apart e) hs
    exact hc.begun hc' (ProblemBook.moves hcs) hq
  · have hlength := congrArg List.length hqueue
    rw [List.length_append, List.length_append] at hlength
    have hheld := c.dispatcher.held_length
    have hshift : (b.dispatcher.list .held ++ emitted problemStep taken u fs)[
        (b.dispatcher.list .held).length + k]? = some p := by
      rw [List.getElem?_append_right (Nat.le_add_right _ _), Nat.add_sub_cancel_left]
      exact hp
    rw [hqueue, List.getElem?_append_left (by omega)] at hshift
    exact List.mem_of_getElem? hshift

/-- The main loop takes the problems in the order in which they stand in the ring, and what comes
comes at the end. Until its turn a problem waits as it is, and when the turn after it has come it
has begun, whatever the other threads do. -/
theorem problems_begin_in_turn (hl : s.Loaded xs)
    (hids : StepsMeet problemStep IdsStayBelow s (es ++ fs)) (hr : Run problemStep s es u)
    (hr' : Run problemStep u fs v) (hq : Ring u.heap u.problems ys) (hp : ys[k]? = some p) :
    ((emitted problemStep ProblemSide.taken u fs).length ≤ k →
      v.heap.valOf p = u.heap.valOf p ∧ ∃ zs, Ring v.heap v.problems zs ∧
        zs[k - (emitted problemStep ProblemSide.taken u fs).length]? = some p) ∧
    (k + 1 < (emitted problemStep ProblemSide.taken u fs).length → v.Begun p) := by
  have hlists : u.Lists hl.origin ys := by
    have hI : ∃ b, u.Keeps b ∧ b.Sound hl.origin := by
      apply hr.preserves (hids.of_prefix (List.prefix_append es fs)) ⟨_, hl.keeps, hl.sound⟩
      rintro s e t ⟨c, hc, hsound⟩ hid hs
      obtain ⟨c', _, hc'⟩ := hc.sound_step hsound hid hs
      exact ⟨c', hc'⟩
    obtain ⟨b, hk, hb⟩ := hI
    exact ⟨b, hk, hb, hk.problems.unique hq⟩
  have hok : StepsMeet problemStep IdsStayBelow u fs := hids.of_suffix hr
  constructor
  · intro hn
    have hwaits : StepsMeet problemStep (fun t _ => ∃ ws, t.Lists hl.origin ws ∧ p ∈ ws) u fs := by
      intro pre e t hpre ht
      have hprefix := (List.prefix_append pre [e]).trans hpre
      obtain ⟨ws, hws, hqueue⟩ := hlists.run (hok.of_prefix hprefix) ht
      obtain ⟨suf, rfl⟩ := hprefix
      rw [emitted_append ht, List.length_append] at hn
      have hle := Nat.le_trans (Nat.le_add_right _ _) hn
      exact ⟨ws, hws, List.mem_of_getElem? ((getElem?_of_queue hqueue hp).2 hle)⟩
    constructor
    · apply hr'.preserves (I := fun t => t.heap.valOf p = u.heap.valOf p) hwaits rfl
      rintro s e t hsame ⟨ws, ⟨c, hc, hsound, rfl⟩, hmem⟩ hs
      obtain ⟨c', hcs, hc'⟩ := optionRel_left (hc.step hsound.apart e) hs
      exact (hc.waits hc' hsound (ProblemBook.moves hcs) hmem).trans hsame
    · obtain ⟨zs, ⟨c, hc, _, rfl⟩, hqueue⟩ := hlists.run hok hr'
      exact ⟨c.problems, hc.problems, (getElem?_of_queue hqueue hp).2 hn⟩
  · intro hn
    obtain ⟨zs, _, hqueue⟩ := hlists.run hok hr'
    exact hlists.begun hok hr' ((getElem?_of_queue hqueue hp).1 (Nat.lt_of_succ_lt hn)) hn

def ProblemSide.waiting : ProblemSide :=
  { ProblemSide.void 2 [47, 97] with
    heap := Heap.empty.alloc ⟨[47, 97, 47, 49], ⟨1, 0, 0, 0, statusNew⟩⟩
    problems := some 0
    autoIncrement := 2 }

theorem ProblemSide.waiting_val {p : Ptr} {a : FsdbT} (h : waiting.heap.valOf p = some a) :
    p = 0 ∧ a = ⟨[47, 97, 47, 49], ⟨1, 0, 0, 0, statusNew⟩⟩ := by
  rw [waiting, Heap.alloc_valOf, Function.update_apply] at h
  split at h
  · next hp => exact ⟨hp, (Option.some.inj h).symm⟩
  · cases h

theorem ProblemSide.waiting_loaded : waiting.Loaded [0] where
  problems := Ring.alone _
  live p hp := by
    obtain ⟨a, ha⟩ := Heap.live_iff_val.mp hp
    rw [(waiting_val ha).1]
    exact List.mem_singleton_self 0
  problemQueue := rfl
  unique p q a c ha hc _ := (waiting_val ha).1.trans (waiting_val hc).1.symm
  status p a ha := .inl (by rw [(waiting_val ha).2])
  below p a ha := by
    rw [(waiting_val ha).2]
    decide
  autoIncrement := rfl
  dispatcher := rfl
  registering := rfl
  started := rfl
  solved := rfl
  returning := rfl

/-- The only problem is started, another one is registered, and the main loop takes it too. -/
def twoTurns : List ProblemEvent :=
  [.dispatch, .dispatch, .dispatch, .dispatch, .dispatch, .register 0, .insert 1, .dispatch,
    .dispatch]

theorem problems_begin_in_turn_two :
    ∃ v, Run problemStep .waiting twoTurns v ∧
      emitted problemStep ProblemSide.taken .waiting twoTurns = [0, 1] ∧ v.Begun 0 := by
  have hsome : (twoTurns.foldlM problemStep ProblemSide.waiting).isSome := by decide +kernel
  have htaken : emitted problemStep ProblemSide.taken .waiting twoTurns = [0, 1] := by
    decide +kernel
  obtain ⟨v, hv⟩ := Option.isSome_iff_exists.mp hsome
  have hids : StepsMeet problemStep IdsStayBelow ProblemSide.waiting ([] ++ twoTurns) :=
    ProblemSide.waiting_loaded.idsStayBelow (by decide)
  have hturn := problems_begin_in_turn ProblemSide.waiting_loaded hids (Run.nil_iff.mpr rfl) hv
    ProblemSide.waiting_loaded.problems (k := 0) rfl
  refine ⟨v, hv, htaken, hturn.2 ?_⟩
  rw [htaken]
  decide

end Turns

end Aiqb
