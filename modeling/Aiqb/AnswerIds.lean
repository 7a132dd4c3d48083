import Mathlib.Algebra.GroupWithZero.Nat
import Aiqb.AnswerInvariants

namespace Aiqb
set_option autoImplicit true

def AnswerEvent.registers : AnswerEvent → Nat
  | .register _ => 1
  | _ => 0

def registrations (es : List AnswerEvent) : Nat := (es.map AnswerEvent.registers).sum

/-- Distinct answers of the two queues have different ids, all at least 1. -/
def AnswerSide.IdsUnique (s : AnswerSide) : Prop :=
  ∃ xs ys, s.Holds xs ys ∧
    ∀ p ∈ xs ++ ys, ∃ a, s.heap.valOf p = some a ∧ 1 ≤ a.id ∧
      ∀ q ∈ xs ++ ys, ∀ c, s.heap.valOf q = some c → a.id = c.id → p = q

def Follows (ids : List UInt64) (i : UInt64) : Prop :=
  (∀ j ∈ ids, j < i) ∧ (i = 1 ∨ i - 1 ∈ ids)

/-- No answer that waits for its solver has an id right after those of the stored answers. -/
def AnswerSide.NoneFollows (s : AnswerSide) : Prop :=
  ∀ xs ys, s.Holds xs ys →
    ∀ q ∈ ys, ∀ c, s.heap.valOf q = some c → ¬ Follows (idsOf s.heap.valOf xs) c.id

def RegistersFreely (s : AnswerSide) : AnswerEvent → Prop
  | .register _ => s.NoneFollows
  | _ => True

theorem mem_lastId (hne : ids ≠ []) (hpos : ∀ i ∈ ids, 1 ≤ i.toNat) : lastId ids ∈ ids := by
  suffices h : ∀ b : UInt64, ids.foldl (fun l i => if l > i then l else i) b = b ∧
      (∀ i ∈ ids, i.toNat < b.toNat) ∨ ids.foldl (fun l i => if l > i then l else i) b ∈ ids by
    rcases h 1 with ⟨_, hlt⟩ | hmem
    · obtain ⟨i, hi⟩ := List.exists_mem_of_ne_nil ids hne
      exact absurd (hpos i hi) (Nat.not_le_of_gt (hlt i hi))
    · exact hmem
  clear hne hpos
  induction ids with
  | nil => exact fun b => .inl ⟨rfl, fun _ hi => nomatch hi⟩
  | cons j ids ih =>
    intro b
    rw [List.foldl_cons]
    by_cases hj : b > j
    · rw [if_pos hj]
      rcases ih b with ⟨he, hlt⟩ | hmem
      · refine .inl ⟨he, ?_⟩
        intro i hi
        rcases List.mem_cons.mp hi with rfl | hi
        · exact UInt64.lt_iff_toNat_lt.mp hj
        · exact hlt i hi
      · exact .inr (List.mem_cons_of_mem _ hmem)
    · rw [if_neg hj]
      rcases ih j with ⟨he, _⟩ | hmem
      · right
        rw [he]
        exact List.mem_cons_self
      · exact .inr (List.mem_cons_of_mem _ hmem)

/-- The next id is the one that follows, as long as the ids do not wrap. -/
theorem follows_iff (hpos : ∀ i ∈ ids, 1 ≤ i.toNat) (hmax : ∀ i ∈ ids, i.toNat < 2 ^ 64 - 1) :
    Follows ids i ↔ i = nextId ids := by
  cases ids with
  | nil => simp [Follows, nextId]
  | cons k ks =>
    have hmem := mem_lastId (List.cons_ne_nil k ks) hpos
    have hlast := hmax _ hmem
    have hsucc : (lastId (k :: ks) + 1).toNat = (lastId (k :: ks)).toNat + 1 := by
      rw [UInt64.toNat_add, UInt64.toNat_one]
      omega
    rw [nextId, if_neg (List.cons_ne_nil k ks)]
    constructor
    · rintro ⟨hlt, h1 | hpred⟩
      · have hk := UInt64.lt_iff_toNat_lt.mp (hlt k List.mem_cons_self)
        have hk1 := hpos k List.mem_cons_self
        rw [h1, UInt64.toNat_one] at hk
        omega
      · have hi := UInt64.lt_iff_toNat_lt.mp (hlt _ hmem)
        have hle := le_lastId hpred
        have hmax := i.toNat_lt
        rw [UInt64.toNat_sub, UInt64.toNat_one] at hle
        apply UInt64.toNat_inj.mp
        rw [hsucc]
        omega
    · rintro rfl
      constructor
      · intro j hj
        have hle := le_lastId hj
        exact UInt64.lt_iff_toNat_lt.mpr (by omega)
      · right
        rw [UInt64.add_sub_cancel]
        exact hmem

namespace AnswerBook

variable {b b' : AnswerBook} {e : AnswerEvent} {n : Nat}

structure Counted (n : Nat) (b : AnswerBook) : Prop where
  placed : b.Placed
  pos : ∀ i ∈ b.ids, 1 ≤ i.toNat
  le : ∀ i ∈ b.ids, i.toNat ≤ n

theorem Counted.ne_zero (hc : b.Counted n) : ∀ i ∈ b.ids, i ≠ 0 := by
  rintro i hi rfl
  exact absurd (hc.pos 0 hi) (by decide)

theorem answers_ids_sub (hi : i ∈ idsOf b.val b.answers) : i ∈ b.ids := by
  rw [ids, nodes, idsOf_append]
  exact List.mem_append_left _ hi

theorem Placed.register_ids (hp : b.Placed) (a : AnswerT) :
    (b.register a).ids.Perm (nextId (idsOf b.val b.answers) :: b.ids) := by
  have hperm := idsOf_perm (b.register a).val (register_nodes b a)
  have hrest : idsOf (b.register a).val b.nodes = b.ids := idsOf_update hp.size_notMem _
  have hnew : (b.register a).val b.size =
      some { a with id := nextId (idsOf b.val b.answers), status := statusNew } :=
    Function.update_self _ _ _
  rw [idsOf_cons hnew, hrest] at hperm
  exact hperm

theorem Placed.delete_ids (hp : b.Placed) (id : UInt64) :
    (b.delete id).ids.Sublist b.ids := by
  rcases delete_cases b id with he | ⟨p, hl, he⟩
  · rw [he]
  · have hnd := hp.delete id
    have hsub : (b.delete id).nodes.Sublist b.nodes := by
      rw [he]
      exact List.erase_sublist.append_right _
    have hval : idsOf (b.delete id).val (b.delete id).nodes = idsOf b.val (b.delete id).nodes := by
      apply idsOf_congr
      intro q hq
      have hlive := (hnd.live q).mp hq
      rw [he] at hlive ⊢
      apply Function.update_of_ne
      rintro rfl
      simp only [Function.update_self, Option.isSome_none, Bool.false_eq_true] at hlive
    rw [ids, hval, ids, idsOf_eq, idsOf_eq]
    exact hsub.filterMap _

theorem Counted.nextId_toNat (hc : b.Counted n) (hn : n < 2 ^ 64 - 1) :
    1 ≤ (nextId (idsOf b.val b.answers)).toNat ∧
      (nextId (idsOf b.val b.answers)).toNat ≤ n + 1 := by
  unfold nextId
  split
  · exact ⟨Nat.le_refl 1, Nat.le_add_left 1 n⟩
  · next hne =>
    have hpos : ∀ i ∈ idsOf b.val b.answers, 1 ≤ i.toNat :=
      fun i hi => hc.pos i (answers_ids_sub hi)
    have hle := hc.le _ (answers_ids_sub (mem_lastId hne hpos))
    rw [UInt64.toNat_add, UInt64.toNat_one]
    omega

theorem Counted.step (hc : b.Counted n) (hn : n + e.registers ≤ 2 ^ 64 - 1)
    (h : b.step e = some b') : b'.Counted (n + e.registers) := by
  have hp := hc.placed.step h
  have hmoves (hm : Moves b b') : b'.Counted n := by
    have hperm := hm.ids_perm hc.ne_zero
    exact ⟨hp, fun i hi => hc.pos i (hperm.mem_iff.mp hi),
      fun i hi => hc.le i (hperm.mem_iff.mp hi)⟩
  cases e with
  | register a =>
    cases h
    have hperm := hc.placed.register_ids a
    obtain ⟨hpos, hle⟩ := hc.nextId_toNat (Nat.lt_of_succ_le hn)
    refine ⟨hp, ?_, ?_⟩
    · intro i hi
      rcases List.mem_cons.mp (hperm.mem_iff.mp hi) with rfl | hi
      · exact hpos
      · exact hc.pos i hi
    · intro i hi
      rcases List.mem_cons.mp (hperm.mem_iff.mp hi) with rfl | hi
      · exact hle
      · exact Nat.le_succ_of_le (hc.le i hi)
  | dispatch => exact hmoves (dispatch_moves h)
  | complete p => exact hmoves (complete_moves h)
  | delete id =>
    cases h
    have hsub := (hc.placed.delete_ids id).subset
    exact ⟨hp, fun i hi => hc.pos i (hsub hi), fun i hi => hc.le i (hsub hi)⟩

theorem counted_start (limit : UInt32) : (start limit).Counted 0 :=
  ⟨placed_start limit, fun _ hi => absurd hi List.not_mem_nil,
    fun _ hi => absurd hi List.not_mem_nil⟩

/-- The ids stay different, unless a registration assigns one that is taken. -/
theorem Counted.step_nodup (hc : b.Counted n) (hn : n + e.registers ≤ 2 ^ 64 - 1)
    (hfree : ∀ a, e = .register a → nextId (idsOf b.val b.answers) ∉ idsOf b.val b.answerQueue)
    (hd : b.ids.Nodup) (h : b.step e = some b') : b'.ids.Nodup := by
  cases e with
  | register a =>
    cases h
    rw [(hc.placed.register_ids a).nodup_iff, List.nodup_cons]
    refine ⟨?_, hd⟩
    rw [ids, nodes, idsOf_append, List.mem_append]
    rintro (hx | hy)
    · have hle := le_lastId hx
      have hne : idsOf b.val b.answers ≠ [] := List.ne_nil_of_mem hx
      have hpos : ∀ i ∈ idsOf b.val b.answers, 1 ≤ i.toNat :=
        fun i hi => hc.pos i (answers_ids_sub hi)
      have hlast := hc.le _ (answers_ids_sub (mem_lastId hne hpos))
      have hlt : n + 1 ≤ 2 ^ 64 - 1 := hn
      rw [nextId, if_neg hne, UInt64.toNat_add, UInt64.toNat_one] at hle
      omega
    · exact hfree a rfl hy
  | dispatch => exact ((dispatch_moves h).ids_perm hc.ne_zero).nodup_iff.mpr hd
  | complete p => exact ((complete_moves h).ids_perm hc.ne_zero).nodup_iff.mpr hd
  | delete id =>
    cases h
    exact (hc.placed.delete_ids id).nodup hd

end AnswerBook

theorem idsOf_nodup_iff {val : Ptr → Option AnswerT} (hnd : xs.Nodup) :
    (idsOf val xs).Nodup ↔ ∀ p ∈ xs, ∀ a, val p = some a →
      ∀ q ∈ xs, ∀ c, val q = some c → a.id = c.id → p = q := by
  rw [idsOf, List.Nodup, List.pairwise_map, List.pairwise_filterMap]
  constructor
  · intro hpw p hp a ha q hq c hc hid
    have hsymm : Std.Symm fun p q => ∀ a, val p = some a → ∀ c, val q = some c → a.id ≠ c.id :=
      ⟨fun p q h a ha c hc he => h c hc a ha he.symm⟩
    by_contra hne
    exact hpw.forall hp hq hne a ha c hc hid
  · intro h
    apply hnd.pairwise_of_forall_ne
    intro p hp q hq hne a ha c hc hid
    exact hne (h p hp a ha q hq c hc hid)

namespace Represents

variable {s : AnswerSide} {b : AnswerBook}

theorem holds_eq (hr : Represents s b) (h : s.Holds xs ys) :
    xs = b.answers ∧ ys = b.answerQueue :=
  ⟨h.answers.unique hr.holds.answers, h.answerQueue.unique hr.holds.answerQueue⟩

theorem ids_unique_iff (hr : Represents s b) (hc : b.Counted n) : s.IdsUnique ↔ b.ids.Nodup := by
  rw [AnswerBook.ids, idsOf_nodup_iff hc.placed.nodup]
  constructor
  · rintro ⟨xs, ys, hh, h⟩ p hp a ha q hq c hv hid
    obtain ⟨rfl, rfl⟩ := hr.holds_eq hh
    obtain ⟨a', ha', _, h⟩ := h p hp
    rw [hr.val] at ha' h
    cases ha.symm.trans ha'
    exact h q hq c hv hid
  · intro h
    refine ⟨b.answers, b.answerQueue, hr.holds, ?_⟩
    intro p hp
    obtain ⟨a, ha⟩ := Option.isSome_iff_exists.mp ((hc.placed.live p).mp hp)
    have hpos := hc.pos a.id (mem_idsOf hp ha)
    rw [hr.val]
    exact ⟨a, ha, UInt64.le_iff_toNat_le.mpr hpos, fun q hq c hv => h p hp a ha q hq c hv⟩

theorem none_follows_iff (hr : Represents s b) (hc : b.Counted n) (hn : n < 2 ^ 64 - 1) :
    s.NoneFollows ↔ nextId (idsOf b.val b.answers) ∉ idsOf b.val b.answerQueue := by
  have hpos : ∀ i ∈ idsOf b.val b.answers, 1 ≤ i.toNat :=
    fun i hi => hc.pos i (AnswerBook.answers_ids_sub hi)
  have hmax : ∀ i ∈ idsOf b.val b.answers, i.toNat < 2 ^ 64 - 1 :=
    fun i hi => Nat.lt_of_le_of_lt (hc.le i (AnswerBook.answers_ids_sub hi)) hn
  constructor
  · intro h hmem
    obtain ⟨c, hcm, hid⟩ := List.mem_map.mp hmem
    obtain ⟨q, hq, hv⟩ := List.mem_filterMap.mp hcm
    rw [← hr.val] at hv
    apply h _ _ hr.holds q hq c hv
    rw [hr.val, follows_iff hpos hmax, hid]
  · intro h xs ys hh q hq c hv hf
    obtain ⟨rfl, rfl⟩ := hr.holds_eq hh
    rw [hr.val] at hv hf
    rw [follows_iff hpos hmax] at hf
    exact h (hf ▸ mem_idsOf hq hv)

end Represents

theorem registrations_append (es fs : List AnswerEvent) :
    registrations (es ++ fs) = registrations es + registrations fs := by
  rw [registrations, List.map_append, List.sum_append]
  rfl

theorem registrations_snoc (es : List AnswerEvent) (e : AnswerEvent) :
    registrations (es ++ [e]) = registrations es + e.registers := registrations_append es [e]

theorem registrations_mono (hp : pre <+: es) : registrations pre ≤ registrations es := by
  obtain ⟨suf, rfl⟩ := hp
  rw [registrations_append]
  exact Nat.le_add_right _ _

theorem counted_of_book (hreg : registrations es ≤ 2 ^ 64 - 1)
    (hb : Run AnswerBook.step (.start limit) es b) : b.Counted (registrations es) := by
  apply hb.preserves_history (StepsMeet.trivial _ _ _) (AnswerBook.counted_start limit)
    (I := fun pre b => b.Counted (registrations pre))
  intro pre m e c hp hc _ hs
  have hle := registrations_mono hp
  rw [registrations_snoc] at hle ⊢
  exact hc.step (hle.trans hreg) hs

theorem counted_of_run (hreg : registrations es ≤ 2 ^ 64 - 1)
    (hr : Run answerStep (.start limit) es t) :
    ∃ b, Represents t b ∧ b.Counted (registrations es) := by
  obtain ⟨b, hb, hrep⟩ := Run.related (fun s b e h => h.step e) (represents_start limit) hr
  exact ⟨b, hrep, counted_of_book hreg hb⟩

theorem nodup_of_run (hreg : registrations es < 2 ^ 64 - 1)
    (hok : StepsMeet answerStep RegistersFreely (.start limit) es)
    (hr : Run answerStep (.start limit) es t) :
    ∃ b, Represents t b ∧ b.Counted (registrations es) ∧ b.ids.Nodup := by
  apply hr.preserves_history hok
    (I := fun pre t => ∃ b, Represents t b ∧ b.Counted (registrations pre) ∧ b.ids.Nodup)
  · exact ⟨_, represents_start limit, AnswerBook.counted_start limit, List.nodup_nil⟩
  · rintro pre m e u hp ⟨b, hrep, hc, hd⟩ hfree hs
    have hle := (registrations_mono hp).trans (Nat.le_of_lt hreg)
    rw [registrations_snoc] at hle ⊢
    obtain ⟨b', hb, hrep'⟩ := optionRel_left (hrep.step e) hs
    refine ⟨b', hrep', hc.step hle hb, hc.step_nodup hle ?_ hd hb⟩
    rintro a rfl
    exact (hrep.none_follows_iff hc (Nat.lt_of_succ_le hle)).mp hfree

/-- Ids stay unique along a run exactly when no registration finds the id it is going to assign on
an answer that waits for its solver. -/
theorem AnswerSide.ids_unique_iff_registers_freely (limit : UInt32) (es : List AnswerEvent)
    (hreg : registrations es < 2 ^ 64 - 1) :
    AllReached answerStep AnswerSide.IdsUnique (.start limit) es ↔
      StepsMeet answerStep RegistersFreely (.start limit) es := by
  constructor
  · intro hall pre e t hp hr
    cases e with
    | register a =>
      have hle := registrations_mono hp
      rw [registrations_snoc] at hle
      have hn : registrations pre + 1 ≤ registrations es := hle
      obtain ⟨b, hrep, hc⟩ := counted_of_run (Nat.le_of_lt (Nat.lt_trans hn hreg)) hr
      obtain ⟨t', he, hrep'⟩ := hrep.register a
      have hc' := hc.step (e := .register a) (Nat.le_of_lt (Nat.lt_of_le_of_lt hn hreg)) rfl
      have hd := (hrep'.ids_unique_iff hc').mp (hall _ t' hp (Run.snoc_iff.mpr ⟨t, hr, he⟩))
      rw [(hc.placed.register_ids a).nodup_iff, List.nodup_cons, AnswerBook.ids, AnswerBook.nodes,
        idsOf_append, List.mem_append, not_or] at hd
      exact (hrep.none_follows_iff hc (Nat.lt_of_succ_le (hn.trans (Nat.le_of_lt hreg)))).mpr hd.1.2
    | dispatch => trivial
    | complete p => trivial
    | delete id => trivial
  · intro hok pre t hp hr
    have hpre := Nat.lt_of_le_of_lt (registrations_mono hp) hreg
    obtain ⟨b, hrep, hc, hd⟩ := nodup_of_run hpre (hok.of_prefix hp) hr
    exact (hrep.ids_unique_iff hc).mpr hd

def AnswerT.oneRow : AnswerT := ⟨0, 1, 1, 0, some ⟨4096, 16, fun _ => 0⟩, some 0⟩

def threeAnswersRun : List AnswerEvent :=
  [.register .oneRow, .register .oneRow, .dispatch, .register .oneRow, .complete 0]

theorem AnswerSide.ids_unique_iff_registers_freely_three :
    (∃ t, Run answerStep (.start 1) threeAnswersRun t) ∧
      (AllReached answerStep AnswerSide.IdsUnique (.start 1) threeAnswersRun ↔
        StepsMeet answerStep RegistersFreely (.start 1) threeAnswersRun) := by
  have hsome : (threeAnswersRun.foldlM answerStep (AnswerSide.start 1)).isSome := by
    decide +kernel
  exact ⟨Option.isSome_iff_exists.mp hsome,
    AnswerSide.ids_unique_iff_registers_freely 1 threeAnswersRun (by decide)⟩

/-- A registration while the only answer is at its solver. -/
theorem AnswerSide.ids_not_unique :
    ∃ t, registrations [.register .oneRow, .dispatch, .register .oneRow] < 2 ^ 64 - 1 ∧
      Run answerStep (.start 1) [.register .oneRow, .dispatch, .register .oneRow] t ∧
      ¬ t.IdsUnique := by
  have hb : ∃ b,
      Run AnswerBook.step (.start 1) [.register .oneRow, .dispatch, .register .oneRow] b ∧
        b.ids = [1, 1] := ⟨_, rfl, rfl⟩
  obtain ⟨b, hb, hids⟩ := hb
  obtain ⟨t, hr, hrep⟩ := Run.realized (fun s b e h => h.step e) (represents_start 1) hb
  refine ⟨t, by decide, hr, ?_⟩
  rw [hrep.ids_unique_iff (counted_of_book (by decide) hb), hids]
  decide

end Aiqb
