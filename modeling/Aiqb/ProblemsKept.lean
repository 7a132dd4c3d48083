import Aiqb.ProblemLife
import Aiqb.ProblemRefinement

namespace Aiqb
set_option autoImplicit true

structure ProblemSide.Loaded (s : ProblemSide) (xs : List Ptr) : Prop where
  problems : Ring s.heap s.problems xs
  live : ∀ p, s.heap.Live p → p ∈ xs
  problemQueue : s.problemQueue = none
  unique : ∀ p q a c, s.heap.valOf p = some a → s.heap.valOf q = some c →
    a.header.id = c.header.id → p = q
  status : ∀ p a, s.heap.valOf p = some a →
    a.header.status = statusNew ∨ a.header.status = statusSolved
  below : ∀ p a, s.heap.valOf p = some a → a.header.id.toNat < 2 ^ 64 - 1
  autoIncrement : (lastIdDb s.heap s.problems).map (· + 1) = some s.autoIncrement
  dispatcher : s.dispatcher = .idle
  registering : s.registering = []
  started : s.started = []
  solved : s.solved = []
  returning : s.returning = []

/-- The id that the next registration takes is below the largest one. -/
def IdsStayBelow (s : ProblemSide) (e : ProblemEvent) : Prop :=
  ∀ time, e = .register time → s.autoIncrement.toNat < 2 ^ 64 - 1

/-- Every problem that was loaded, or registered since, is in one place, once: in one of the two
rings, or with one thread. No thread runs into undefined behaviour. -/
structure ProblemSide.KeepsAll (s : ProblemSide) (o : Origin) (xs ys : List Ptr) : Prop where
  problems : Ring s.heap s.problems xs
  problemQueue : Ring s.heap s.problemQueue ys
  once : (xs ++ ys ++ s.held).Nodup
  all : ∀ p, p ∈ xs ++ ys ++ s.held ↔ o.Stored s.heap.size p
  queued : ∀ p ∈ ys, (∃ a, s.heap.valOf p = some a ∧ a.header.status = statusInProgress) ∨
    p ∈ s.solved
  waiting : ∀ p ∈ xs, ∀ a, s.heap.valOf p = some a → a.header.status ≠ statusInProgress
  room : ys.length ≤ s.problemQueueSize.toNat
  completes : ∀ p ∈ s.solved, ∃ h db, extractCompleted s p = some (h, db, some p)
  defined : ∀ e, s.Enabled e → ∃ t, problemStep s e = some t

namespace ProblemSide

variable {o : Origin} {s s' : ProblemSide} {b : ProblemBook} {xs : List Ptr}

def Loaded.origin (h : s.Loaded xs) : Origin where
  loaded := xs
  next := s.heap.size
  lt_next _ hp := (h.problems.live hp).lt_size

def loadedBook (s : ProblemSide) (xs : List Ptr) : ProblemBook where
  size := s.heap.size
  val := s.heap.valOf
  problems := xs
  problemQueue := []
  limit := s.problemQueueSize
  autoIncrement := s.autoIncrement
  databaseDir := s.databaseDir
  dispatcher := .idle
  registering := []
  started := []
  solved := []
  returning := []

theorem Loaded.keeps (h : s.Loaded xs) : s.Keeps (s.loadedBook xs) :=
  ⟨h.problems, h.problemQueue ▸ .nil _, fun _ _ hm => absurd hm List.not_mem_nil, rfl, rfl, rfl,
    rfl, rfl, h.dispatcher, h.registering, h.started, h.solved, h.returning⟩

theorem Loaded.numbered (h : s.Loaded xs) : (s.loadedBook xs).Numbered where
  unique := h.unique
  below p a ha := by
    have hids : ∀ i ∈ dbIds s.heap.valOf xs, i.toNat ≤ 2 ^ 64 - 2 := by
      intro i hi
      rw [dbIds, headersOf, List.map_map] at hi
      obtain ⟨c, hc, rfl⟩ := List.mem_map.mp hi
      obtain ⟨q, _, hq⟩ := List.mem_filterMap.mp hc
      exact Nat.le_sub_one_of_lt (h.below q c hq)
    have hauto := h.autoIncrement
    rw [lastIdDb_spec h.problems, Option.map_some, Option.some.injEq] at hauto
    have hlast := lastIdOf_le hids
    have hsucc : s.autoIncrement.toNat = (lastIdOf (dbIds s.heap.valOf xs)).toNat + 1 := by
      rw [← hauto, UInt64.toNat_add, UInt64.toNat_one]
      omega
    have hle : a.header.id.toNat ≤ (lastIdOf (dbIds s.heap.valOf xs)).toNat :=
      le_lastIdOf (mem_dbIds (h.live p (Heap.live_of_val ha)) ha)
    have hauto' : (s.loadedBook xs).autoIncrement = s.autoIncrement := rfl
    rw [hauto', hsucc]
    omega

theorem Loaded.located (h : s.Loaded xs) :
    (s.loadedBook xs).Located h.origin fun p => if p ∈ xs then some .waiting else none where
  placed := by
    constructor
    · intro k
      cases k <;> first | exact h.problems.nodup | exact List.nodup_nil
    · intro k p
      by_cases hp : p ∈ xs
      · rw [if_pos hp, Option.some.injEq]
        cases k <;> first | exact iff_of_true hp rfl | exact iff_of_false List.not_mem_nil (by simp)
      · rw [if_neg hp]
        cases k <;> first | exact iff_of_false hp (by simp) |
          exact iff_of_false List.not_mem_nil (by simp)
  stored p := by
    have hnew : ¬ (h.origin.next ≤ p ∧ p < (s.loadedBook xs).size) :=
      fun hlt => Nat.lt_irrefl _ (Nat.lt_of_lt_of_le hlt.2 hlt.1)
    rw [Origin.Stored, or_iff_left hnew]
    by_cases hp : p ∈ xs
    · rw [if_pos hp]
      exact iff_of_true rfl hp
    · rw [if_neg hp]
      exact iff_of_false Bool.false_ne_true hp
  grown := Nat.le_refl _
  atom p k hk := by
    by_cases hp : p ∈ xs
    · rw [if_pos hp, Option.some.injEq] at hk
      obtain ⟨a, ha⟩ := Heap.live_iff_val.mp (h.problems.live hp)
      exact ⟨a, ha, hk ▸ h.status p a ha⟩
    · rw [if_neg hp] at hk
      cases hk
  queueNodup := List.nodup_nil
  queue p := by
    refine iff_of_false List.not_mem_nil ?_
    rintro ⟨k, hk, hin⟩
    split at hk
    · rw [← Option.some.inj hk] at hin
      cases hin
    · cases hk

theorem Loaded.sound (h : s.Loaded xs) : (s.loadedBook xs).Sound h.origin :=
  ⟨⟨_, h.located⟩, h.numbered, List.not_mem_nil, Nat.zero_le _⟩

/-- What a step does to a daemon whose book is sound. -/
theorem Keeps.sound_step (hk : s.Keeps b) (hb : b.Sound o) (hid : IdsStayBelow s e)
    (hs : problemStep s e = some s') : ∃ b', b.step e = some b' ∧ s'.Keeps b' ∧ b'.Sound o := by
  obtain ⟨b', hbs, hk'⟩ := optionRel_left (hk.step hb.apart e) hs
  have hb' : b'.Sound o := hb.step e (fun time he => hk.autoIncrement ▸ hid time he) hbs
  exact ⟨b', hbs, hk', hb'⟩

theorem Keeps.held_eq (hk : s.Keeps b) : s.held = b.held := by
  rw [held, hk.dispatcher, hk.registering, hk.returning]
  rfl

theorem Sound.defined (hk : s.Keeps b) (hb : b.Sound o) (he : s.Enabled e) :
    ∃ b', b.step e = some b' := by
  obtain ⟨phase, hloc⟩ := hb.located
  cases e with
  | register time => exact ⟨_, rfl⟩
  | insert p => exact ⟨_, if_pos (hk.registering ▸ he)⟩
  | dispatch =>
    simp only [ProblemBook.step, ProblemBook.dispatch]
    cases hd : b.dispatcher with
    | idle => dsimp only; split <;> exact ⟨_, rfl⟩
    | ready => dsimp only; split <;> exact ⟨_, rfl⟩
    | holding p =>
      have hp : p ∈ b.list .held := by
        simp only [ProblemBook.list, hd, Dispatcher.list, List.mem_singleton]
      obtain ⟨a, ha, _⟩ := hloc.val_of_mem hp
      simp only [ha, Option.map_some, Option.some.injEq, exists_eq']
    | marked p => exact ⟨_, rfl⟩
    | queued p => exact ⟨_, rfl⟩
  | markSolved p =>
    have hp : p ∈ b.started := hk.started ▸ he
    obtain ⟨a, ha, _⟩ := hloc.val_of_mem (k := .started) hp
    rw [ProblemBook.step, ProblemBook.markSolved, if_pos hp, ha]
    exact ⟨_, rfl⟩
  | takeSolved p =>
    have hp : p ∈ b.solved := hk.solved ▸ he
    obtain ⟨a, ha, _⟩ := hb.lookup hp
    rw [ProblemBook.step, ProblemBook.takeSolved, if_pos hp, ha]
    exact ⟨_, rfl⟩
  | giveBack atom => exact ⟨_, if_pos (hk.returning ▸ he)⟩

/-- A sound book keeps every problem. -/
theorem Keeps.keepsAll (hk : s.Keeps b) (hb : b.Sound o) :
    s.KeepsAll o b.problems b.problemQueue := by
  obtain ⟨phase, hloc⟩ := hb.located
  constructor
  · exact hk.problems
  · exact hk.problemQueue
  · rw [hk.held_eq]
    exact hb.apart.nodup
  · intro p
    rw [hk.held_eq, hk.size, ← hloc.stored]
    exact hloc.mem_places
  · intro p hp
    obtain ⟨k, hphase, hin⟩ := (hloc.queue p).mp hp
    obtain ⟨a, ha, hst⟩ := hloc.atom p k hphase
    rw [hk.val, hk.solved]
    cases k with
    | queued => exact .inl ⟨a, ha, hst⟩
    | started => exact .inl ⟨a, ha, hst⟩
    | solved => exact .inr ((hloc.placed.mem .solved p).mpr hphase)
    | _ => cases hin
  · intro p hp a ha
    obtain ⟨c, hc, hst⟩ := hloc.atom p .waiting (hloc.mem_problems.mp hp)
    rw [hk.val, hc, Option.some.injEq] at ha
    subst ha
    rcases hst with hst | hst <;> rw [hst] <;> decide
  · rw [hk.limit]
    exact Nat.le_trans (Nat.le_add_right _ _) hb.room
  · intro p hp
    rw [hk.solved] at hp
    obtain ⟨a, ha, _, hlook⟩ := hb.lookup hp
    rw [← hk.val] at ha hlook
    obtain ⟨h, db, he, _⟩ := extractDb_some hk.problemQueue hlook
    exact ⟨h, db, by rw [extractCompleted, ha]; exact he⟩
  · intro e he
    obtain ⟨b', hs⟩ := Sound.defined hk hb he
    obtain ⟨t, ht, _⟩ := optionRel_right (hk.step hb.apart e) hs
    exact ⟨t, ht⟩

/-- No problem is lost, duplicated or dispatched beyond capacity, and every completion finds the
atom it was given, in every run from a loaded database. -/
theorem keeps_all (hl : s.Loaded xs) (es : List ProblemEvent)
    (hids : StepsMeet problemStep IdsStayBelow s es) :
    AllReached problemStep (fun t => ∃ xs' ys', t.KeepsAll hl.origin xs' ys') s es := by
  intro pre t hp hr
  have hI : ∃ b, t.Keeps b ∧ b.Sound hl.origin := by
    apply hr.preserves (hids.of_prefix hp) ⟨_, hl.keeps, hl.sound⟩
    intro t e u ⟨b, hk, hb⟩ hid hs
    obtain ⟨b', _, hkeeps⟩ := hk.sound_step hb hid hs
    exact ⟨b', hkeeps⟩
  obtain ⟨b, hk, hb⟩ := hI
  exact ⟨b.problems, b.problemQueue, hk.keepsAll hb⟩

theorem void_loaded (problemQueueSize : UInt32) (databaseDir : CString) :
    (void problemQueueSize databaseDir).Loaded [] :=
  ⟨.nil _, fun _ h => (nomatch h), rfl, fun _ _ _ _ h => (nomatch h), fun _ _ h => (nomatch h),
    fun _ _ h => (nomatch h), rfl, rfl, rfl, rfl, rfl, rfl⟩

end ProblemSide

section Sample

variable {s : ProblemSide} {b b' : ProblemBook} {xs : List Ptr}

theorem ProblemBook.Moves.autoIncrement (hm : b.Moves e b') :
    b'.autoIncrement.toNat ≤ b.autoIncrement.toNat + 1 := by
  cases hm with
  | register time =>
    rw [ProblemBook.register, UInt64.toNat_add]
    exact Nat.mod_le _ _
  | _ => exact Nat.le_succ _

theorem ProblemSide.Loaded.idsStayBelow (hl : s.Loaded xs)
    (hes : s.autoIncrement.toNat + es.length < 2 ^ 64) :
    StepsMeet problemStep IdsStayBelow s es := by
  intro pre e t hp hr time _
  have hI : (∃ b, t.Keeps b ∧ b.Apart) ∧
      t.autoIncrement.toNat ≤ s.autoIncrement.toNat + pre.length := by
    apply hr.preserves_history (I := fun pre t =>
      (∃ b, t.Keeps b ∧ b.Apart) ∧ t.autoIncrement.toNat ≤ s.autoIncrement.toNat + pre.length)
      (StepsMeet.trivial _ _ _) ⟨⟨_, hl.keeps, hl.sound.apart⟩, Nat.le_refl _⟩
    rintro pre t e u _ ⟨⟨b, hk, hb⟩, hle⟩ _ hs
    obtain ⟨b', hbs, hk'⟩ := optionRel_left (hk.step hb e) hs
    refine ⟨⟨b', hk', hb.step (hk.size_notMem hb) hbs⟩, ?_⟩
    have hnext := (ProblemBook.moves hbs).autoIncrement
    rw [hk'.autoIncrement, List.length_append, List.length_singleton]
    rw [hk.autoIncrement] at hle
    omega
  have hlength := hp.length_le
  rw [List.length_append, List.length_singleton] at hlength
  omega

def ProblemSide.twoLoaded : ProblemSide :=
  { ProblemSide.void 1 [47, 97] with
    heap := Heap.pair ⟨[47, 97, 47, 49], ⟨1, 0, 0, 0, statusNew⟩⟩
      ⟨[47, 97, 47, 50], ⟨2, 0, 0, 0, statusSolved⟩⟩
    problems := some 0
    autoIncrement := 3 }

theorem ProblemSide.twoLoaded_loaded : twoLoaded.Loaded [0, 1] where
  problems := Ring.pair _ _
  live p hp := by
    obtain ⟨a, ha⟩ := Heap.live_iff_val.mp hp
    rcases Heap.pair_val ha with ⟨rfl, _⟩ | ⟨rfl, _⟩ <;> decide
  problemQueue := rfl
  unique p q a c ha hc := by
    rcases Heap.pair_val ha with ⟨rfl, rfl⟩ | ⟨rfl, rfl⟩ <;>
      rcases Heap.pair_val hc with ⟨rfl, rfl⟩ | ⟨rfl, rfl⟩ <;> decide
  status p a ha := by
    rcases Heap.pair_val ha with ⟨_, rfl⟩ | ⟨_, rfl⟩
    · exact .inl rfl
    · exact .inr rfl
  below p a ha := by
    rcases Heap.pair_val ha with ⟨_, rfl⟩ | ⟨_, rfl⟩ <;> decide
  autoIncrement := rfl
  dispatcher := rfl
  registering := rfl
  started := rfl
  solved := rfl
  returning := rfl

/-- A problem is registered, and the first one that was loaded is solved and put back. -/
def givenBackRun : List ProblemEvent :=
  [.register 0, .insert 2] ++ List.replicate 5 .dispatch ++
    [.markSolved 0, .takeSolved 0, .giveBack (some 0)]

theorem ProblemSide.keeps_all_solved :
    (∃ t, Run problemStep twoLoaded givenBackRun t) ∧
      AllReached problemStep (fun t => ∃ xs' ys', t.KeepsAll twoLoaded_loaded.origin xs' ys')
        twoLoaded givenBackRun := by
  have hsome : (givenBackRun.foldlM problemStep twoLoaded).isSome := by decide +kernel
  exact ⟨Option.isSome_iff_exists.mp hsome,
    keeps_all twoLoaded_loaded givenBackRun (twoLoaded_loaded.idsStayBelow (by decide))⟩

end Sample

end Aiqb
