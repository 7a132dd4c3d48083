import Aiqb.Daemon
import Aiqb.AnswerRefinement
import Aiqb.ProblemRefinement
import Aiqb.Rotation

namespace Aiqb
set_option autoImplicit true

def untilIdle : Nat → ProblemSide → Option ProblemSide
  | 0, s => some s
  | n + 1, s => if s.dispatcher = .idle then some s else (dispatchProblem s).bind (untilIdle n)

/-- The turn of the main loop for the problems, which takes five steps at most. -/
def problemTurn (s : ProblemSide) : Option ProblemSide := (dispatchProblem s).bind (untilIdle 4)

def mainTurn (w : Daemon) : Option Daemon := do
  let side ← problemTurn w.store.side
  let answers ← dispatchAnswer w.answers
  some { answers := answers, store := { w.store with side := side } }

theorem turns_mainTurn (w : Daemon) (n : Nat) (hs : turns problemTurn n w.store.side = some side)
    (ha : turns dispatchAnswer n w.answers = some answers) :
    turns mainTurn n w = some { answers := answers, store := { w.store with side := side } } := by
  induction n generalizing w with
  | zero =>
    cases hs
    cases ha
    rfl
  | succ n ih =>
    obtain ⟨side₁, es, hs⟩ := Option.bind_eq_some_iff.mp hs
    obtain ⟨answers₁, ea, ha⟩ := Option.bind_eq_some_iff.mp ha
    have hturn : mainTurn w =
        some { answers := answers₁, store := { w.store with side := side₁ } } := by
      simp only [mainTurn, es, ea, Option.bind_eq_bind, Option.bind_some]
    rw [turns, hturn, Option.bind_some, ih _ hs ha]

def FsdbT.isNew (a : FsdbT) : Bool := a.header.status = statusNew
def FsdbT.inProgress (a : FsdbT) : FsdbT := { a with header.status := statusInProgress }
def AnswerT.isNew (a : AnswerT) : Bool := a.status = statusNew
def AnswerT.inProgress (a : AnswerT) : AnswerT := { a with status := statusInProgress }

def queueRoom (size : UInt32) (count : Nat) : Bool := UInt64.ofNat count < size.toUInt64

theorem queueRoom_of_lt {size : UInt32} (h : n < size.toNat) : queueRoom size n := by
  have hsize := size.toNat_lt
  rw [queueRoom, decide_eq_true_eq, UInt64.lt_iff_toNat_lt, UInt64.toNat_ofNat',
    UInt32.toNat_toUInt64]
  omega

section Problems

variable {s s' : ProblemSide} {b b' : ProblemBook} {r : Rota Ptr (Option FsdbT)} {size : UInt32}

/-- The rings of the problems between two iterations of the main loop. -/
structure ProblemSide.Shows (size : UInt32) (s : ProblemSide) (r : Rota Ptr (Option FsdbT)) :
    Prop where
  problems : Ring s.heap s.problems r.line
  problemQueue : Ring s.heap s.problemQueue r.queue
  disjoint : List.Disjoint r.line r.queue
  data : s.heap.valOf = r.data
  dispatcher : s.dispatcher = .idle
  limit : s.problemQueueSize = size

theorem untilIdle_step (hs : dispatchProblem s = some s') (hd : s.dispatcher ≠ .idle) (n : Nat) :
    untilIdle (n + 1) s = untilIdle n s' := by
  rw [untilIdle, if_neg hd, hs, Option.bind_some]

theorem untilIdle_idle (hd : s.dispatcher = .idle) (n : Nat) : untilIdle n s = some s := by
  cases n with
  | zero => rfl
  | succ n => rw [untilIdle, if_pos hd]

theorem ProblemSide.Keeps.next (hk : s.Keeps b) (hb : b.DispatcherApart)
    (hs : b.dispatch = some b') : ∃ s', dispatchProblem s = some s' ∧ s'.Keeps b' := by
  have hrel := hk.dispatch hb
  rw [hs] at hrel
  exact optionRel_right hrel rfl

def ProblemSide.book (s : ProblemSide) (r : Rota Ptr (Option FsdbT)) : ProblemBook :=
  { size := s.heap.size
    val := r.data
    problems := r.line
    problemQueue := r.queue
    limit := s.problemQueueSize
    autoIncrement := s.autoIncrement
    databaseDir := s.databaseDir
    dispatcher := s.dispatcher
    registering := s.registering
    started := s.started
    solved := s.solved
    returning := s.returning }

theorem ProblemSide.Shows.keeps (h : s.Shows size r) : s.Keeps (s.book r) :=
  ⟨h.problems, h.problemQueue, h.disjoint, h.data, rfl, rfl, rfl, rfl, rfl, rfl, rfl, rfl, rfl⟩

theorem ProblemSide.Keeps.shows (hk : s.Keeps b) (hd : b.dispatcher = .idle) :
    s.Shows b.limit ⟨b.problems, b.problemQueue, b.val⟩ :=
  ⟨hk.problems, hk.problemQueue, hk.disjoint, hk.val, hk.dispatcher.trans hd, hk.limit⟩

theorem ProblemBook.dispatcherApart_of_held (hb : b.dispatcher.held = []) : b.DispatcherApart := by
  constructor <;> intro p hp <;> rw [hb] at hp <;> cases hp

theorem ProblemBook.dispatcherApart_of_one (hb : b.dispatcher.held = [p]) (hv : b.val p = some a)
    (hx : p ∉ b.problems) (hy : p ∉ b.problemQueue) : b.DispatcherApart := by
  constructor <;> intro q hq <;> rw [hb, List.mem_singleton] at hq <;> subst hq
  · exact ⟨a, hv⟩
  · exact hx
  · exact hy

theorem ProblemBook.dispatch_idle (hd : b.dispatcher = .idle)
    (hroom : UInt64.ofNat b.problemQueue.length < b.limit.toUInt64) :
    b.dispatch = some { b with dispatcher := .ready } := by
  rw [dispatch, hd]
  exact if_pos hroom

theorem ProblemBook.dispatch_new (hd : b.dispatcher = .holding p) (hv : b.val p = some a)
    (hst : a.header.status = statusNew) : b.dispatch =
      some { b with val := b.setStatus p statusInProgress a, dispatcher := .marked p } := by
  rw [dispatch, hd]
  simp only [hv, Option.map_some, if_pos hst]

theorem ProblemBook.dispatch_old (hd : b.dispatcher = .holding p) (hv : b.val p = some a)
    (hst : a.header.status ≠ statusNew) :
    b.dispatch = some { b with problems := b.problems ++ [p], dispatcher := .idle } := by
  rw [dispatch, hd]
  simp only [hv, Option.map_some, if_neg hst]

theorem ProblemSide.Keeps.untilIdle (hk : s.Keeps b) (hb : b.DispatcherApart)
    (hs : b.dispatch = some b') (hd : b.dispatcher ≠ .idle) (n : Nat) :
    ∃ s', Aiqb.untilIdle (n + 1) s = Aiqb.untilIdle n s' ∧ s'.Keeps b' := by
  obtain ⟨s', he, hk'⟩ := hk.next hb hs
  exact ⟨s', untilIdle_step he (hk.dispatcher ▸ hd) n, hk'⟩

theorem problemTurn_full (h : s.Shows size r) (hfull : ¬ queueRoom size r.queue.length) :
    problemTurn s = some s := by
  have hcount := countDb_spec h.problemQueue
  rw [queueRoom, decide_eq_true_eq] at hfull
  have he : dispatchProblem s = some s := by
    simp only [dispatchProblem, h.dispatcher, hcount, Option.bind_eq_bind, Option.bind_some,
      h.limit, if_neg hfull]
  rw [problemTurn, he, Option.bind_some, untilIdle_idle h.dispatcher]

theorem ProblemSide.Shows.ready (h : s.Shows size r) (hroom : queueRoom size r.queue.length) :
    ∃ s₁, problemTurn s = Aiqb.untilIdle 4 s₁ ∧
      s₁.Keeps { s.book r with dispatcher := .ready } := by
  rw [queueRoom, decide_eq_true_eq, ← h.limit] at hroom
  have hb : (s.book r).dispatcher.held = [] := congrArg Dispatcher.held h.dispatcher
  obtain ⟨s₁, e₁, hk₁⟩ := h.keeps.next (ProblemBook.dispatcherApart_of_held hb)
    (ProblemBook.dispatch_idle h.dispatcher hroom)
  exact ⟨s₁, by rw [problemTurn, e₁, Option.bind_some], hk₁⟩

/-- A turn of the main loop for the problems is a turn for the first of them. -/
theorem ProblemSide.Shows.turn (h : s.Shows size r) : ∃ s', problemTurn s = some s' ∧
    s'.Shows size (r.turn (·.any FsdbT.isNew) (·.map FsdbT.inProgress) (queueRoom size)) := by
  by_cases hroom : queueRoom size r.queue.length
  · obtain ⟨s₁, e₁, hk₁⟩ := h.ready hroom
    obtain ⟨line, queue, data⟩ := r
    have hlim : s.problemQueueSize = size := h.limit
    cases line with
    | nil =>
      obtain ⟨s₂, e₂, hk₂⟩ := hk₁.untilIdle (ProblemBook.dispatcherApart_of_held rfl) rfl
        (by simp) 3
      refine ⟨s₂, ?_, ?_⟩
      · rw [e₁, e₂, untilIdle_idle hk₂.dispatcher]
      · rw [Rota.turn, if_pos hroom, ← hlim]
        exact hk₂.shows rfl
    | cons p rest =>
      have hpr : p ∉ rest := (List.nodup_cons.mp h.problems.nodup).1
      have hpq : p ∉ queue := h.disjoint List.mem_cons_self
      obtain ⟨a, ha⟩ := Heap.live_iff_val.mp (h.problems.live List.mem_cons_self)
      have hv : data p = some a := (congrFun h.data p).symm.trans ha
      obtain ⟨s₂, e₂, hk₂⟩ := hk₁.untilIdle (ProblemBook.dispatcherApart_of_held rfl) rfl
        (by simp) 3
      have hapart₂ : ProblemBook.DispatcherApart { s.book ⟨rest, queue, data⟩ with
          dispatcher := .holding p } := ProblemBook.dispatcherApart_of_one rfl hv hpr hpq
      by_cases hst : a.header.status = statusNew
      · obtain ⟨s₃, e₃, hk₃⟩ := hk₂.untilIdle hapart₂
          (ProblemBook.dispatch_new rfl hv hst) (by simp) 2
        obtain ⟨s₄, e₄, hk₄⟩ := hk₃.untilIdle (ProblemBook.dispatcherApart_of_one rfl
          (Function.update_self p _ data) hpr hpq) rfl (by simp) 1
        obtain ⟨s₅, e₅, hk₅⟩ := hk₄.untilIdle (ProblemBook.dispatcherApart_of_held rfl) rfl
          (by simp) 0
        refine ⟨s₅, ?_, ?_⟩
        · rw [e₁, e₂, e₃, e₄, e₅, Aiqb.untilIdle]
        · have hnew : (data p).any FsdbT.isNew := by
            rw [hv, Option.any_some, FsdbT.isNew, decide_eq_true hst]
          rw [Rota.turn, if_pos hroom, ← hlim]
          dsimp only
          rw [if_pos hnew, hv, Option.map_some]
          exact hk₅.shows rfl
      · obtain ⟨s₃, e₃, hk₃⟩ := hk₂.untilIdle hapart₂
          (ProblemBook.dispatch_old rfl hv hst) (by simp) 2
        refine ⟨s₃, ?_, ?_⟩
        · rw [e₁, e₂, e₃, untilIdle_idle hk₃.dispatcher]
        · have hold : ¬ (data p).any FsdbT.isNew := by
            rw [hv, Option.any_some, FsdbT.isNew, decide_eq_true_eq]
            exact hst
          rw [Rota.turn, if_pos hroom, ← hlim]
          dsimp only
          rw [if_neg hold]
          exact hk₃.shows rfl
  · rw [Rota.turn, if_neg hroom]
    exact ⟨s, problemTurn_full h hroom, h⟩

theorem ProblemSide.Shows.turns (h : s.Shows size r) (n : Nat) :
    ∃ s', Aiqb.turns problemTurn n s = some s' ∧ s'.Shows size
      ((Rota.turn (·.any FsdbT.isNew) (·.map FsdbT.inProgress) (queueRoom size))^[n] r) :=
  turns_related (R := ProblemSide.Shows size) (fun _ _ hr => hr.turn) n h

theorem ProblemSide.Shows.round (h : s.Shows size r) (hroom : r.Admits (queueRoom size)
    ((r.line.filter fun p => (r.data p).any FsdbT.isNew).length + 1)) :
    ∃ s', Aiqb.turns problemTurn r.line.length s = some s' ∧
      s'.Shows size (r.served (·.any FsdbT.isNew) (·.map FsdbT.inProgress)) := by
  obtain ⟨s', he, hs⟩ := h.turns r.line.length
  rw [Rota.turns_round (·.any FsdbT.isNew) r h.problems.nodup hroom] at hs
  exact ⟨s', he, hs⟩

end Problems

section Answers

variable {s : AnswerSide} {r : Rota Ptr (Option AnswerT)} {size : UInt32}

structure AnswerSide.Shows (size : UInt32) (s : AnswerSide) (r : Rota Ptr (Option AnswerT)) :
    Prop where
  holds : s.Holds r.line r.queue
  data : s.heap.valOf = r.data
  limit : s.answerQueueSize = size
  numbered : ∀ p ∈ r.line, ∀ a, r.data p = some a → 1 ≤ a.id.toNat

def AnswerSide.book (s : AnswerSide) (r : Rota Ptr (Option AnswerT)) : AnswerBook :=
  { size := s.heap.size
    val := r.data
    answers := r.line
    answerQueue := r.queue
    limit := s.answerQueueSize
    solvers := s.solvers }

theorem AnswerSide.Holds.represents (h : s.Holds xs ys) :
    Represents s (s.book ⟨xs, ys, s.heap.valOf⟩) := ⟨h, rfl, rfl, rfl, rfl⟩

theorem AnswerSide.Shows.represents (h : s.Shows size r) : Represents s (s.book r) :=
  ⟨h.holds, h.data, rfl, rfl, rfl⟩

/-- Every turn for well-formed answers is defined. -/
theorem AnswerSide.Holds.turn (h : s.Holds xs ys) :
    ∃ s', dispatchAnswer s = some s' ∧ ∃ xs ys, s'.Holds xs ys := by
  have hb : ∃ b, (s.book ⟨xs, ys, s.heap.valOf⟩).dispatch = some b := by
    unfold AnswerBook.dispatch
    split
    · split
      · exact ⟨_, rfl⟩
      · next p rest hxs =>
        have hp : p ∈ xs := by
          have hmem : p ∈ (s.book ⟨xs, ys, s.heap.valOf⟩).answers := hxs ▸ List.mem_cons_self
          exact hmem
        obtain ⟨a, ha⟩ := Heap.live_iff_val.mp (h.answers.live hp)
        exact ⟨_, congrArg (Option.map _) ha⟩
    · exact ⟨_, rfl⟩
  obtain ⟨b, hb⟩ := hb
  obtain ⟨s', he, hr⟩ := optionRel_right h.represents.dispatch hb
  exact ⟨s', he, _, _, hr.holds⟩

theorem AnswerBook.number_of_pos {val : Ptr → Option AnswerT} (xs : List Ptr)
    (ha : 1 ≤ a.id.toNat) : number val xs p a = Function.update val p (some a) := by
  have hne : a.id ≠ 0 := by
    rintro h0
    rw [h0] at ha
    exact absurd ha (by decide)
  rw [number, assignedId, if_neg hne]

namespace AnswerBook

variable {b : AnswerBook}

theorem dispatch_full (hfull : ¬ UInt64.ofNat b.answerQueue.length < b.limit.toUInt64) :
    b.dispatch = some b := if_neg hfull

theorem dispatch_nil (hroom : UInt64.ofNat b.answerQueue.length < b.limit.toUInt64)
    (hb : b.answers = []) : b.dispatch = some b := by
  rw [dispatch, if_pos hroom, hb]

theorem dispatch_new (hroom : UInt64.ofNat b.answerQueue.length < b.limit.toUInt64)
    (hb : b.answers = p :: rest) (hv : b.val p = some a) (hid : 1 ≤ a.id.toNat)
    (hst : a.status = statusNew) : b.dispatch = some { b with
      val := Function.update b.val p (some a.inProgress)
      answers := rest
      answerQueue := b.answerQueue ++ [p]
      solvers := b.solvers ++ [p] } := by
  rw [dispatch, if_pos hroom, hb]
  have hid' : 1 ≤ a.inProgress.id.toNat := hid
  have hnum : number (Function.update b.val p (some a.inProgress)) b.answerQueue p a.inProgress =
      Function.update b.val p (some a.inProgress) := by
    rw [number_of_pos b.answerQueue hid', Function.update_idem]
  simp only [hv, Option.map_some, if_pos hst]
  exact congrArg (fun val => some { b with
    val := val
    answers := rest
    answerQueue := b.answerQueue ++ [p]
    solvers := b.solvers ++ [p] }) hnum

theorem dispatch_old (hroom : UInt64.ofNat b.answerQueue.length < b.limit.toUInt64)
    (hb : b.answers = p :: rest) (hv : b.val p = some a) (hid : 1 ≤ a.id.toNat)
    (hst : a.status ≠ statusNew) : b.dispatch = some { b with answers := rest ++ [p] } := by
  rw [dispatch, if_pos hroom, hb]
  simp only [hv, Option.map_some, if_neg hst]
  rw [number_of_pos rest hid, ← hv, Function.update_eq_self]

end AnswerBook

theorem AnswerSide.Shows.step (h : s.Shows size r) (hb : (s.book r).dispatch = some b)
    (hlim : b.limit = (s.book r).limit)
    (hnum : ∀ p ∈ b.answers, ∀ a, b.val p = some a → 1 ≤ a.id.toNat) :
    ∃ s', dispatchAnswer s = some s' ∧ s'.Shows size ⟨b.answers, b.answerQueue, b.val⟩ := by
  obtain ⟨s', he, hr⟩ := optionRel_right h.represents.dispatch hb
  exact ⟨s', he, ⟨hr.holds, hr.val, hr.limit.trans (hlim.trans h.limit), hnum⟩⟩

/-- A turn of the main loop for the answers is a turn for the first of them. -/
theorem AnswerSide.Shows.turn (h : s.Shows size r) : ∃ s', dispatchAnswer s = some s' ∧
    s'.Shows size (r.turn (·.any AnswerT.isNew) (·.map AnswerT.inProgress) (queueRoom size)) := by
  have hlim := h.limit
  by_cases hroom : queueRoom size r.queue.length
  · have hlt := hroom
    rw [queueRoom, decide_eq_true_eq, ← hlim] at hlt
    rw [Rota.turn, if_pos hroom]
    obtain ⟨line, queue, data⟩ := r
    cases line with
    | nil => exact h.step (AnswerBook.dispatch_nil hlt rfl) rfl h.numbered
    | cons p rest =>
      obtain ⟨a, ha⟩ := Heap.live_iff_val.mp (h.holds.answers.live List.mem_cons_self)
      have hv : data p = some a := (congrFun h.data p).symm.trans ha
      have hid : 1 ≤ a.id.toNat := h.numbered p List.mem_cons_self a hv
      have hpr : p ∉ rest := (List.nodup_cons.mp h.holds.answers.nodup).1
      dsimp only
      by_cases hst : a.status = statusNew
      · have hnew : (data p).any AnswerT.isNew := by
          rw [hv, Option.any_some, AnswerT.isNew, decide_eq_true hst]
        rw [if_pos hnew, hv, Option.map_some]
        apply h.step (AnswerBook.dispatch_new hlt rfl hv hid hst) rfl
        intro q hq c hc
        have hqp : q ≠ p := fun he => hpr (he ▸ hq)
        dsimp only at hc
        rw [Function.update_of_ne hqp] at hc
        exact h.numbered q (List.mem_cons_of_mem _ hq) c hc
      · have hold : ¬ (data p).any AnswerT.isNew := by
          rw [hv, Option.any_some, AnswerT.isNew, decide_eq_true_eq]
          exact hst
        rw [if_neg hold]
        apply h.step (AnswerBook.dispatch_old hlt rfl hv hid hst) rfl
        intro q hq c hc
        apply h.numbered q _ c hc
        rcases List.mem_append.mp hq with hq | hq
        · exact List.mem_cons_of_mem _ hq
        · exact List.mem_singleton.mp hq ▸ List.mem_cons_self
  · have hlt := hroom
    rw [queueRoom, decide_eq_true_eq, ← hlim] at hlt
    rw [Rota.turn, if_neg hroom]
    exact h.step (AnswerBook.dispatch_full hlt) rfl h.numbered

theorem AnswerSide.Shows.round (h : s.Shows size r) (hroom : r.Admits (queueRoom size)
    ((r.line.filter fun p => (r.data p).any AnswerT.isNew).length + 1)) :
    ∃ s', turns dispatchAnswer r.line.length s = some s' ∧
      s'.Shows size (r.served (·.any AnswerT.isNew) (·.map AnswerT.inProgress)) := by
  obtain ⟨s', he, hs⟩ := turns_related (R := AnswerSide.Shows size) (fun _ _ hr => hr.turn)
    r.line.length h
  rw [Rota.turns_round (·.any AnswerT.isNew) r h.holds.answers.nodup hroom] at hs
  exact ⟨s', he, hs⟩

theorem AnswerSide.Holds.turns (h : s.Holds xs ys) (n : Nat) :
    ∃ s', Aiqb.turns dispatchAnswer n s = some s' := by
  obtain ⟨s', he, _⟩ := @turns_related _ Unit (fun s _ => ∃ xs ys, AnswerSide.Holds s xs ys)
    dispatchAnswer id (fun _ _ ⟨_, _, hr⟩ => hr.turn) n s () ⟨xs, ys, h⟩
  exact ⟨s', he⟩

end Answers

/-- The rings of the daemon between two iterations of the main loop. -/
structure Daemon.Rests (w : Daemon) (xs ys us vs : List Ptr) : Prop where
  problems : Ring w.store.side.heap w.store.side.problems xs
  problemQueue : Ring w.store.side.heap w.store.side.problemQueue ys
  problemsDisjoint : List.Disjoint xs ys
  dispatcher : w.store.side.dispatcher = .idle
  answers : Ring w.answers.heap w.answers.answers us
  answerQueue : Ring w.answers.heap w.answers.answerQueue vs
  answersDisjoint : List.Disjoint us vs

def Daemon.isNewProblem (w : Daemon) (p : Ptr) : Bool := (w.store.side.heap.valOf p).any FsdbT.isNew
def Daemon.isNewAnswer (w : Daemon) (p : Ptr) : Bool := (w.answers.heap.valOf p).any AnswerT.isNew

section Rounds

variable {w : Daemon} {xs ys us vs : List Ptr}

theorem Daemon.Rests.shows (h : w.Rests xs ys us vs) :
    w.store.side.Shows w.store.side.problemQueueSize ⟨xs, ys, w.store.side.heap.valOf⟩ :=
  ⟨h.problems, h.problemQueue, h.problemsDisjoint, rfl, h.dispatcher, rfl⟩

theorem Daemon.Rests.holds (h : w.Rests xs ys us vs) : w.answers.Holds us vs :=
  ⟨h.answers, h.answerQueue, h.answersDisjoint⟩

theorem admits_of_lt {size : UInt32} {data : Ptr → β} (h : ys.length + n < size.toNat) :
    Rota.Admits (queueRoom size) ⟨xs, ys, data⟩ (n + 1) :=
  fun _ hk => queueRoom_of_lt (Nat.lt_of_le_of_lt (Nat.add_le_add_left (Nat.le_of_lt_succ hk) _) h)

/-- As many iterations as entries wait put the new ones into the queue, in order and in progress,
and leave the others in order; the ids of the answers stay. -/
theorem a_round_misses_nothing (h : w.Rests xs ys us vs) :
    (ys.length + (xs.filter w.isNewProblem).length < w.store.side.problemQueueSize.toNat →
      ∃ w', turns mainTurn xs.length w = some w' ∧
        Ring w'.store.side.heap w'.store.side.problems (xs.filter fun p => !w.isNewProblem p) ∧
        Ring w'.store.side.heap w'.store.side.problemQueue (ys ++ xs.filter w.isNewProblem) ∧
        ∀ p, w'.store.side.heap.valOf p =
          if p ∈ xs ∧ w.isNewProblem p then (w.store.side.heap.valOf p).map FsdbT.inProgress
          else w.store.side.heap.valOf p) ∧
    ((∀ p ∈ us, ∀ a, w.answers.heap.valOf p = some a → 1 ≤ a.id.toNat) →
      vs.length + (us.filter w.isNewAnswer).length < w.answers.answerQueueSize.toNat →
      ∃ w', turns mainTurn us.length w = some w' ∧
        Ring w'.answers.heap w'.answers.answers (us.filter fun p => !w.isNewAnswer p) ∧
        Ring w'.answers.heap w'.answers.answerQueue (vs ++ us.filter w.isNewAnswer) ∧
        ∀ p, w'.answers.heap.valOf p =
          if p ∈ us ∧ w.isNewAnswer p then (w.answers.heap.valOf p).map AnswerT.inProgress
          else w.answers.heap.valOf p) := by
  constructor
  · intro hroom
    obtain ⟨side, hs, hshows⟩ := h.shows.round (admits_of_lt hroom)
    obtain ⟨answers, ha⟩ := h.holds.turns xs.length
    exact ⟨_, turns_mainTurn w xs.length hs ha, hshows.problems, hshows.problemQueue,
      fun p => congrFun hshows.data p⟩
  · intro hids hroom
    have hanswers : w.answers.Shows w.answers.answerQueueSize ⟨us, vs, w.answers.heap.valOf⟩ :=
      ⟨h.holds, rfl, rfl, hids⟩
    obtain ⟨answers, ha, hshows⟩ := hanswers.round (admits_of_lt hroom)
    obtain ⟨side, hs, _⟩ := h.shows.turns us.length
    exact ⟨_, turns_mainTurn w us.length hs ha, hshows.holds.answers, hshows.holds.answerQueue,
      fun p => congrFun hshows.data p⟩

end Rounds

/-- A daemon with a new problem and a solved one, and with a solved answer and a new one. -/
def Daemon.waiting : Daemon where
  answers := { AnswerSide.start 2 with
    heap := Heap.pair ⟨1, 1, 1, statusSolved, none, none⟩ ⟨2, 1, 1, statusNew, none, none⟩
    answers := some 0 }
  store :=
    { side := { ProblemSide.void 2 [47, 97] with
        heap := Heap.pair ⟨[47, 97, 47, 98], ⟨1, 0, 0, 0, statusNew⟩⟩
          ⟨[47, 97, 47, 99], ⟨2, 0, 0, 0, statusSolved⟩⟩
        problems := some 0 }
      files := fun _ _ => none
      cwd := 0
      stored := [] }

theorem Daemon.waiting_rests : Daemon.waiting.Rests [0, 1] [] [0, 1] [] where
  problems := Ring.pair _ _
  problemQueue := .nil _
  problemsDisjoint := List.disjoint_nil_right _
  dispatcher := rfl
  answers := Ring.pair _ _
  answerQueue := .nil _
  answersDisjoint := List.disjoint_nil_right _

theorem a_round_misses_nothing_waiting :
    (∃ w', turns mainTurn 2 Daemon.waiting = some w' ∧
      Ring w'.store.side.heap w'.store.side.problems [1] ∧
      Ring w'.store.side.heap w'.store.side.problemQueue [0]) ∧
    ∃ w', turns mainTurn 2 Daemon.waiting = some w' ∧
      Ring w'.answers.heap w'.answers.answers [0] ∧
      Ring w'.answers.heap w'.answers.answerQueue [1] := by
  obtain ⟨hp, ha⟩ := a_round_misses_nothing Daemon.waiting_rests
  constructor
  · obtain ⟨w', hrun, hx, hy, _⟩ := hp (by decide)
    exact ⟨w', hrun, hx, hy⟩
  · have hids : ∀ p ∈ [0, 1], ∀ a, Daemon.waiting.answers.heap.valOf p = some a →
        1 ≤ a.id.toNat := by
      intro p _ a hv
      rcases Heap.pair_val hv with ⟨_, rfl⟩ | ⟨_, rfl⟩ <;> decide
    obtain ⟨w', hrun, hx, hy, _⟩ := ha hids (by decide)
    exact ⟨w', hrun, hx, hy⟩

end Aiqb
