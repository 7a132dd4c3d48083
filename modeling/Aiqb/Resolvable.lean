import Aiqb.AnswerIds
import Aiqb.FreshIds
import Aiqb.Numerals
import Aiqb.ServiceKept

namespace Aiqb
set_option autoImplicit true

/-- The answer is not with a solver, and no stored answer ahead of it has the id. (An id that has
wrapped to 0 stands for the head of the queue.) -/
def AnswerSide.Stands (s : AnswerSide) (p : Ptr) (k : UInt64) : Prop :=
  ∀ xs ys, s.Holds xs ys → p ∉ ys ∧
    ∀ ahead behind, xs = ahead ++ p :: behind →
      (k = 0 → ahead = []) ∧ ∀ q ∈ ahead, ∀ c, s.heap.valOf q = some c → c.id ≠ k

/-- The problems of the id are all stored: neither with a solver, nor with a thread that moves
them. -/
def ProblemSide.Stands (s : ProblemSide) (k : UInt64) : Prop :=
  ∀ ys, Ring s.heap s.problemQueue ys →
    ∀ p ∈ ys ++ s.held, ∀ a, s.heap.valOf p = some a → a.header.id ≠ k

/-- A number that a client was sent is understood: that of an answer gets its solution, or that
there is none yet, and that of a stored problem is not refused. -/
def Service.Resolves (t : Tree) (s : Service) : ServiceEvent → Prop
  | .request lib (.solution token) => Numeral token →
    ∀ p k a, (p, k) ∈ s.told → k.toNat = decimal token → s.daemon.answers.heap.valOf p = some a →
      ((Request.solution token).run t lib s.daemon).replies =
        [if a.status = statusSolved then .solution a else .notReady]
  | .request lib (.answerProblem d token) => Numeral token →
    ∀ k, .problemOk k ∈ s.sent → (∃ r ∈ s.daemon.store.stored, r.id = k) →
      k.toNat = decimal token →
      .unknownError ∉ ((Request.answerProblem d token).run t lib s.daemon).replies
  | _ => True

/-- What a client asks for by its number is not on its way at that time. -/
def Service.AsksInTime (s : Service) : ServiceEvent → Prop
  | .request _ (.solution token) =>
    ∀ p k, (p, k) ∈ s.told → k.toNat = decimal token → s.daemon.answers.Stands p k
  | .request _ (.answerProblem _ token) =>
    ∀ k, k.toNat = decimal token → s.daemon.store.side.Stands k
  | _ => True

theorem Numeral.atoul_eq (ht : Numeral token) {k : UInt64} (hk : k.toNat = decimal token) :
    Aiqb.atoul token = k :=
  UInt64.toNat_inj.mp (ht.atoul_toNat.trans hk.symm)

/-- An answer that stands is what its id finds. -/
theorem AnswerBook.Told.lookup {b : AnswerBook} {s : AnswerSide} (hr : Represents s b)
    (h : b.Told told) (hm : (p, k) ∈ told) (ha : b.val p = some a) (hs : s.Stands p k) :
    lookupId b.val b.answers k = some p := by
  obtain ⟨hqueue, hahead⟩ := hs _ _ hr.holds
  have hnode : p ∈ b.nodes := (h.placed.live p).mpr (Option.isSome_of_eq_some ha)
  have hp : p ∈ b.answers := (List.mem_append.mp hnode).resolve_right hqueue
  obtain ⟨ahead, behind, he⟩ := List.append_of_mem hp
  obtain ⟨hzero, hother⟩ := hahead ahead behind he
  rw [hr.val] at hother
  rw [he]
  exact lookupId_first ha (h.tells p k a hm ha) hzero hother

theorem ProblemStore.Tracks.lookup {s : ProblemStore} {c : ProblemBook} (h : s.Tracks c)
    {r : StoredProblem} (hr : r ∈ s.stored) (hs : s.side.Stands r.id) :
    ∃ p, lookupDb c.val c.problems (some (.byId r.id)) = some p := by
  obtain ⟨p, hp, a, ha, hid⟩ := h.has r hr
  have hp' : p ∈ c.problems := by
    by_contra hnot
    have hmem : p ∈ c.problemQueue ++ s.side.held := by
      rw [h.keeps.held_eq]
      rcases List.mem_append.mp hp with hp | hp
      · exact List.mem_append_left _ ((List.mem_append.mp hp).resolve_left hnot)
      · exact List.mem_append_right _ hp
    rw [← h.keeps.val] at ha
    exact hs _ h.keeps.problemQueue p hmem a ha hid
  apply Option.isSome_iff_exists.mp
  apply List.find?_isSome.mpr
  refine ⟨p, hp', ?_⟩
  rw [ha, Option.any_some, Query.matches, hid, beq_self_eq_true]

section Runs

variable {t : Tree} {s : Service} {b : AnswerBook} {c : ProblemBook} {xs : List Ptr}

theorem Service.Kept.resolves (h : s.Kept b c) (hask : s.AsksInTime e) : s.Resolves t e := by
  cases e with
  | request lib r =>
    cases r with
    | solution token =>
      intro ht p k a hm hk ha
      have hval : b.val p = some a := by rw [← h.answers.val, ha]
      have hfound := h.told.lookup h.answers hm hval (hask p k hm hk)
      rw [(solution_run h.answers token).2, ht.atoul_eq hk, hfound, Option.bind_some, hval]
      rfl
    | answerProblem d token =>
      rintro ht k _ ⟨r, hr, rfl⟩ hk
      obtain ⟨p, hp⟩ := h.store.lookup hr (hask r.id hk)
      rw [(answer_problem_run h.store.keeps d token).2, ht.atoul_eq hk, hp]
      exact List.not_mem_nil
    | _ => trivial
  | _ => trivial

theorem Service.Starts.tracks (h : s.Starts xs) :
    s.daemon.store.Tracks (s.daemon.store.side.loadedBook xs) where
  keeps := ⟨h.problems, h.problemQueue ▸ .nil _, fun _ _ hm => absurd hm List.not_mem_nil, rfl, rfl,
    rfl, rfl, rfl, h.dispatcher, h.registering, h.started, h.solved, h.returning⟩
  apart := by
    have hplaces : (s.daemon.store.side.loadedBook xs).places = xs := by
      rw [ProblemBook.places, ProblemBook.held]
      exact (List.append_nil _).trans (List.append_nil xs)
    constructor
    · rw [hplaces]
      exact h.problems.nodup
    · rw [hplaces]
      exact fun p hp => Heap.live_iff_val.mp (h.problems.live hp)
  has := by
    rw [h.stored]
    exact fun _ hm => absurd hm List.not_mem_nil

theorem Service.Starts.kept (h : s.Starts xs) : ∃ b c, s.Kept b c := by
  obtain ⟨limit, hanswers⟩ := h.answers
  refine ⟨.start limit, s.daemon.store.side.loadedBook xs, ?_, ?_, h.tracks⟩
  · rw [hanswers]
    exact represents_start limit
  · rw [h.told]
    exact AnswerBook.told_start limit

/-- An id that a client was sent stays resolvable, as long as nobody asks for it while what it
stands for is on its way, or behind another answer of the id. -/
theorem ids_resolvable (hs : s.Starts xs) (es : List ServiceEvent)
    (hask : StepsMeet (serviceStep t) Service.AsksInTime s es) :
    StepsMeet (serviceStep t) (Service.Resolves t) s es := by
  intro pre e u hp hr
  have hkept : ∃ b c, u.Kept b c := by
    apply hr.invariant hs.kept
    rintro s₁ e₁ s₂ ⟨b, c, hk⟩ hstep
    exact hk.step hstep
  obtain ⟨b, c, hk⟩ := hkept
  exact hk.resolves (hask pre e u hp hr)

end Runs

section Sample

def Library.sample : Library := ⟨fun _ => 0, fun _ => none, none, none, true, 0, .sample⟩

def AnswerDraft.sample : AnswerDraft := ⟨0, .oneRow, fun _ => true⟩

def ProblemDraft.sample : ProblemDraft := ⟨0, .oneRow 0, fun _ => true⟩

def Service.sample : Service := ⟨⟨.start 1, .sample⟩, [], []⟩

theorem Service.sample_starts : Service.sample.Starts [] :=
  ⟨⟨1, rfl⟩, .nil _, rfl, rfl, rfl, rfl, rfl, rfl, rfl, rfl⟩

theorem AnswerSide.Holds.stands {s : AnswerSide} {p : Ptr} (h : s.Holds [p] []) (k : UInt64) :
    s.Stands p k := by
  intro xs ys hxy
  obtain rfl := hxy.answers.unique h.answers
  obtain rfl := hxy.answerQueue.unique h.answerQueue
  refine ⟨List.not_mem_nil, ?_⟩
  intro ahead behind he
  have hnil : ahead = [] := by
    cases ahead with
    | nil => rfl
    | cons q ahead => simp at he
  rw [hnil]
  exact ⟨fun _ => rfl, fun _ hq => absurd hq List.not_mem_nil⟩

/-- A client registers an answer and asks for its solution. -/
theorem ids_resolvable_one :
    StepsMeet (serviceStep .sample) (Service.Resolves .sample) .sample
      [.request .sample (.registerAnswer .sample), .request .sample (.solution (cstr "1"))] := by
  apply ids_resolvable Service.sample_starts
  refine .cons trivial fun s hs => .cons ?_ fun _ _ => .nil _ _ _
  have hstep : ∃ s', serviceStep .sample .sample (.request .sample (.registerAnswer .sample)) =
      some s' ∧ s'.told = [(0, 1)] ∧ s'.daemon.answers.answers = some 0 ∧
      s'.daemon.answers.answerQueue = none ∧ s'.daemon.answers.heap.nextOf 0 = some 0 ∧
      s'.daemon.answers.heap.prevOf 0 = some 0 := ⟨_, rfl, rfl, rfl, rfl, rfl, rfl⟩
  obtain ⟨s', he, htold, hanswers, hqueue, hnext, hprev⟩ := hstep
  cases he.symm.trans hs
  intro p k hm _
  rw [htold, List.mem_singleton, Prod.mk.injEq] at hm
  rw [hm.1]
  apply AnswerSide.Holds.stands
  constructor
  · rw [hanswers]
    exact ⟨rfl, List.nodup_singleton 0, (Cycle.chain_singleton _ _).mpr ⟨hnext, hprev⟩⟩
  · rw [hqueue]
    exact .nil _
  · exact fun _ _ => List.not_mem_nil

def dispatchedAnswer : List ServiceEvent :=
  [.request .sample (.registerAnswer .sample), .dispatchAnswer]

def dispatchedProblem : List ServiceEvent :=
  [.request .sample (.registerProblem .sample), .dispatchProblem, .dispatchProblem,
    .dispatchProblem, .dispatchProblem, .dispatchProblem]

theorem ids_not_resolvable :
    Service.sample.Starts [] ∧
      ¬ StepsMeet (serviceStep .sample) (Service.Resolves .sample) .sample
        (dispatchedAnswer ++ [.request .sample (.solution (cstr "1"))]) ∧
      ¬ StepsMeet (serviceStep .sample) (Service.Resolves .sample) .sample
        (dispatchedProblem ++ [.request .sample (.answerProblem .sample (cstr "1"))]) := by
  refine ⟨Service.sample_starts, ?_, ?_⟩
  · have hrun : ∃ s a, Run (serviceStep .sample) .sample dispatchedAnswer s ∧ s.told = [(0, 1)] ∧
        s.daemon.answers.heap.valOf 0 = some a ∧ a.status = statusInProgress ∧
        ((Request.solution (cstr "1")).run .sample .sample s.daemon).replies = [.unknownError] :=
      ⟨_, _, rfl, rfl, rfl, rfl, rfl⟩
    obtain ⟨s, a, hrun, htold, hval, hst, hreplies⟩ := hrun
    intro h
    have hresolves := h _ _ s (List.prefix_refl _) hrun numeral_one 0 1 a
      (htold ▸ List.mem_singleton_self _) (by decide) hval
    rw [hreplies, hst] at hresolves
    cases hresolves
  · have hrun : ∃ s, Run (serviceStep .sample) .sample dispatchedProblem s ∧
        s.sent = [.problemOk 1] ∧ (∃ r, s.daemon.store.stored = [r] ∧ r.id = 1) ∧
        ((Request.answerProblem .sample (cstr "1")).run .sample .sample s.daemon).replies =
          [.unknownError] := ⟨_, rfl, rfl, ⟨_, rfl, rfl⟩, rfl⟩
    obtain ⟨s, hrun, hsent, ⟨r, hstored, hid⟩, hreplies⟩ := hrun
    intro h
    have hresolves := h _ _ s (List.prefix_refl _) hrun numeral_one 1
      (hsent ▸ List.mem_singleton_self _) ⟨r, hstored ▸ List.mem_singleton_self _, hid⟩ (by decide)
    rw [hreplies] at hresolves
    exact hresolves (List.mem_singleton_self _)

end Sample

end Aiqb
