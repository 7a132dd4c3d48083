import Aiqb.ServerRequests

namespace Aiqb
set_option autoImplicit true

section Refining

variable {κ : Type} {t : Tree} {lib : Library} {s s' : Server κ} {p q : Parser Daemon} {i : κ}

def Server.Waits (s : Server κ) : Prop := ∀ i p, s.parsers i = some p → p.status = .reading

theorem Server.start_waits (w : Daemon) : (Server.start κ w).Waits := fun _ _ h => nomatch h

theorem deskStep_request {w : Daemon} {told : List (κ × Reply)} {r : Request}
    (hd : ∀ f, (r.run t lib w).status ≠ .fault f) :
    deskStep t ⟨w, told⟩ (some i, .request lib r) =
      some ⟨(r.run t lib w).world, told ++ (r.run t lib w).replies.map (i, ·)⟩ := by
  have hstep : requestStep t ⟨w, [], []⟩ lib r =
      some ⟨(r.run t lib w).world, (r.run t lib w).replies,
        r.tells w (r.run t lib w).replies⟩ := by
    unfold requestStep
    dsimp only
    split
    · next f hf => exact absurd hf (hd f)
    · rfl
  rw [deskStep, serviceStep, hstep, Option.map_some, Option.toList_some, List.flatMap_singleton]

/-- At the desk, the requests of a byte are steps of their own. -/
theorem Parser.Does.desk (h : Parser.Does t lib p rs q) (i : κ) :
    ∃ new, q.replies = p.replies ++ new ∧ ∀ told,
      Run (deskStep t) ⟨p.world, told⟩ (rs.map fun r => (some i, .request lib r))
        ⟨q.world, told ++ new.map (i, ·)⟩ := by
  induction h with
  | silent h =>
    refine ⟨[], h.replies.trans (List.append_nil _).symm, fun told => Run.nil_iff.mpr ?_⟩
    rw [h.world]
    exact congrArg (Desk.mk _) (List.append_nil told).symm
  | @request q rs v p r hp hd _ _ ih =>
    obtain ⟨new, hnew, hrun⟩ := ih
    refine ⟨(r.run t lib p.world).replies ++ new, ?_, fun told => ?_⟩
    · rw [hnew, hp.replies, List.append_assoc]
    · have hdef : ∀ f, (r.run t lib p.world).status ≠ .fault f := fun f => hp.status ▸ hd f
      refine Run.cons_iff.mpr ⟨_, deskStep_request hdef, ?_⟩
      rw [List.map_append, ← List.append_assoc, ← hp.world]
      exact hrun _

variable [DecidableEq κ]

theorem Server.leaves_some (h : s.leaves i p q = some s') :
    (∀ f, q.status ≠ .fault f) ∧
      s' =
        { daemon := q.world
          parsers := Function.update s.parsers i (if q.status = .reading then some q else none)
          sent := s.sent ++ (q.replies.drop p.replies.length).map (i, ·) } := by
  unfold leaves at h
  split at h
  · cases h
  · next hf =>
    cases h
    exact ⟨fun f he => hf f he, rfl⟩

theorem Server.Waits.update (h : s.Waits) {v : Option (Parser Daemon)}
    (hv : ∀ q, v = some q → q.status = .reading)
    (hs : s'.parsers = Function.update s.parsers i v) : s'.Waits := by
  intro j q hq
  rw [hs, Function.update_apply] at hq
  split at hq
  · exact hv q hq
  · exact h j q hq

theorem read_refines (hw : s.Waits) (hs : serverStep t s (.read i lib result) = some s') :
    s'.Waits ∧ Run (deskStep t) s.desk ((ServerEvent.read i lib result).asked s) s'.desk := by
  obtain ⟨p, hp, hs⟩ := Option.bind_eq_some_iff.mp hs
  obtain ⟨hdef, rfl⟩ := Server.leaves_some hs
  constructor
  · refine hw.update (i := i) (v := ite _ _ _) ?_ rfl
    intro q hq
    split at hq
    · next hreading => exact Option.some.inj hq ▸ hreading
    · cases hq
  · obtain ⟨new, hnew, hrun⟩ := (parserChar_does (s := s.enters p) (hw i p hp) hdef).desk i
    have hsame : (s.enters p).replies = p.replies := rfl
    have hdrop : (parserChar (daemonEnv t lib) (s.enters p) (result.char p.char)).replies.drop
        p.replies.length = new := by
      rw [hnew, hsame, List.drop_left]
    rw [ServerEvent.asked, hp, Server.desk, Server.desk]
    dsimp only
    rw [hdrop]
    exact hrun s.sent

omit [DecidableEq κ] in
theorem onService_refines {e : ServiceEvent} (hs : s.onService t e = some s') :
    s'.parsers = s.parsers ∧ Run (deskStep t) s.desk [(none, e)] s'.desk := by
  obtain ⟨v, hv, rfl⟩ := Option.map_eq_some_iff.mp hs
  refine ⟨rfl, Run.cons_iff.mpr ⟨_, ?_, Run.nil_iff.mpr rfl⟩⟩
  rw [deskStep]
  change (serviceStep t ⟨s.daemon, [], []⟩ e).map _ = _
  rw [hv, Option.map_some]
  simp only [Option.toList_none, List.flatMap_nil, List.append_nil]
  rfl

/-- All that a step of the server can do. -/
theorem serverStep_cases {e : ServerEvent κ} (hs : serverStep t s e = some s') :
    (∃ i char, e = .accept i char ∧
      s' = { s with parsers := Function.update s.parsers i (some (.start s.daemon char)) }) ∨
    (∃ i lib result p, e = .read i lib result ∧ s.parsers i = some p ∧
      s.leaves i p (parserChar (daemonEnv t lib) (s.enters p) (result.char p.char)) = some s') ∨
    (∃ i, e = .hangUp i ∧ s' = { s with parsers := Function.update s.parsers i none }) ∨
    ∃ e', e.asked s = [(none, e')] ∧ s.onService t e' = some s' := by
  cases e with
  | accept i char =>
    obtain ⟨_, hs⟩ := Option.ite_none_right_eq_some.mp hs
    exact .inl ⟨i, char, rfl, (Option.some.inj hs).symm⟩
  | read i lib result =>
    obtain ⟨p, hp, hs⟩ := Option.bind_eq_some_iff.mp hs
    exact .inr (.inl ⟨i, lib, result, p, rfl, hp, hs⟩)
  | hangUp i =>
    obtain ⟨_, hs⟩ := Option.ite_none_right_eq_some.mp hs
    exact .inr (.inr (.inl ⟨i, rfl, (Option.some.inj hs).symm⟩))
  | dispatchAnswer => exact .inr (.inr (.inr ⟨_, rfl, hs⟩))
  | completeAnswer answer => exact .inr (.inr (.inr ⟨_, rfl, hs⟩))
  | dispatchProblem => exact .inr (.inr (.inr ⟨_, rfl, hs⟩))
  | completeProblem problem now pad => exact .inr (.inr (.inr ⟨_, rfl, hs⟩))
  | takeSolved problem => exact .inr (.inr (.inr ⟨_, rfl, hs⟩))
  | giveBack atom => exact .inr (.inr (.inr ⟨_, rfl, hs⟩))

theorem serverStep_refines (hw : s.Waits) {e : ServerEvent κ} (hs : serverStep t s e = some s') :
    s'.Waits ∧ Run (deskStep t) s.desk (e.asked s) s'.desk := by
  rcases serverStep_cases hs with
    ⟨i, char, rfl, rfl⟩ | ⟨i, lib, result, p, rfl, _, _⟩ | ⟨i, rfl, rfl⟩ | ⟨e', he, hservice⟩
  · exact ⟨hw.update (i := i) (fun q hq => Option.some.inj hq ▸ rfl) rfl, Run.nil_iff.mpr rfl⟩
  · exact read_refines hw hs
  · refine ⟨hw.update (i := i) (v := none) ?_ rfl, Run.nil_iff.mpr rfl⟩
    intro q hq
    cases hq
  · obtain ⟨hparsers, hrun⟩ := onService_refines hservice
    rw [he]
    exact ⟨fun i p hp => hw i p (hparsers ▸ hp), hrun⟩

theorem desk_follows (s : Server κ) (v : Desk κ) (e : ServerEvent κ) (s' : Server κ)
    (h : s.Waits ∧ v = s.desk) (hs : serverStep t s e = some s') :
    ∃ v', Run (deskStep t) v (e.asked s) v' ∧ s'.Waits ∧ v' = s'.desk := by
  obtain ⟨hw, rfl⟩ := h
  obtain ⟨hw', hrun⟩ := serverStep_refines hw hs
  exact ⟨s'.desk, hrun, hw', rfl⟩

/-- However the bytes of the clients are interleaved, with each other and with the steps of the
other threads, the requests they make up act on the daemon one at a time, each when its last byte
is read, and each client is told about its own. -/
theorem server_refines (w : Daemon) (es : List (ServerEvent κ))
    (hr : Run (serverStep t) (.start κ w) es s) :
    Run (deskStep t) (.start κ w) (emittedAll (serverStep t) ServerEvent.asked (.start κ w) es)
      s.desk := by
  have hstart : (Server.start κ w).Waits ∧ Desk.start κ w = (Server.start κ w).desk :=
    ⟨Server.start_waits w, rfl⟩
  obtain ⟨v, hrun, _, rfl⟩ := Run.stutters
    (R := fun s v => s.Waits ∧ v = s.desk)
    desk_follows hstart hr
  exact hrun

/-- A client connects, and sends a problem of one row. -/
def oneRowSent : List (ServerEvent Nat) :=
  .accept 0 0 ::
    (cstr "reg:problem 1 1 1 1 0 0 0 0 0.5 ").map fun c => .read 0 Library.granting (.byte c)

theorem server_refines_oneRow :
    (emittedAll (serverStep .sample) ServerEvent.asked (.start Nat ⟨.start 1, .sample⟩)
        oneRowSent).length = 1 ∧
      ∃ s, Run (serverStep .sample) (.start Nat ⟨.start 1, .sample⟩) oneRowSent s ∧
        Run (deskStep .sample) (.start Nat ⟨.start 1, .sample⟩)
          (emittedAll (serverStep .sample) ServerEvent.asked (.start Nat ⟨.start 1, .sample⟩)
            oneRowSent) s.desk := by
  have hsome : (oneRowSent.foldlM (serverStep .sample)
      (Server.start Nat ⟨.start 1, .sample⟩)).isSome := by
    decide +kernel
  obtain ⟨s, hr⟩ := Option.isSome_iff_exists.mp hsome
  exact ⟨by decide +kernel, s, hr, server_refines _ _ hr⟩

end Refining

end Aiqb
