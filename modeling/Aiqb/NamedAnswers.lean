import Aiqb.Numerals
import Aiqb.Resolvable

namespace Aiqb
set_option autoImplicit true

def HasId (val : Ptr → Option AnswerT) (xs : List Ptr) (v : Nat) (p : Ptr) : Prop :=
  p ∈ xs ∧ ∃ a, val p = some a ∧ a.id.toNat = v

/-- The number that `atoi` makes of the token leads to the answer that the token names. Where it is
0 it stands for the first answer. -/
def NamesExactly (ids : List UInt64) (token : CString) : Prop :=
  if atoul token = 0 then ids = [] ∨ ∃ id, ids.head? = some id ∧ id.toNat = decimal token
  else (atoul token).toNat = decimal token ∨
    atoul token ∉ ids ∧ ∀ id ∈ ids, id.toNat ≠ decimal token

def FindsNamed (val : Ptr → Option AnswerT) (xs : List Ptr) (t : CString) : Prop :=
  ∀ p, lookupId val xs (atoul t) = some p ↔ HasId val xs (decimal t) p

section Lookups

variable {val : Ptr → Option AnswerT} {xs : List Ptr} {v : Nat} {p q : Ptr}

theorem HasId.unique (hnd : xs.Nodup) (hd : (idsOf val xs).Nodup) (hp : HasId val xs v p)
    (hq : HasId val xs v q) : p = q := by
  obtain ⟨hp, a, ha, hav⟩ := hp
  obtain ⟨hq, c, hc, hcv⟩ := hq
  apply (idsOf_nodup_iff hnd).mp hd p hp a ha q hq c hc
  exact UInt64.toNat_inj.mp (hav.trans hcv.symm)

theorem mem_idsOf_iff {id : UInt64} : id ∈ idsOf val xs ↔ ∃ p, HasId val xs id.toNat p := by
  constructor
  · intro h
    obtain ⟨a, ha, rfl⟩ := List.mem_map.mp h
    obtain ⟨p, hp, hv⟩ := List.mem_filterMap.mp ha
    exact ⟨p, hp, a, hv, rfl⟩
  · rintro ⟨p, hp, a, ha, hid⟩
    exact UInt64.toNat_inj.mp hid ▸ mem_idsOf hp ha

theorem hasId_of_lookup {id : UInt64} (h0 : id ≠ 0) (h : lookupId val xs id = some p) :
    HasId val xs id.toNat p := by
  refine ⟨lookupId_mem h, ?_⟩
  rw [lookupId, if_neg h0] at h
  have hany := List.find?_some h
  obtain ⟨a, ha, hid⟩ := (Option.any_eq_true _ _).mp hany
  exact ⟨a, ha, congrArg UInt64.toNat (beq_iff_eq.mp hid).symm⟩

theorem lookupId_iff {id : UInt64} (hnd : xs.Nodup) (hd : (idsOf val xs).Nodup) (h0 : id ≠ 0) :
    lookupId val xs id = some p ↔ HasId val xs id.toNat p := by
  constructor
  · exact hasId_of_lookup h0
  · intro hp
    obtain ⟨a, ha, hid⟩ := hp.2
    have hany : (val p).any (fun a => id == a.id) := by
      rw [ha, Option.any_some, beq_iff_eq]
      exact UInt64.toNat_inj.mp hid.symm
    cases hl : lookupId val xs id with
    | none =>
      rw [lookupId, if_neg h0, List.find?_eq_none] at hl
      exact (hl p hp.1 hany).elim
    | some q => rw [(hasId_of_lookup h0 hl).unique hnd hd hp]

theorem names_exactly_iff {token : CString} (hl : ∀ p ∈ xs, ∃ a, val p = some a)
    (hnd : xs.Nodup) (hd : (idsOf val xs).Nodup) :
    FindsNamed val xs token ↔ NamesExactly (idsOf val xs) token := by
  unfold FindsNamed NamesExactly
  split
  · next h0 =>
    rw [h0]
    cases xs with
    | nil =>
      refine iff_of_true ?_ (.inl rfl)
      intro p
      rw [lookupId_nil]
      exact iff_of_false nofun fun hp => absurd hp.1 List.not_mem_nil
    | cons q xs =>
      obtain ⟨a, ha⟩ := hl q List.mem_cons_self
      have hids : idsOf val (q :: xs) = a.id :: idsOf val xs := idsOf_cons ha xs
      rw [hids, List.head?_cons, or_iff_right (List.cons_ne_nil _ _)]
      have hfirst : lookupId val (q :: xs) 0 = some q := rfl
      rw [hfirst]
      constructor
      · intro h
        obtain ⟨_, c, hc, hv⟩ := (h q).mp rfl
        cases ha.symm.trans hc
        exact ⟨a.id, rfl, hv⟩
      · rintro ⟨_, ⟨⟩, hv⟩ p
        have hq : HasId val (q :: xs) (decimal token) q := ⟨List.mem_cons_self, a, ha, hv⟩
        constructor
        · rintro ⟨⟩
          exact hq
        · intro hp
          rw [hq.unique hnd hd hp]
  · next h0 =>
    constructor
    · intro h
      by_cases hn : atoul token ∈ idsOf val xs
      · obtain ⟨p, hp⟩ := mem_idsOf_iff.mp hn
        obtain ⟨_, c, hc, hv⟩ := (h p).mp ((lookupId_iff hnd hd h0).mpr hp)
        obtain ⟨_, a, ha, hid⟩ := hp
        cases ha.symm.trans hc
        exact .inl (hid.symm.trans hv)
      · refine .inr ⟨hn, ?_⟩
        intro id hid he
        obtain ⟨p, hp⟩ := mem_idsOf_iff.mp hid
        have hfound := (h p).mpr (he ▸ hp)
        exact hn (mem_idsOf_iff.mpr ⟨p, hasId_of_lookup h0 hfound⟩)
    · rintro (he | ⟨hn, hv⟩) p
      · rw [lookupId_iff hnd hd h0, he]
      · refine iff_of_false ?_ ?_
        · intro hfound
          exact hn (mem_idsOf_iff.mpr ⟨p, hasId_of_lookup h0 hfound⟩)
        · rintro ⟨hp, a, ha, hid⟩
          exact hv a.id (mem_idsOf hp ha) hid

end Lookups

section Requests

variable {W : Type} {env : Env W}

theorem parse_request {s : Parser W} {command t : CString} {state : ParserState} {n : UInt16}
    (hcommand : ∀ s : Parser W,
      commandToken env command s = { s with state := state, index := 0 })
    (hne : command ≠ []) (hordinary : command.all isOrdinary) (hlen : command.length ≤ 127)
    (hflags : command.foldl TokenFlags.count .zero = ⟨0, n, 0, n⟩) (hn : n ≠ 0)
    (hb : s.Between) (hsep : Separators seps) (ht : DigitText t) (hsep' : Separators seps') :
    ∃ u : Parser W, u.state = state ∧ u.world = s.world ∧ u.replies = s.replies ∧
      u.status = .reading ∧
      ∀ v, integerToken env t u = v → v.status = .reading →
        parse env s (command ++ seps ++ (t ++ seps')) =
          { v with tokenFlags := .zero, token := [] } := by
  let r : Parser W := { s with char := 0, tokenFlags := ⟨0, n, 0, n⟩, token := command }
  have hanalyse : analyse env command ⟨0, n, 0, n⟩ r =
      commandToken env command
        ((r.emit (.printed .any command)).emit (.printed .command command)) :=
    analyse_letters hn hb.reading
  rw [hcommand] at hanalyse
  have hfirst := parse_token env hb hne (List.all_eq_true.mp hordinary) hlen hsep.ne_nil hsep.all
    _ hflags _ hanalyse hb.reading
  generalize hm : parse env s (command ++ seps) = m at hfirst
  have hbetween : m.Between := by
    rw [hfirst]
    exact ⟨hb.idle, hb.reading, rfl, rfl⟩
  have hreplies : m.replies = s.replies := by
    rw [hfirst]
    exact (Parser.replies_emit_printed _ .command command).trans
      (Parser.replies_emit_printed _ .any command)
  refine ⟨({ m with char := 0, tokenFlags := t.foldl TokenFlags.count .zero, token := t }.emit
    (.printed .any t)).emit (.printed .integer t), ?_, ?_, ?_, hbetween.reading, ?_⟩
  · rw [hfirst]
    rfl
  · rw [hfirst]
    rfl
  · rw [Parser.replies_emit_printed, Parser.replies_emit_printed]
    exact hreplies
  · intro v hv hr
    rw [parse_append, hm]
    apply parse_token env hbetween ht.ne_nil ht.ordinary ht.length hsep'.ne_nil hsep'.all _ rfl v
      _ hr
    rw [analyse_digits ht]
    exact hv

/-- The answer with the id is removed and freed, and no other; without one, nothing changes. -/
structure DeletesOnly (w w' : Daemon) (xs : List Ptr) (v : Nat) (replies : List Reply) : Prop where
  named : ∀ p, HasId w.answers.heap.valOf xs v p →
    Ring w'.answers.heap w'.answers.answers (xs.erase p) ∧
      w'.answers.heap.valOf = Function.update w.answers.heap.valOf p none ∧
      w'.store = w.store ∧ replies = [.idle]
  unnamed : (∀ p, ¬ HasId w.answers.heap.valOf xs v p) → w' = w ∧ replies = [.unknownError]

structure TellsOnly (w w' : Daemon) (xs : List Ptr) (v : Nat) (replies : List Reply) : Prop where
  kept : w' = w
  named : ∀ p, HasId w.answers.heap.valOf xs v p →
    replies = [.ofAnswer (w.answers.heap.valOf p)]
  unnamed : (∀ p, ¬ HasId w.answers.heap.valOf xs v p) → replies = [.unknownError]

variable {t : Tree} {lib : Library} {u : Parser Daemon} {xs : List Ptr} {id : UInt64}

theorem deleteAnswer_missing (hstate : u.state = .deleteAnswer)
    (hr : Ring u.world.answers.heap u.world.answers.answers xs)
    (hl : lookupId u.world.answers.heap.valOf xs id = none) :
    integerDeleteAnswer (daemonEnv t lib) id u = u.idle.emit (.reply .unknownError) := by
  simp only [integerDeleteAnswer, hstate, daemonEnv, extractQueue_none hr hl, Option.bind_eq_bind,
    Option.bind_some]
  rfl

theorem deleteAnswer_found (t : Tree) (lib : Library) (hstate : u.state = .deleteAnswer)
    (hr : Ring u.world.answers.heap u.world.answers.answers xs)
    (hl : lookupId u.world.answers.heap.valOf xs id = some q) :
    ∃ w', integerDeleteAnswer (daemonEnv t lib) id u =
        { u.idle with world := w' }.emit (.reply .idle) ∧
      Ring w'.answers.heap w'.answers.answers (xs.erase q) ∧
      w'.answers.heap.valOf = Function.update u.world.answers.heap.valOf q none ∧
      w'.answers.heap.size = u.world.answers.heap.size ∧ w'.store = u.world.store := by
  obtain ⟨h₁, queue, he, hr₁, hs₁, hv₁, _⟩ := extractQueue_some hr hl
  have hlive : h₁.Live q := by
    rw [Heap.live_iff_val, hv₁]
    exact Heap.live_iff_val.mp (hr.live (lookupId_mem hl))
  obtain ⟨h₂, hf, hs₂, _, _, hv₂⟩ := Heap.free_spec hlive
  refine ⟨{ u.world with answers := { u.world.answers with heap := h₂, answers := queue } }, ?_,
    hr₁.free hf hr.nodup.not_mem_erase, ?_, hs₂.trans hs₁, rfl⟩
  · simp only [integerDeleteAnswer, hstate, daemonEnv, he, hf, Option.bind_eq_bind,
      Option.bind_some]
  · rw [hv₂, hv₁]

end Requests

section Streams

variable {tree : Tree} {lib : Library} {s : Parser Daemon} {xs : List Ptr} {t : CString}

/-- What `dlt:answer` does, by what the code finds. -/
theorem parse_delete (tree : Tree) (lib : Library) (hb : s.Between)
    (hr : Ring s.world.answers.heap s.world.answers.answers xs) (ht : DigitText t)
    (hsep : Separators seps) (hsep' : Separators seps') :
    ∃ w' replies,
      (parse (daemonEnv tree lib) s (tokenDeleteAnswer ++ seps ++ (t ++ seps'))).world = w' ∧
      (parse (daemonEnv tree lib) s (tokenDeleteAnswer ++ seps ++ (t ++ seps'))).replies =
        s.replies ++ replies ∧
      match lookupId s.world.answers.heap.valOf xs (atoul t) with
      | none => w' = s.world ∧ replies = [.unknownError]
      | some q => Ring w'.answers.heap w'.answers.answers (xs.erase q) ∧
        w'.answers.heap.valOf = Function.update s.world.answers.heap.valOf q none ∧
        w'.store = s.world.store ∧ replies = [.idle] := by
  have hcommand : ∀ s, commandToken (daemonEnv tree lib) tokenDeleteAnswer s =
      { s with state := .deleteAnswer, index := 0 } := fun _ => rfl
  obtain ⟨u, hstate, hworld, hreplies, hread, hparse⟩ := parse_request (n := 10) hcommand nofun
    (by decide) (by decide) rfl (by decide) hb hsep ht hsep'
  rw [integerToken_eq _ _ _ hread, hstate] at hparse
  rw [← hworld] at hr
  cases hl : lookupId s.world.answers.heap.valOf xs (atoul t) with
  | none =>
    rw [← hworld] at hl
    rw [hparse _ (deleteAnswer_missing hstate hr hl) hread]
    refine ⟨_, [.unknownError], rfl, ?_, hworld, rfl⟩
    exact (Parser.replies_emit_reply _ _).trans (congrArg (· ++ _) hreplies)
  | some q =>
    rw [← hworld] at hl
    obtain ⟨w', he, hr', hv, _, hstore⟩ := deleteAnswer_found tree lib hstate hr hl
    rw [hworld] at hv hstore
    rw [hparse _ he hread]
    refine ⟨w', [.idle], rfl, ?_, hr', hv, hstore, rfl⟩
    exact (Parser.replies_emit_reply _ _).trans (congrArg (· ++ _) hreplies)

/-- What `req:solution` replies, by what the code finds. -/
theorem parse_solution (tree : Tree) (lib : Library) (hb : s.Between)
    (hr : Ring s.world.answers.heap s.world.answers.answers xs) (ht : DigitText t)
    (hsep : Separators seps) (hsep' : Separators seps') :
    (parse (daemonEnv tree lib) s (tokenRequestSolution ++ seps ++ (t ++ seps'))).world =
        s.world ∧
      (parse (daemonEnv tree lib) s (tokenRequestSolution ++ seps ++ (t ++ seps'))).replies =
        s.replies ++ [.ofAnswer ((lookupId s.world.answers.heap.valOf xs (atoul t)).bind
          s.world.answers.heap.valOf)] := by
  have hcommand : ∀ s, commandToken (daemonEnv tree lib) tokenRequestSolution s =
      { s with state := .solution, index := 0 } := fun _ => rfl
  obtain ⟨u, hstate, hworld, hreplies, hread, hparse⟩ := parse_request (n := 12) hcommand nofun
    (by decide) (by decide) rfl (by decide) hb hsep ht hsep'
  rw [integerToken_eq _ _ _ hread, hstate] at hparse
  rw [← hworld] at hr
  have hrun := integerSolution_run tree lib (atoul t) hstate hr hread
  rw [hworld] at hrun
  have hread' : (integerSolution (daemonEnv tree lib) (atoul t) u).status = .reading := hrun.2.2
  rw [hparse _ rfl hread']
  refine ⟨hrun.1, ?_⟩
  exact hrun.2.1.trans (congrArg (· ++ _) hreplies)

/-- The bytes take the daemon from its state to one with the replies in between. -/
def ActsAs (tree : Tree) (lib : Library) (s : Parser Daemon) (bytes : CString)
    (acts : Daemon → Daemon → List Reply → Prop) : Prop :=
  ∃ replies, (parse (daemonEnv tree lib) s bytes).replies = s.replies ++ replies ∧
    acts s.world (parse (daemonEnv tree lib) s bytes).world replies

theorem deletes_only_iff (hb : s.Between)
    (hr : Ring s.world.answers.heap s.world.answers.answers xs)
    (hd : (idsOf s.world.answers.heap.valOf xs).Nodup) (ht : DigitText t)
    (hsep : Separators seps) (hsep' : Separators seps') :
    ActsAs tree lib s (tokenDeleteAnswer ++ seps ++ (t ++ seps'))
      (fun w w' => DeletesOnly w w' xs (decimal t)) ↔
      FindsNamed s.world.answers.heap.valOf xs t := by
  obtain ⟨w', replies, hw, hreplies, hdone⟩ := parse_delete tree lib hb hr ht hsep hsep'
  constructor
  · rintro ⟨replies', hreplies', hdel⟩
    cases List.append_cancel_left (hreplies'.symm.trans hreplies)
    rw [hw] at hdel
    intro p
    cases hl : lookupId s.world.answers.heap.valOf xs (atoul t) with
    | none =>
      rw [hl] at hdone
      refine iff_of_false nofun ?_
      intro hp
      have hidle := (hdel.named p hp).2.2.2
      rw [hdone.2] at hidle
      cases hidle
    | some q =>
      rw [hl] at hdone
      obtain ⟨_, hv, _, hidle⟩ := hdone
      have hnamed : ∃ p, HasId s.world.answers.heap.valOf xs (decimal t) p := by
        by_contra hno
        have hunknown := (hdel.unnamed (not_exists.mp hno)).2
        rw [hidle] at hunknown
        cases hunknown
      obtain ⟨p', hp'⟩ := hnamed
      have hq : q = p' := by
        by_contra hne
        have hlive := Heap.live_iff_val.mp (hr.live (lookupId_mem hl))
        have hv' := congrFun ((hdel.named p' hp').2.1.symm.trans hv) q
        rw [Function.update_self, Function.update_of_ne hne] at hv'
        rw [hv'] at hlive
        obtain ⟨_, ⟨⟩⟩ := hlive
      rw [← hq] at hp'
      constructor
      · rintro ⟨⟩
        exact hp'
      · intro hp
        rw [hp'.unique hr.nodup hd hp]
  · intro hf
    refine ⟨replies, hreplies, ?_⟩
    rw [hw]
    constructor
    · intro p hp
      rw [(hf p).mpr hp] at hdone
      exact hdone
    · intro hno
      have hl : lookupId s.world.answers.heap.valOf xs (atoul t) = none :=
        Option.eq_none_iff_forall_ne_some.mpr fun p hp => hno p ((hf p).mp hp)
      rw [hl] at hdone
      exact hdone

theorem tells_only (hb : s.Between) (hr : Ring s.world.answers.heap s.world.answers.answers xs)
    (ht : DigitText t) (hsep : Separators seps) (hsep' : Separators seps')
    (hf : FindsNamed s.world.answers.heap.valOf xs t) :
    ActsAs tree lib s (tokenRequestSolution ++ seps ++ (t ++ seps'))
      (fun w w' => TellsOnly w w' xs (decimal t)) := by
  obtain ⟨hw, hreplies⟩ := parse_solution tree lib hb hr ht hsep hsep'
  refine ⟨_, hreplies, hw, ?_, ?_⟩
  · intro p hp
    rw [(hf p).mpr hp, Option.bind_some]
  · intro hno
    have hl : lookupId s.world.answers.heap.valOf xs (atoul t) = none :=
      Option.eq_none_iff_forall_ne_some.mpr fun p hp => hno p ((hf p).mp hp)
    rw [hl]
    rfl

/-- Both requests act on exactly the answer that is named, or else on none, when the number that is
looked up leads to it. -/
theorem requests_act_on_named_iff (tree : Tree) (lib : Library) (s : Parser Daemon) (hb : s.Between)
    (hr : Ring s.world.answers.heap s.world.answers.answers xs)
    (hd : (idsOf s.world.answers.heap.valOf xs).Nodup) (ht : DigitText t)
    (hsep : Separators seps) (hsep' : Separators seps') :
    (ActsAs tree lib s (tokenDeleteAnswer ++ seps ++ (t ++ seps'))
        (fun w w' => DeletesOnly w w' xs (decimal t)) ∧
      ActsAs tree lib s (tokenRequestSolution ++ seps ++ (t ++ seps'))
        (fun w w' => TellsOnly w w' xs (decimal t))) ↔
      NamesExactly (idsOf s.world.answers.heap.valOf xs) t := by
  have hl : ∀ p ∈ xs, ∃ a, s.world.answers.heap.valOf p = some a := by
    intro p hp
    exact Heap.live_iff_val.mp (hr.live hp)
  rw [← names_exactly_iff hl hr.nodup hd, deletes_only_iff hb hr hd ht hsep hsep']
  constructor
  · intro h
    exact h.1
  · intro hf
    exact ⟨hf, tells_only hb hr ht hsep hsep' hf⟩

end Streams

theorem stored_answers (limit : UInt32) {es : List AnswerEvent} {b : AnswerBook}
    (hb : Run AnswerBook.step (.start limit) es b) :
    ∃ s : Parser Daemon, s.Between ∧
      Ring s.world.answers.heap s.world.answers.answers b.answers ∧
      idsOf s.world.answers.heap.valOf b.answers = idsOf b.val b.answers := by
  obtain ⟨answers, _, hrep⟩ := Run.realized (fun s b e h => h.step e) (represents_start limit) hb
  let w : Daemon := ⟨answers, .start (fun _ _ => none) 0 1 (cstr "d")⟩
  refine ⟨.client w .idle, ⟨rfl, rfl, rfl, rfl⟩, hrep.holds.answers, ?_⟩
  exact congrArg (idsOf · b.answers) hrep.val

theorem requests_act_on_named_two : ∃ (s : Parser Daemon) (xs : List Ptr),
    s.Between ∧ Ring s.world.answers.heap s.world.answers.answers xs ∧
    idsOf s.world.answers.heap.valOf xs = [1, 2] ∧ DigitText [50] ∧ Separators [32] ∧
    ((ActsAs .sample .sample s (tokenDeleteAnswer ++ [32] ++ ([50] ++ [32]))
        (fun w w' => DeletesOnly w w' xs (decimal [50])) ∧
      ActsAs .sample .sample s (tokenRequestSolution ++ [32] ++ ([50] ++ [32]))
        (fun w w' => TellsOnly w w' xs (decimal [50]))) ↔
      NamesExactly (idsOf s.world.answers.heap.valOf xs) [50]) := by
  have hb : ∃ b, Run AnswerBook.step (.start 1) [.register .oneRow, .register .oneRow] b ∧
      idsOf b.val b.answers = [1, 2] := ⟨_, rfl, rfl⟩
  obtain ⟨b, hb, hids⟩ := hb
  obtain ⟨s, hbetween, hr, he⟩ := stored_answers 1 hb
  have hids' := he.trans hids
  have hd : (idsOf s.world.answers.heap.valOf b.answers).Nodup := hids' ▸ by decide
  have ht : DigitText [50] := ⟨nofun, by decide, List.forall_mem_singleton.mpr rfl⟩
  have hsep : Separators [32] := ⟨nofun, List.forall_mem_singleton.mpr rfl⟩
  exact ⟨s, b.answers, hbetween, hr, hids', ht, hsep,
    requests_act_on_named_iff .sample .sample s hbetween hr hd ht hsep hsep⟩

/-- `dlt:answer 0` deletes the answer 1. -/
theorem delete_acts_on_first : ∃ (s : Parser Daemon) (xs : List Ptr),
    s.Between ∧ Ring s.world.answers.heap s.world.answers.answers xs ∧
    idsOf s.world.answers.heap.valOf xs = [1] ∧ DigitText [48] ∧ decimal [48] = 0 ∧
    ¬ ActsAs .sample .sample s (tokenDeleteAnswer ++ [32] ++ ([48] ++ [32]))
      (fun w w' => DeletesOnly w w' xs (decimal [48])) := by
  have hrun : ∃ b, Run AnswerBook.step (.start 1) [.register .oneRow] b ∧
      idsOf b.val b.answers = [1] := ⟨_, rfl, rfl⟩
  obtain ⟨b, hrun, hone⟩ := hrun
  obtain ⟨s, hb, hr, he⟩ := stored_answers 1 hrun
  have hids := he.trans hone
  generalize b.answers = xs at hr hids
  have hd : (idsOf s.world.answers.heap.valOf xs).Nodup := hids ▸ List.nodup_singleton 1
  have hl : ∀ p ∈ xs, ∃ a, s.world.answers.heap.valOf p = some a := by
    intro p hp
    exact Heap.live_iff_val.mp (hr.live hp)
  have ht : DigitText [48] := ⟨nofun, by decide, List.forall_mem_singleton.mpr rfl⟩
  have hsep : Separators [32] := ⟨nofun, List.forall_mem_singleton.mpr rfl⟩
  refine ⟨s, xs, hb, hr, hids, ht, rfl, ?_⟩
  rw [deletes_only_iff hb hr hd ht hsep hsep, names_exactly_iff hl hr.nodup hd, hids]
  rintro (hnil | ⟨_, ⟨⟩, hid⟩)
  · cases hnil
  · cases hid

end Aiqb
