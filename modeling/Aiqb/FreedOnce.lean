import Aiqb.ParserOwnership

namespace Aiqb
set_option autoImplicit true

def ParserEvent.handedAs (kind : BlockKind) : ParserEvent → Option Ptr
  | .registerProblem d => if kind = .problem then some d.ptr else none
  | .registerAnswer d => if kind = .answer then some d.ptr else none
  | _ => none

def ParserEvent.opens (kind : BlockKind) : ParserEvent → Bool
  | .printed .command token =>
    (kind = .problem && token = tokenRegisterProblem) ||
      (kind = .answer && token = tokenRegisterAnswer)
  | _ => false

structure ParserEvent.Mild (e : ParserEvent) : Prop where
  handedAs : ∀ kind, e.handedAs kind = none
  opens : ∀ kind, ¬ e.opens kind
  freed : ∀ f, e ≠ .freed f

theorem ParserEvent.Mild.reply (r : Reply) : Mild (.reply r) :=
  ⟨fun _ => rfl, fun _ => Bool.false_ne_true, fun _ he => by cases he⟩

theorem ParserEvent.Mild.printed {label : TokenClass} (h : label ≠ .command) (token : CString) :
    Mild (.printed label token) := by
  refine ⟨fun _ => rfl, fun kind => ?_, fun _ he => by cases he⟩
  cases label with
  | command => exact (h rfl).elim
  | _ => exact Bool.false_ne_true

theorem ParserEvent.Mild.command (hp : token ≠ tokenRegisterProblem)
    (ha : token ≠ tokenRegisterAnswer) : Mild (.printed .command token) := by
  refine ⟨fun _ => rfl, fun kind => ?_, fun _ he => by cases he⟩
  simp only [ParserEvent.opens, hp, ha, decide_false, Bool.and_false, Bool.or_false,
    Bool.false_eq_true, not_false_eq_true]

namespace Emits

variable {s s' : Parser W}

theorem handedAs (h : Emits ParserEvent.Mild s s') (kind : BlockKind) :
    s'.log.filterMap (ParserEvent.handedAs kind) =
      s.log.filterMap (ParserEvent.handedAs kind) := by
  obtain ⟨es, hl, hes⟩ := h
  have hnil : es.filterMap (ParserEvent.handedAs kind) = [] :=
    List.filterMap_eq_nil_iff.mpr fun e he => (hes e he).handedAs kind
  rw [hl, List.filterMap_append, hnil, List.append_nil]

theorem opens (h : Emits ParserEvent.Mild s s') (kind : BlockKind) :
    s'.log.countP (ParserEvent.opens kind) = s.log.countP (ParserEvent.opens kind) := by
  obtain ⟨es, hl, hes⟩ := h
  have hnone : es.countP (ParserEvent.opens kind) = 0 :=
    List.countP_eq_zero.mpr fun e he => (hes e he).opens kind
  rw [hl, List.countP_append, hnone, Nat.add_zero]

theorem freed (h : Emits ParserEvent.Mild s s') (hm : .freed f ∈ s'.log) : .freed f ∈ s.log := by
  obtain ⟨es, hl, hes⟩ := h
  rw [hl] at hm
  rcases List.mem_append.mp hm with hm | hm
  · exact hm
  · exact ((hes _ hm).freed f rfl).elim

end Emits

variable {V : Type} {q : Stock Ptr} {lib : Surroundings V} {s s' t : Parser (Arena V)}

/-- The parser accounts for what it has, what it has handed over and what it has freed. -/
structure Parser.Accounts (q : Stock Ptr) (s : Parser (Arena V)) : Prop where
  owns : ∃ nodes, s.world.Owns q [] nodes
  keeps : s.status = .reading → s.world.Keeps q s.state
  handed : ∀ kind, s.log.filterMap (ParserEvent.handedAs kind) =
    s.world.blocks.filterMap (BlockEvent.handedAs kind)
  opened : ∀ kind, kind ≠ .array → s.log.countP (ParserEvent.opens kind) =
    (s.world.blocks.filterMap (BlockEvent.givenAs kind)).length
  left : ∀ f b, .freed f ∈ s.log → f.block = some b → ¬ q.Handed s.world.blocks b
  reading : s.status = .reading → ∀ f, .freed f ∉ s.log

namespace Parser.Accounts

theorem extend (h : s.Accounts q) (hr : s'.status = .reading → s.status = .reading)
    (hlog : Emits ParserEvent.Mild s s') (hw : s.world.Routine s'.world)
    (howns : ∃ nodes, s'.world.Owns q [] nodes)
    (hkeeps : s'.status = .reading → s'.world.Keeps q s'.state) : s'.Accounts q where
  owns := howns
  keeps := hkeeps
  handed kind := by rw [hlog.handedAs, h.handed, hw.handed]
  opened kind hk := by rw [hlog.opens, h.opened kind hk, hw.given kind hk]
  left f b hf hb hh := h.left f b (hlog.freed hf) hb (hw.handed_iff.mp hh)
  reading hr' f hf := h.reading (hr hr') f (hlog.freed hf)

theorem mild (h : s.Accounts q) (hr : s.status = .reading) (hlog : Emits ParserEvent.Mild s s')
    (hw : s.world.Routine s'.world) (howns : ∃ nodes, s'.world.Owns q [] nodes)
    (hkeeps : s'.status = .reading → s'.world.Keeps q s'.state) : s'.Accounts q :=
  h.extend (fun _ => hr) hlog hw howns hkeeps

theorem idle (h : s.Accounts q) (hr : s.status = .reading) (hlog : Emits ParserEvent.Mild s s')
    (hw : s'.world = s.world) (hb : s'.state.blocks = []) (hs : s'.state.struct = none) :
    s'.Accounts q := by
  have howns : ∃ nodes, s'.world.Owns q [] nodes := hw ▸ h.owns
  exact h.mild hr hlog (.same (congrArg Arena.blocks hw)) howns fun _ => .of_owns howns hb hs

theorem free_world (fs : List Freed) (t : Parser (Arena V)) :
    (fs.foldl (Parser.free (arenaEnv lib)) t).world = fs.foldl Arena.free t.world := by
  induction fs generalizing t with
  | nil => rfl
  | cons f fs ih => exact ih (Parser.free (arenaEnv lib) t f)

theorem free_log (fs : List Freed) (t : Parser (Arena V)) :
    (fs.foldl (Parser.free (arenaEnv lib)) t).log = t.log ++ fs.map .freed := by
  induction fs generalizing t with
  | nil => exact (List.append_nil _).symm
  | cons f fs ih =>
    rw [List.foldl_cons, ih, List.map_cons]
    exact List.append_assoc _ _ _

theorem free_routine (fs : List Freed) (w : Arena V) : w.Routine (fs.foldl Arena.free w) := by
  induction fs generalizing w with
  | nil => exact .same rfl
  | cons f fs ih => exact (Arena.Routine.free w f).trans (ih (w.free f))

theorem free_owns {w : Arena V} (fs : List Freed) (h : w.Owns q (fs.filterMap Freed.block) nodes) :
    (fs.foldl Arena.free w).Owns q [] nodes := by
  induction fs generalizing w with
  | nil => exact h
  | cons f fs ih =>
    apply ih
    apply Arena.Owns.free
    cases hf : f.block with
    | none => rwa [List.filterMap_cons_none hf] at h
    | some b => rwa [List.filterMap_cons_some hf] at h

theorem leave {fs : List Freed} (h : s.Accounts q) (hr : s.status = .reading)
    (hlog : Emits ParserEvent.Mild s t)
    (hw : s.world.Routine t.world)
    (howns : ∃ nodes, t.world.Owns q (fs.filterMap Freed.block) nodes) :
    Accounts q { fs.foldl (Parser.free (arenaEnv lib)) t with status := .returned } := by
  obtain ⟨nodes, howns⟩ := howns
  have hroutine := hw.trans (free_routine fs t.world)
  have hnone (g : ParserEvent → Option Ptr) (hg : ∀ f, g (.freed f) = none) :
      (fs.map ParserEvent.freed).filterMap g = [] := by
    apply List.filterMap_eq_nil_iff.mpr
    intro e he
    obtain ⟨f, _, rfl⟩ := List.mem_map.mp he
    exact hg f
  have hcount (kind : BlockKind) :
      (fs.map ParserEvent.freed).countP (ParserEvent.opens kind) = 0 := by
    apply List.countP_eq_zero.mpr
    intro e he
    obtain ⟨f, _, rfl⟩ := List.mem_map.mp he
    exact Bool.false_ne_true
  constructor
  · dsimp only
    rw [free_world]
    exact ⟨nodes, free_owns fs howns⟩
  · exact fun hs => by cases hs
  · intro kind
    dsimp only
    rw [free_world, free_log, List.filterMap_append, hnone _ fun _ => rfl, List.append_nil,
      hlog.handedAs, h.handed, hroutine.handed]
  · intro kind hk
    dsimp only
    rw [free_world, free_log, List.countP_append, hcount, Nat.add_zero, hlog.opens,
      h.opened kind hk, hroutine.given kind hk]
  · intro f b hf hb
    dsimp only at hf ⊢
    rw [free_log] at hf
    rw [free_world, (free_routine fs t.world).handed_iff]
    rcases List.mem_append.mp hf with hf | hf
    · exact (h.reading hr f (hlog.freed hf)).elim
    · obtain ⟨f', hf', he⟩ := List.mem_map.mp hf
      cases he
      apply howns.books.kept b
      exact List.mem_append_left _ (List.mem_filterMap.mpr ⟨f, hf', hb⟩)
  · exact fun hs => by cases hs

theorem refuse {fs : List Freed} (h : s.Accounts q) (hr : s.status = .reading)
    (hl : t.log = s.log) (hw : t.world = s.world) (reply : Reply)
    (howns : ∃ nodes, t.world.Owns q (fs.filterMap Freed.block) nodes) :
    (t.leave (arenaEnv lib) reply fs).Accounts q := by
  have hlog : Emits ParserEvent.Mild s (t.emit (.reply reply)) := by
    apply Emits.emit (.reply reply)
    rw [← hl]
    rfl
  exact h.leave hr hlog (.same (congrArg Arena.blocks hw)) howns

/-- A fault is the end of the parser. -/
theorem faulted (h : s.Accounts q) (hr : s.status = .reading) (hw : s'.world = s.world)
    (hl : s'.log = s.log) (hs : s'.status ≠ .reading) : s'.Accounts q := by
  have howns : ∃ nodes, s'.world.Owns q [] nodes := hw ▸ h.owns
  exact h.mild hr (.same hl) (.same (congrArg Arena.blocks hw)) howns fun hr' => (hs hr').elim

theorem integerProblem {d : ProblemDraft} (h : s.Accounts q) (hr : s.status = .reading)
    (hst : s.state = .problem d) (v : UInt64) :
    (integerProblem (arenaEnv lib) v s).Accounts q := by
  have hkeeps := h.keeps hr
  rw [hst] at hkeeps
  simp only [Aiqb.integerProblem, hst]
  split
  · next fs w he =>
    rcases hkeeps.assignHeader he with ⟨fs', hfs, rfl, hsub⟩ | ⟨_, hok, _⟩
    · cases hfs
      obtain ⟨nodes, howns⟩ := hkeeps.owns
      exact h.refuse hr (by rfl) (by rfl) .memoryError ⟨nodes, howns.weaken hsub⟩
    · cases hok
  · next d₁ w he =>
    rcases hkeeps.assignHeader he with ⟨_, herror, _⟩ | ⟨d₂, hok, hroutine, hkeeps'⟩
    · cases herror
    · cases hok
      split
      · exact h.faulted hr rfl rfl Status.noConfusion
      · next d₃ hs =>
        have hstored := hkeeps'.storeIndex hs
        exact h.mild hr (.same rfl) hroutine hstored.drop fun _ => hstored

theorem integerAnswer {d : AnswerDraft} (h : s.Accounts q) (hr : s.status = .reading)
    (hst : s.state = .answer d) (v : UInt64) :
    (integerAnswer (arenaEnv lib) v s).Accounts q := by
  have hkeeps := h.keeps hr
  rw [hst] at hkeeps
  simp only [Aiqb.integerAnswer, hst]
  split
  · exact h.faulted hr rfl rfl Status.noConfusion
  · next r fs w he =>
    rcases hkeeps.assignAnswer he with ⟨r', fs', hfs, rfl, hsub⟩ | ⟨_, hok, _⟩
    · cases hfs
      obtain ⟨nodes, howns⟩ := hkeeps.owns
      exact h.refuse hr (by rfl) (by rfl) r ⟨nodes, howns.weaken hsub⟩
    · cases hok
  · next d₁ w he =>
    rcases hkeeps.assignAnswer he with ⟨_, _, herror, _⟩ | ⟨d₂, hok, hroutine, hkeeps'⟩
    · cases herror
    · cases hok
      exact h.mild hr (.same rfl) hroutine hkeeps'.drop fun _ => hkeeps'

theorem integerSolution (h : s.Accounts q) (hr : s.status = .reading) (hst : s.state = .solution)
    (v : UInt64) : (integerSolution (arenaEnv lib) v s).Accounts q := by
  simp only [Aiqb.integerSolution, hst]
  split
  · exact h.faulted hr rfl rfl Status.noConfusion
  · exact h.idle hr (.emit (.reply _) rfl) rfl rfl rfl
  · split
    · exact h.idle hr (.emit (.reply _) rfl) rfl rfl rfl
    · exact h.idle hr (.emit (.reply _) rfl) rfl rfl rfl

theorem integerDeleteAnswer (h : s.Accounts q) (hr : s.status = .reading)
    (hst : s.state = .deleteAnswer) (v : UInt64) :
    (integerDeleteAnswer (arenaEnv lib) v s).Accounts q := by
  simp only [Aiqb.integerDeleteAnswer, hst]
  split
  · exact h.faulted hr rfl rfl Status.noConfusion
  · next w he =>
    obtain ⟨nodes, howns⟩ := h.owns
    obtain rfl : w = s.world := howns.extractQueue_none he
    exact h.idle hr (.emit (.reply _) rfl) rfl rfl rfl
  · next a w he =>
    split
    · exact h.faulted hr rfl rfl Status.noConfusion
    · next w' hf =>
      obtain ⟨nodes, howns⟩ := h.owns
      have hdeleted : ∃ nodes, w'.Owns q [] nodes := ⟨_, howns.deleteAnswer he hf⟩
      apply h.mild hr (.emit (.reply _) rfl) _ hdeleted
      · exact fun _ => .of_owns hdeleted rfl rfl
      · exact (Arena.Routine.extractQueue he).trans (.freeAnswer hf)

theorem register (h : s.Accounts q) (hr : s.status = .reading) (kind : BlockKind) (p : Ptr)
    (e : ParserEvent) (reply : Reply) (hlog : s'.log = s.log ++ [e, .reply reply])
    (he : ∀ k, e.handedAs k = if kind = k then some p else none) (hopens : ∀ k, ¬ e.opens k)
    (hfreed : ∀ f, e ≠ .freed f) (hblocks : s'.world.blocks = s.world.blocks ++ [.handed kind p])
    (howns : ∃ nodes, s'.world.Owns q [] nodes) (hidle : s'.state = .idle) : s'.Accounts q where
  owns := howns
  keeps _ := .of_owns howns (by rw [hidle]; rfl) (by rw [hidle]; rfl)
  handed k := by
    have hreply : (ParserEvent.reply reply).handedAs k = none := rfl
    have hnew : (BlockEvent.handed kind p).handedAs k = e.handedAs k := (he k).symm
    rw [hlog, hblocks, List.filterMap_append, List.filterMap_append, h.handed, List.filterMap_cons,
      List.filterMap_cons, List.filterMap_cons, hreply, hnew]
    rfl
  opened k hk := by
    have hreply : ¬ (ParserEvent.reply reply).opens k := Bool.false_ne_true
    have hnew : (BlockEvent.handed kind p).givenAs k = none := rfl
    rw [hlog, hblocks, List.countP_append, List.filterMap_append, List.filterMap_cons_none hnew,
      List.filterMap_nil, List.append_nil, h.opened k hk, List.countP_cons_of_neg (hopens k),
      List.countP_cons_of_neg hreply, List.countP_nil, Nat.add_zero]
  left f _ hf := by
    rw [hlog] at hf
    rcases List.mem_append.mp hf with hf | hf
    · exact (h.reading hr f hf).elim
    · rcases List.mem_cons.mp hf with hf | hf
      · exact (hfreed f hf.symm).elim
      · cases List.mem_singleton.mp hf
  reading _ f hf := by
    rw [hlog] at hf
    rcases List.mem_append.mp hf with hf | hf
    · exact h.reading hr f hf
    · rcases List.mem_cons.mp hf with hf | hf
      · exact hfreed f hf.symm
      · cases List.mem_singleton.mp hf

theorem completeProblem {d : ProblemDraft} (h : s.Accounts q) (hr : s.status = .reading)
    (hst : s.state = .problem d) : (completeProblem (arenaEnv lib) d s).Accounts q := by
  have hkeeps := h.keeps hr
  rw [hst] at hkeeps
  unfold Aiqb.completeProblem
  simp only [arenaEnv, Option.bind_some]
  cases lib.registerProblem with
  | none => exact h.idle hr (.emit (.reply (.problemOk 1)) rfl) rfl rfl rfl
  | some register =>
    obtain ⟨nodes, howns⟩ := hkeeps.owns
    have hptr : [d.ptr].Subperm (ParserState.problem d).blocks := by
      apply List.Sublist.subperm
      exact List.singleton_sublist.mpr (List.mem_filterMap.mpr
        ⟨.problem d.ptr, List.mem_of_getLast? rfl, rfl⟩)
    have howns' :=
      (howns.weaken hptr).registerProblem (hkeeps.latest .problem d.ptr rfl) d.val register
    apply h.register hr .problem d.ptr (.registerProblem d)
      (.problemOk (s.world.registerProblem d.ptr d.val register).1) _ _ _ _ rfl ⟨nodes, howns'⟩ rfl
    · exact List.append_assoc _ _ _
    · intro k
      cases k <;> rfl
    · exact fun _ => Bool.false_ne_true
    · exact fun _ he => by cases he

theorem completeAnswer {d : AnswerDraft} (h : s.Accounts q) (hr : s.status = .reading)
    (hst : s.state = .answer d) : (completeAnswer (arenaEnv lib) d s).Accounts q := by
  have hkeeps := h.keeps hr
  rw [hst] at hkeeps
  obtain ⟨nodes, howns⟩ := hkeeps.owns
  have hfront : (d.ptr :: (d.val.data.map Block.addr).toList).Subperm
      (ParserState.answer d).blocks := by
    apply List.Perm.subperm
    cases hd : d.val.data with
    | none =>
      simp only [ParserState.blocks, ParserState.frees, hd]
      rfl
    | some b =>
      simp only [ParserState.blocks, ParserState.frees, hd]
      exact List.Perm.swap b.addr d.ptr []
  obtain ⟨k, w', hreg, howns', hblocks⟩ := (howns.weaken hfront).registerAnswer
    (hkeeps.latest .answer d.ptr rfl) (hkeeps.live d.ptr rfl)
  have hcall : (arenaEnv lib).handler.bind ParserHandle.registerAnswer =
      some Arena.registerAnswer := rfl
  simp only [Aiqb.completeAnswer, hcall, hreg]
  apply h.register hr .answer d.ptr (.registerAnswer d) (.answerOk k) _ _ _ _ hblocks
    ⟨_, howns'⟩ rfl
  · exact List.append_assoc _ _ _
  · intro k
    cases k <;> rfl
  · exact fun _ => Bool.false_ne_true
  · exact fun _ he => by cases he

theorem floatProblem {d : ProblemDraft} (h : s.Accounts q) (hr : s.status = .reading)
    (hst : s.state = .problem d) (v : UInt64) : (floatProblem (arenaEnv lib) v s).Accounts q := by
  have hkeeps := h.keeps hr
  rw [hst] at hkeeps
  simp only [Aiqb.floatProblem, hst]
  split
  · exact h.faulted hr rfl rfl Status.noConfusion
  · next d' hs =>
    have hstored := hkeeps.storePoint hs
    have hnext : Accounts q { s with state := .problem d', index := s.index + 1 } :=
      h.mild hr (.same rfl) (.same rfl) hstored.drop fun _ => hstored
    split
    · exact hnext.completeProblem hr rfl
    · exact hnext

theorem floatAnswer {d : AnswerDraft} (h : s.Accounts q) (hr : s.status = .reading)
    (hst : s.state = .answer d) (v : UInt64) : (floatAnswer (arenaEnv lib) v s).Accounts q := by
  have hkeeps := h.keeps hr
  rw [hst] at hkeeps
  simp only [Aiqb.floatAnswer, hst]
  split
  · exact h.faulted hr rfl rfl Status.noConfusion
  · next d' hs =>
    have hstored := hkeeps.storeOutput hs
    have hnext : Accounts q { s with state := .answer d', index := s.index + 1 } :=
      h.mild hr (.same rfl) (.same rfl) hstored.drop fun _ => hstored
    split
    · exact hnext.completeAnswer hr rfl
    · exact hnext

theorem integerToken (h : s.Accounts q) (hr : s.status = .reading) (token : CString) :
    (integerToken (arenaEnv lib) token s).Accounts q :=
  integerToken_rule h hr (fun _ hst => h.integerProblem hr hst _)
    (fun _ hst => h.integerAnswer hr hst _) (fun hst => h.integerSolution hr hst _)
    fun hst => h.integerDeleteAnswer hr hst _

theorem floatToken (h : s.Accounts q) (hr : s.status = .reading) (token : CString) :
    (floatToken (arenaEnv lib) token s).Accounts q :=
  floatToken_rule h hr (fun _ hst => h.floatProblem hr hst _)
    fun _ hst => h.floatAnswer hr hst _

theorem opens_struct {e : ParserEvent} (h : s.Accounts q) (hr : s.status = .reading)
    (kind : BlockKind) (hlog : s'.log = s.log ++ [e]) (he : ∀ k, e.handedAs k = none)
    (hopens : ∀ k, e.opens k = decide (kind = k)) (hfreed : ∀ f, e ≠ .freed f)
    (hblocks : s'.world.blocks = s.world.blocks ++ [.given kind s.world.side.heap.size])
    (hkeeps : s'.world.Keeps q s'.state) : s'.Accounts q where
  owns := hkeeps.drop
  keeps _ := hkeeps
  handed k := by
    have hnew : (BlockEvent.given kind s.world.side.heap.size).handedAs k = none := rfl
    rw [hlog, hblocks, List.filterMap_append, List.filterMap_append,
      List.filterMap_cons_none (he k), List.filterMap_cons_none hnew, h.handed]
    rfl
  opened k hk' := by
    rw [hlog, hblocks, List.countP_append, List.filterMap_append, List.length_append,
      h.opened k hk', List.countP_cons, List.countP_nil, hopens, List.filterMap_cons,
      BlockEvent.givenAs]
    by_cases hkind : kind = k
    · simp only [hkind, decide_true, if_true]
      rfl
    · simp only [hkind, decide_false, if_false]
      rfl
  left f _ hf := by
    rw [hlog] at hf
    rcases List.mem_append.mp hf with hf | hf
    · exact (h.reading hr f hf).elim
    · exact (hfreed f (List.mem_singleton.mp hf).symm).elim
  reading _ f hf := by
    rw [hlog] at hf
    rcases List.mem_append.mp hf with hf | hf
    · exact h.reading hr f hf
    · exact hfreed f (List.mem_singleton.mp hf).symm

theorem registerProblemCommand (h : s.Accounts q) (hr : s.status = .reading) :
    (registerProblemCommand (arenaEnv lib)
      (s.emit (.printed .command tokenRegisterProblem))).Accounts q := by
  obtain ⟨nodes, howns⟩ := h.owns
  apply h.opens_struct (e := .printed .command tokenRegisterProblem) hr .problem
  · rfl
  · exact fun _ => rfl
  · intro k
    cases k <;> decide
  · exact fun _ he => by cases he
  · rfl
  · refine ⟨⟨nodes, howns.give .problem⟩, ?_, fun _ hp => by cases hp⟩
    rintro kind p ⟨⟩
    exact (latest_snoc _ _ _).trans rfl

theorem registerAnswerCommand (h : s.Accounts q) (hr : s.status = .reading) :
    (registerAnswerCommand (arenaEnv lib)
      (s.emit (.printed .command tokenRegisterAnswer))).Accounts q := by
  obtain ⟨nodes, howns⟩ := h.owns
  apply h.opens_struct (e := .printed .command tokenRegisterAnswer) hr .answer
  · rfl
  · exact fun _ => rfl
  · intro k
    cases k <;> decide
  · exact fun _ he => by cases he
  · rfl
  · refine ⟨⟨nodes, howns.giveAnswer lib.answer⟩, ?_, ?_⟩
    · rintro kind p ⟨⟩
      exact (latest_snoc _ _ _).trans rfl
    · rintro p ⟨⟩
      apply Heap.live_of_val (a := lib.answer)
      exact congrFun (Heap.alloc_valOf _ _) _ |>.trans (Function.update_self _ _ _)

theorem listCommand {list : Option (V → V)} (h : s.Accounts q) (hr : s.status = .reading)
    (hlog : Emits ParserEvent.Mild s t) (hw : t.world = s.world) :
    (Aiqb.listCommand (list.map fun list w => { w with rest := list w.rest }) t).Accounts q := by
  cases list with
  | none => exact h.idle hr (hlog.trans (.same rfl)) hw rfl rfl
  | some list =>
    obtain ⟨nodes, howns⟩ := h.owns
    rw [← hw] at howns
    have howns' : ∃ nodes, { t.world with rest := list t.world.rest }.Owns q [] nodes :=
      ⟨nodes, howns.ring, howns.books, howns.below⟩
    have hblocks : t.world.blocks = s.world.blocks := congrArg Arena.blocks hw
    exact h.mild hr (hlog.trans (.emit (.reply .idle) rfl)) (.same hblocks) howns' fun _ =>
      .of_owns howns' rfl rfl

theorem commandToken (h : s.Accounts q) (hr : s.status = .reading) (token : CString) :
    (commandToken (arenaEnv lib) token (s.emit (.printed .command token))).Accounts q := by
  unfold Aiqb.commandToken
  split
  · next hp => exact hp ▸ h.registerProblemCommand hr
  · next hp =>
    split
    · next ha => exact ha ▸ h.registerAnswerCommand hr
    · next ha =>
      have hlog : Emits ParserEvent.Mild s (s.emit (.printed .command token)) :=
        .emit (.command hp ha) rfl
      split
      · exact h.idle hr hlog rfl rfl rfl
      split
      · exact h.idle hr hlog rfl rfl rfl
      split
      · exact h.mild hr hlog (.same rfl) h.owns h.keeps
      split
      · exact h.listCommand hr hlog rfl
      split
      · exact h.listCommand hr hlog rfl
      split
      · rw [requestClose_eq]
        exact h.leave hr hlog (.same rfl) (h.keeps hr).owns
      · exact h.mild hr hlog (.same rfl) h.owns h.keeps

theorem parserChar (h : s.Accounts q) (hr : s.status = .reading) (c : UInt8) :
    (parserChar (arenaEnv lib) s c).Accounts q := by
  apply parserChar_rule h hr
  · intro u u' hsame hu
    apply hu.extend (fun hr' => hsame.status ▸ hr') (.same hsame.log)
    · exact .same (congrArg Arena.blocks hsame.world)
    · exact hsame.world ▸ hu.owns
    · intro hr'
      rw [hsame.world, hsame.state]
      exact hu.keeps (hsame.status ▸ hr')
  · exact h.faulted hr rfl rfl Status.noConfusion
  · exact fun u label hl hu =>
      hu.extend id (.emit (.printed hl s.token) rfl) (.same rfl) hu.owns hu.keeps
  · exact fun _ _ _ u _ hru hu => hu.integerToken hru s.token
  · exact fun _ _ _ u _ hru hu => hu.floatToken hru s.token
  · exact fun _ _ _ u hru hu => hu.commandToken hru s.token

end Parser.Accounts

structure Arena.Starts (q : Stock Ptr) (w : Arena V) : Prop where
  ring : Ring w.side.heap w.side.answers q.handed
  arrays : arraysOf w.side.heap.valOf q.handed = q.others
  distinct : (q.others ++ q.handed).Nodup
  below : ∀ b ∈ q.others, b < w.side.heap.size
  blocks : w.blocks = []

theorem Arena.Starts.owns {w : Arena V} (h : w.Starts q) : w.Owns q [] q.handed where
  ring := h.ring
  books := by
    have hgiven : ∀ b ∈ q.others ++ q.handed, q.Given w.blocks b := by
      intro b hb
      exact (List.mem_append.mp hb).elim (fun hb => .inr (.inl hb)) .inl
    have hkept : ∀ b ∈ q.others, ¬ q.Handed w.blocks b := by
      rintro b hb (hh | ⟨kind, hh⟩)
      · exact List.disjoint_of_nodup_append h.distinct hb hh
      · rw [h.blocks] at hh
        cases hh
    rw [h.arrays]
    refine ⟨h.distinct, hgiven, ?_, hkept, fun b hb => .inl hb, ?_⟩
    · intro b _ hf
      rw [h.blocks] at hf
      cases hf
    · rw [h.blocks]
      exact .nil _
  below := by
    rintro b (hb | hb | ⟨kind, hb⟩)
    · exact (h.ring.live hb).lt_size
    · exact h.below b hb
    · rw [h.blocks] at hb
      cases hb

theorem Parser.Accounts.start {w : Arena V} (h : w.Starts q) (c : UInt8) :
    (Parser.start w c).Accounts q where
  owns := ⟨_, h.owns⟩
  keeps _ := .of_owns ⟨_, h.owns⟩ rfl rfl
  handed _ := by
    have hb : (Parser.start w c).world.blocks = [] := h.blocks
    rw [hb]
    rfl
  opened _ _ := by
    have hb : (Parser.start w c).world.blocks = [] := h.blocks
    rw [hb]
    rfl
  left _ _ hf := absurd hf List.not_mem_nil
  reading _ _ hf := absurd hf List.not_mem_nil

/-- Every block is freed, and every structure handed over, at most once and by whoever has it.
`left` is about what `req:close` and the error exits free. -/
structure Parser.FreesOnce (q : Stock Ptr) (s : Parser (Arena V)) : Prop where
  lawful : Throughout q.Lawful s.world.blocks
  ring : ∃ nodes, Ring s.world.side.heap s.world.side.answers nodes
  handed : ∀ kind, s.log.filterMap (ParserEvent.handedAs kind) =
    s.world.blocks.filterMap (BlockEvent.handedAs kind)
  opened : ∀ kind, kind ≠ .array → s.log.countP (ParserEvent.opens kind) =
    (s.world.blocks.filterMap (BlockEvent.givenAs kind)).length
  commanded : ∀ kind, kind ≠ .array → (s.log.filterMap (ParserEvent.handedAs kind)).length ≤
    s.log.countP (ParserEvent.opens kind)
  left : ∀ p, .freed (.answer p) ∈ s.log →
    p ∉ q.handed ∧ ∀ d, .registerAnswer d ∈ s.log → d.ptr ≠ p

theorem Parser.Accounts.freesOnce (h : s.Accounts q) : s.FreesOnce q where
  lawful := h.owns.elim fun _ howns => howns.books.lawful
  ring := h.owns.imp fun _ howns => howns.ring
  handed := h.handed
  opened := h.opened
  commanded kind hk := by
    obtain ⟨nodes, howns⟩ := h.owns
    rw [h.handed, h.opened kind hk]
    exact Stock.handed_le_given howns.books.lawful kind
  left p hp := by
    have hkept := h.left (.answer p) p hp rfl
    refine ⟨fun hm => hkept (.inl hm), ?_⟩
    rintro d hd rfl
    have hcall : d.ptr ∈ s.log.filterMap (ParserEvent.handedAs .answer) :=
      List.mem_filterMap.mpr ⟨_, hd, rfl⟩
    rw [h.handed] at hcall
    exact hkept (.inr ⟨.answer, mem_handedAs.mp hcall⟩)

/-- Whatever a client sends, the parser frees and hands over everything at most once. -/
theorem parser_frees_once {lib : ι → Surroundings V} {w : Arena V} (hw : w.Starts q) (c : UInt8)
    (hr : Run (readStep fun i => arenaEnv (lib i)) (.start w c) es s) : s.FreesOnce q := by
  have haccounts : s.Accounts q := by
    apply hr.invariant (.start hw c)
    intro t e u ht hs
    obtain ⟨hread, rfl⟩ := readStep_iff.mp hs
    exact ht.parserChar hread e.2
  exact haccounts.freesOnce

def Surroundings.sample : Surroundings Unit where
  atof _ := 0
  grants _ := true
  cells _ := 0
  problem := .zero
  answer := ⟨0, 0, 0, 0, none, none⟩
  findDb _ _ := some 0
  registerProblem := none
  listProblems := none
  listAnswers := none

/-- The second answer is abandoned, and the first one is deleted. -/
theorem parser_frees_once_answers :
    (parse (arenaEnv .sample) (.start ⟨.start 1, [], ()⟩ 0)
      (cstr "reg:answer 1 0 1 1.0 reg:answer 1 0 1 dlt:answer 1 ")).FreesOnce ⟨[], []⟩ := by
  have hread : (parse (arenaEnv .sample) (.start ⟨.start 1, [], ()⟩ 0)
      (cstr "reg:answer 1 0 1 1.0 reg:answer 1 0 1 dlt:answer 1 ")).status = .reading := by
    decide +kernel
  have hrun := run_of_parse (fun _ : Unit => arenaEnv .sample) () hread
  have hstarts : Arena.Starts ⟨[], []⟩ (⟨.start 1, [], ()⟩ : Arena Unit) :=
    ⟨.nil _, rfl, List.nodup_nil, fun _ hb => absurd hb List.not_mem_nil, rfl⟩
  exact parser_frees_once hstarts 0 hrun

end Aiqb
