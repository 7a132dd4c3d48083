import Aiqb.WorldTwins

namespace Aiqb
set_option autoImplicit true

inductive ParserState.Twin : ParserState → ParserState → Prop
  | idle : Twin .idle .idle
  | problem (h : d.Twin d') : Twin (.problem d) (.problem d')
  | answer (h : d.Twin d') : Twin (.answer d) (.answer d')
  | solution : Twin .solution .solution
  | deleteAnswer : Twin .deleteAnswer .deleteAnswer

/-- Two parsers that have read the same, and their daemons. -/
structure Parser.Twin (s s' : Parser Daemon) : Prop where
  lexer : SameLexer s s'
  state : s.state.Twin s'.state
  index : s'.index = s.index
  answers : ∃ xs, s.world.answers.Alike s'.world.answers xs
  store : s.world.store.Alike s'.world.store
  replies : s'.replies = s.replies
  status : s'.status = s.status

theorem Parser.replies_same {s u : Parser W} (hlog : u.log = s.log ++ es)
    (hes : ∀ e ∈ es, ∀ r, e ≠ .reply r) : u.replies = s.replies := by
  rw [replies, replies, hlog, List.filterMap_append]
  refine (congrArg _ (List.filterMap_eq_nil_iff.mpr ?_)).trans (List.append_nil _)
  intro e he
  cases e with
  | reply r => exact (hes _ he r rfl).elim
  | _ => rfl

theorem given_alike {o o' : Option α} (h : o'.isSome = o.isSome) :
    o = none ∧ o' = none ∨ ∃ a a', o = some a ∧ o' = some a' := by
  cases o with
  | none => exact .inl ⟨rfl, Option.isNone_iff_eq_none.mp (Option.isSome_eq_false_iff.mp h)⟩
  | some a =>
    obtain ⟨a', ha'⟩ := Option.isSome_iff_exists.mp h
    exact .inr ⟨a, a', rfl, ha'⟩

namespace Parser.Twin

variable {t : Tree} {lib lib' : Library} {s s' : Parser Daemon}

theorem reply (h : s.Twin s') (r : Reply) : (s.emit (.reply r)).Twin (s'.emit (.reply r)) :=
  { h with
    lexer := ⟨h.lexer.char, h.lexer.tokenState, h.lexer.tokenFlags, h.lexer.token⟩
    replies := by rw [replies_emit_reply, replies_emit_reply, h.replies] }

theorem silent (h : s.Twin s') (e e' : ParserEvent) (he : ∀ r, e ≠ .reply r)
    (he' : ∀ r, e' ≠ .reply r) : (s.emit e).Twin (s'.emit e') := by
  have hleft : (s.emit e).replies = s.replies :=
    replies_same rfl fun _ hm => List.mem_singleton.mp hm ▸ he
  have hright : (s'.emit e').replies = s'.replies :=
    replies_same rfl fun _ hm => List.mem_singleton.mp hm ▸ he'
  exact { h with
    lexer := ⟨h.lexer.char, h.lexer.tokenState, h.lexer.tokenFlags, h.lexer.token⟩
    replies := hright.trans (h.replies.trans hleft.symm) }

theorem printed (h : s.Twin s') (label : TokenClass) (token : CString) :
    (s.emit (.printed label token)).Twin (s'.emit (.printed label token)) :=
  h.silent _ _ (fun _ he => by cases he) fun _ he => by cases he

theorem registeredProblem (h : s.Twin s') (d d' : ProblemDraft) :
    (s.emit (.registerProblem d)).Twin (s'.emit (.registerProblem d')) :=
  h.silent _ _ (fun _ he => by cases he) fun _ he => by cases he

theorem registeredAnswer (h : s.Twin s') (d d' : AnswerDraft) :
    (s.emit (.registerAnswer d)).Twin (s'.emit (.registerAnswer d')) :=
  h.silent _ _ (fun _ he => by cases he) fun _ he => by cases he

theorem andThen {f f' : Parser Daemon → Parser Daemon} (h : s.Twin s')
    (hf : s.status = .reading → (f s).Twin (f' s')) : (s.andThen f).Twin (s'.andThen f') := by
  unfold Parser.andThen
  rw [h.status]
  split
  · next hr => exact hf hr
  · exact h

theorem idle (h : s.Twin s') : s.idle.Twin s'.idle :=
  { h with
    lexer := ⟨h.lexer.char, h.lexer.tokenState, h.lexer.tokenFlags, h.lexer.token⟩
    state := .idle
    index := rfl }

theorem stopped (h : s.Twin s') (status : Status) :
    Parser.Twin { s with status := status } { s' with status := status } :=
  { h with
    lexer := ⟨h.lexer.char, h.lexer.tokenState, h.lexer.tokenFlags, h.lexer.token⟩
    status := rfl }

theorem filled (h : s.Twin s') (hstate : ParserState.Twin st st') (index : UInt16) :
    Parser.Twin { s with state := st, index := index } { s' with state := st', index := index } :=
  { h with
    lexer := ⟨h.lexer.char, h.lexer.tokenState, h.lexer.tokenFlags, h.lexer.token⟩
    state := hstate
    index := rfl }

theorem free_eq (fs : List Freed) (s : Parser Daemon) :
    fs.foldl (Parser.free (daemonEnv t lib)) s = { s with log := s.log ++ fs.map .freed } := by
  induction fs generalizing s with
  | nil => rw [List.map_nil, List.append_nil]; rfl
  | cons f fs ih =>
    rw [List.foldl_cons, ih, Parser.free, List.map_cons, List.append_assoc]
    rfl

theorem free (h : s.Twin s') (fs fs' : List Freed) :
    (fs.foldl (Parser.free (daemonEnv t lib)) s).Twin
      (fs'.foldl (Parser.free (daemonEnv t lib')) s') := by
  have hfreed : ∀ gs : List Freed, ∀ e ∈ gs.map ParserEvent.freed, ∀ r, e ≠ .reply r := by
    rintro gs e he r rfl
    obtain ⟨_, _, hf⟩ := List.mem_map.mp he
    cases hf
  rw [free_eq, free_eq]
  have hleft : Parser.replies { s with log := s.log ++ fs.map .freed } = s.replies :=
    replies_same rfl (hfreed fs)
  have hright : Parser.replies { s' with log := s'.log ++ fs'.map .freed } = s'.replies :=
    replies_same rfl (hfreed fs')
  exact { h with
    lexer := ⟨h.lexer.char, h.lexer.tokenState, h.lexer.tokenFlags, h.lexer.token⟩
    replies := hright.trans (h.replies.trans hleft.symm) }

theorem leave (h : s.Twin s') (r : Reply) (fs fs' : List Freed) :
    (s.leave (daemonEnv t lib) r fs).Twin (s'.leave (daemonEnv t lib') r fs') :=
  ((h.reply r).free fs fs').stopped .returned

end Parser.Twin

/-- What a number reads of the drafts in the two runs: an array is asked for by sizes that are
known, and the tests behind the switch, which are reached unless memory is refused, are settled. -/
structure IntegerSettled (t : Tree) (lib : Library) (v : UInt64) (s s' : Parser Daemon) :
    Prop where
  asked : ∀ d d', s.state = .problem d → s'.state = .problem d' → s.index.toNat = 4 →
    Known d.assigned d.val.field d'.val.field [.rows, .sizeX]
  tests : ∀ d d', s.state = .problem d → s'.state = .problem d' →
    (assignHeader (daemonEnv t lib) s.world s.index v d).1.isOk →
    (d.numbered s.index v).IndexSettled (d'.numbered s.index v) s.index.toUInt64
  answer : ∀ d d', s.state = .answer d → s'.state = .answer d' → s.index.toNat = 2 →
    Known d.assigned d.val.field d'.val.field [.sizeX]

structure FloatSettled (s s' : Parser Daemon) : Prop where
  problem : ∀ d d', s.state = .problem d → s'.state = .problem d' → d.PointSettled d' s.index
  answer : ∀ d d', s.state = .answer d → s'.state = .answer d' → d.OutputSettled d' s.index

namespace Parser.Twin

variable {t : Tree} {lib lib' : Library} {s s' : Parser Daemon} {v : UInt64} {token : CString}

theorem integerProblem (hlib : lib.Alike lib') (h : s.Twin s')
    (hok : IntegerSettled t lib v s s') :
    (integerProblem (daemonEnv t lib) v s).Twin (integerProblem (daemonEnv t lib') v s') := by
  have hstate := h.state
  have hindex := h.index
  have hasked := hok.asked
  have htests := hok.tests
  obtain ⟨_, _, _, _, st, j, w, _, _⟩ := s
  obtain ⟨_, _, _, _, st', i, w', _, _⟩ := s'
  dsimp only at hstate hindex hasked htests
  subst hindex
  unfold Aiqb.integerProblem
  cases hstate with
  | @problem d d' hd =>
    have hassign := assignHeader_twin t w w' hlib hd i v (hasked d d' rfl rfl)
    have hsettled : ∀ m m', (assignHeader (daemonEnv t lib) w i v d).1 = .ok m →
        (assignHeader (daemonEnv t lib') w' i v d').1 = .ok m' → m.IndexSettled m' i.toUInt64 := by
      intro m m' hm hm'
      have hok : (assignHeader (daemonEnv t lib) w i v d).1.isOk := by
        rw [hm]
        rfl
      exact (htests d d' rfl rfl hok).congr (assignHeader_numbered hm) (assignHeader_numbered hm')
    have hw : (assignHeader (daemonEnv t lib) w i v d).2 = w := Quiet.assignHeader_world w i v d
    have hw' : (assignHeader (daemonEnv t lib') w' i v d').2 = w' :=
      Quiet.assignHeader_world w' i v d'
    dsimp only
    generalize assignHeader (daemonEnv t lib) w i v d = x,
      assignHeader (daemonEnv t lib') w' i v d' = x' at hassign hsettled hw hw' ⊢
    obtain ⟨r, u⟩ := x
    obtain ⟨r', u'⟩ := x'
    obtain rfl : u = w := hw
    obtain rfl : u' = w' := hw'
    dsimp only at hassign hsettled
    cases hassign with
    | error => exact h.leave .memoryError _ _
    | @ok m m' hm =>
      have hstore := storeIndex_twin hm (hsettled m m' rfl rfl) v
      dsimp only
      generalize storeIndex i.toUInt64 v m = y, storeIndex i.toUInt64 v m' = y' at hstore ⊢
      cases hstore with
      | none => exact h.stopped _
      | some hstored => exact h.filled (.problem hstored.twin) _
  | _ => exact h

theorem integerAnswer (hlib : lib.Alike lib') (h : s.Twin s')
    (hok : IntegerSettled t lib v s s') :
    (integerAnswer (daemonEnv t lib) v s).Twin (integerAnswer (daemonEnv t lib') v s') := by
  have hstate := h.state
  have hindex := h.index
  have hside := h.store.side
  have hasked := hok.answer
  obtain ⟨_, _, _, _, st, j, w, _, _⟩ := s
  obtain ⟨_, _, _, _, st', i, w', _, _⟩ := s'
  dsimp only at hstate hindex hside hasked
  subst hindex
  unfold Aiqb.integerAnswer
  cases hstate with
  | @answer d d' hd =>
    have hassign := assignAnswer_twin t hlib hd hside i v (hasked d d' rfl rfl)
    have hw : ∀ r u, assignAnswer (daemonEnv t lib) w i v d = some (r, u) → u = w :=
      fun r u => Quiet.assignAnswer_world
    have hw' : ∀ r u, assignAnswer (daemonEnv t lib') w' i v d' = some (r, u) → u = w' :=
      fun r u => Quiet.assignAnswer_world
    dsimp only
    generalize assignAnswer (daemonEnv t lib) w i v d = x,
      assignAnswer (daemonEnv t lib') w' i v d' = x' at hassign hw hw' ⊢
    cases hassign with
    | none => exact h.stopped _
    | @some x x' hassign =>
      obtain ⟨r, u⟩ := x
      obtain ⟨r', u'⟩ := x'
      obtain rfl := hw r u rfl
      obtain rfl := hw' r' u' rfl
      dsimp only at hassign
      cases hassign with
      | @error e e' he =>
        obtain ⟨r, fs⟩ := e
        obtain ⟨r', fs'⟩ := e'
        obtain rfl : r' = r := he
        exact h.leave r' fs fs'
      | ok hm => exact h.filled (.answer hm) _
  | _ => exact h

theorem integerSolution (h : s.Twin s') (hs : s.state = .solution) (hs' : s'.state = .solution) :
    (integerSolution (daemonEnv t lib) v s).Twin (integerSolution (daemonEnv t lib') v s') := by
  obtain ⟨xs, hxs⟩ := h.answers
  rw [integerSolution_eq t lib v hs hxs.left, integerSolution_eq t lib' v hs' hxs.right, hxs.reply]
  exact h.idle.reply _

theorem inWorld {w w' : Daemon} (h : s.Twin s') (answers : ∃ xs, w.answers.Alike w'.answers xs)
    (store : w.store.Alike w'.store) :
    Parser.Twin { s with world := w } { s' with world := w' } :=
  { h with
    lexer := ⟨h.lexer.char, h.lexer.tokenState, h.lexer.tokenFlags, h.lexer.token⟩
    answers := answers
    store := store }

theorem integerDeleteAnswer (h : s.Twin s') (hs : s.state = .deleteAnswer)
    (hs' : s'.state = .deleteAnswer) :
    (integerDeleteAnswer (daemonEnv t lib) v s).Twin
      (integerDeleteAnswer (daemonEnv t lib') v s') := by
  obtain ⟨xs, hxs⟩ := h.answers
  have hlookup := hxs.lookup v
  cases hl : lookupId s.world.answers.heap.valOf xs v with
  | none =>
    rw [hl] at hlookup
    rw [deleteAnswer_missing hs hxs.left hl, deleteAnswer_missing hs' hxs.right hlookup]
    exact h.idle.reply _
  | some q =>
    rw [hl] at hlookup
    obtain ⟨w, he, hr, hv, hsize, hstore⟩ := deleteAnswer_found t lib hs hxs.left hl
    obtain ⟨w', he', hr', hv', hsize', hstore'⟩ :=
      deleteAnswer_found t lib' hs' hxs.right hlookup
    rw [he, he']
    apply reply
    apply h.idle.inWorld
    · refine ⟨xs.erase q, hr, hr', hsize'.trans (hxs.size.trans hsize.symm), ?_⟩
      intro p hp
      have hne : p ≠ q := by
        rintro rfl
        exact hxs.left.nodup.not_mem_erase hp
      rw [hv, hv', Function.update_of_ne hne, Function.update_of_ne hne]
      exact hxs.nodes p (List.mem_of_mem_erase hp)
    · rw [hstore, hstore']
      exact h.store

theorem integerToken (hlib : lib.Alike lib') (h : s.Twin s') (hr : s.status = .reading)
    (hok : IntegerSettled t lib (atoul token) s s') :
    (integerToken (daemonEnv t lib) token s).Twin (integerToken (daemonEnv t lib') token s') := by
  rw [integerToken_eq _ _ _ hr, integerToken_eq _ _ _ (h.status.trans hr)]
  have hstate := h.state
  generalize hs : s.state = st, hs' : s'.state = st' at hstate ⊢
  cases hstate with
  | idle => exact h
  | problem => exact integerProblem hlib h hok
  | answer => exact integerAnswer hlib h hok
  | solution => exact h.integerSolution hs hs'
  | deleteAnswer => exact h.integerDeleteAnswer hs hs'

theorem completeProblem {d d' : ProblemDraft} (hlib : lib.Alike lib') (h : s.Twin s')
    (hd : d.val.SameShape d'.val) :
    (completeProblem (daemonEnv t lib) d s).Twin (completeProblem (daemonEnv t lib') d' s') := by
  have hregister := aiqbdRegisterProblem_alike t hlib h.store hd
  simp only [Aiqb.completeProblem, daemonEnv, Option.bind_some]
  generalize aiqbdRegisterProblem t lib s.world d.val = x,
    aiqbdRegisterProblem t lib' s'.world d'.val = x' at hregister ⊢
  cases hregister with
  | none => exact (h.registeredProblem d d').stopped _
  | @some x x' hregister =>
    obtain ⟨id, w⟩ := x
    obtain ⟨id', w'⟩ := x'
    obtain ⟨hid, hstore, hanswers, hanswers'⟩ := hregister
    obtain rfl : id' = id := hid
    have hworld : Parser.Twin { s with world := w } { s' with world := w' } := by
      apply h.inWorld _ hstore
      dsimp only at hanswers hanswers'
      rw [hanswers, hanswers']
      exact h.answers
    exact ((hworld.registeredProblem d d').reply _).idle

theorem completeAnswer {d d' : AnswerDraft} (h : s.Twin s') (hid : d'.val.id = d.val.id) :
    (completeAnswer (daemonEnv t lib) d s).Twin (completeAnswer (daemonEnv t lib') d' s') := by
  obtain ⟨xs, hxs⟩ := h.answers
  obtain ⟨u, u', id, he, he', hu⟩ := hxs.register hid
  simp only [Aiqb.completeAnswer, daemonEnv, Option.bind_some, registerParsedAnswer, he, he',
    Option.bind_eq_bind]
  have hworld : Parser.Twin { s with world := { s.world with answers := u } }
      { s' with world := { s'.world with answers := u' } } := h.inWorld ⟨_, hu⟩ h.store
  exact ((hworld.registeredAnswer d d').reply _).idle

theorem sameShape_of_known {d d' m m' : ProblemDraft} (hm : TwinStores d d' m m')
    (hsame : ∀ slot ∈ sizeSlots, d'.val.field slot = d.val.field slot) :
    m.val.SameShape m'.val where
  rows := hm.right.rows.trans ((hsame .rows (by decide)).trans hm.left.rows.symm)
  sizeX := hm.right.sizeX.trans ((hsame .sizeX (by decide)).trans hm.left.sizeX.symm)
  sizeY := hm.right.sizeY.trans ((hsame .sizeY (by decide)).trans hm.left.sizeY.symm)
  cvSize := hm.right.cvSize.trans ((hsame .cvSize (by decide)).trans hm.left.cvSize.symm)
  testSize := hm.right.testSize.trans ((hsame .testSize (by decide)).trans hm.left.testSize.symm)
  stateSize :=
    hm.right.stateSize.trans ((hsame .stateSize (by decide)).trans hm.left.stateSize.symm)
  cvData := hm.twin.cvData
  testData := hm.twin.testData
  data := hm.twin.data
  state := hm.twin.state

theorem total_same {d m : ProblemDraft} (h : d.val.SameHeader m.val) : m.total = d.total := by
  rw [ProblemDraft.total, ProblemDraft.total, h.cvSize, h.testSize, h.points, h.stateSize]

theorem total_known {d d' : ProblemDraft}
    (hsame : ∀ slot ∈ sizeSlots, d'.val.field slot = d.val.field slot) : d'.total = d.total := by
  obtain ⟨hcvSize, htestSize, hpoints, hstateSize⟩ := sizes_same hsame
  rw [ProblemDraft.total, ProblemDraft.total, hcvSize, htestSize, hpoints, hstateSize]

theorem floatProblem (hlib : lib.Alike lib') (h : s.Twin s') (hok : FloatSettled s s') :
    (floatProblem (daemonEnv t lib) v s).Twin (floatProblem (daemonEnv t lib') v s') := by
  have hstate := h.state
  have hindex := h.index
  have hproblem := hok.problem
  obtain ⟨_, _, _, _, st, j, w, _, _⟩ := s
  obtain ⟨_, _, _, _, st', i, w', _, _⟩ := s'
  dsimp only at hstate hindex hproblem
  subst hindex
  unfold Aiqb.floatProblem
  cases hstate with
  | @problem d d' hd =>
    have hsettled := hproblem d d' rfl rfl
    have hstore := storePoint_twin hd hsettled v
    have htotal := hsettled.total.alike hd.field fun hsame => by rw [total_known hsame]
    dsimp only
    generalize storePoint i.toUInt64 v d = y, storePoint i.toUInt64 v d' = y' at hstore ⊢
    cases hstore with
    | none => exact h.stopped _
    | @some m m' hm =>
      have hfilled := h.filled (.problem hm.twin) (i + 1)
      dsimp only
      rw [total_same hm.left, total_same hm.right]
      by_cases hdone : (i + 1).toUInt64 = d.total
      · rw [if_pos hdone, if_pos (htotal.1.mp hdone)]
        exact completeProblem hlib hfilled (sameShape_of_known hm (htotal.2 hdone))
      · rw [if_neg hdone, if_neg (mt htotal.1.mpr hdone)]
        exact hfilled
  | _ => exact h

theorem floatAnswer (h : s.Twin s') (hok : FloatSettled s s') :
    (floatAnswer (daemonEnv t lib) v s).Twin (floatAnswer (daemonEnv t lib') v s') := by
  have hstate := h.state
  have hindex := h.index
  have hanswer := hok.answer
  obtain ⟨_, _, _, _, st, j, w, _, _⟩ := s
  obtain ⟨_, _, _, _, st', i, w', _, _⟩ := s'
  dsimp only at hstate hindex hanswer
  subst hindex
  unfold Aiqb.floatAnswer
  cases hstate with
  | @answer d d' hd =>
    have hsettled := hanswer d d' rfl rfl
    have hstore := storeOutput_twin hd hsettled v
    have htotal := hsettled.total.alike hd.field fun hsame => by
      have hsizeX : d'.val.sizeX = d.val.sizeX := hsame .sizeX (by decide)
      have hsizeY : d'.val.sizeY = d.val.sizeY := hsame .sizeY (by decide)
      rw [AnswerDraft.total, AnswerDraft.total, hsizeX, hsizeY]
    dsimp only
    generalize storeOutput i.toUInt64 v d = y, storeOutput i.toUInt64 v d' = y' at hstore ⊢
    cases hstore with
    | none => exact h.stopped _
    | @some m m' hm =>
      have hfilled := h.filled (.answer hm.twin) (i + 1)
      dsimp only
      rw [hm.left.2, hm.right.2]
      by_cases hdone : (i + 1).toUInt64 = d.total
      · rw [if_pos hdone, if_pos (htotal.1.mp hdone)]
        apply completeAnswer hfilled
        rw [hm.right.1, hm.left.1]
        exact hsettled.id hdone
      · rw [if_neg hdone, if_neg (mt htotal.1.mpr hdone)]
        exact hfilled
  | _ => exact h

theorem floatToken (hlib : lib.Alike lib') (h : s.Twin s') (hr : s.status = .reading)
    (hok : FloatSettled s s') :
    (floatToken (daemonEnv t lib) token s).Twin (floatToken (daemonEnv t lib') token s') := by
  have hatof : (daemonEnv t lib').atof = (daemonEnv t lib).atof := hlib.atof
  rw [floatToken_eq _ _ _ hr, floatToken_eq _ _ _ (h.status.trans hr), hatof]
  have hstate := h.state
  generalize hs : s.state = st, hs' : s'.state = st' at hstate ⊢
  cases hstate with
  | problem => exact floatProblem hlib h hok
  | answer => exact floatAnswer h hok
  | _ => exact h

theorem registerProblemCommand (hlib : lib.Alike lib') (h : s.Twin s') :
    (registerProblemCommand (daemonEnv t lib) s).Twin
      (registerProblemCommand (daemonEnv t lib') s') := by
  simp only [Aiqb.registerProblemCommand, daemonEnv]
  rcases given_alike hlib.mallocProblem with ⟨hp, hp'⟩ | ⟨⟨ptr, p⟩, ⟨ptr', p'⟩, hp, hp'⟩
  · rw [hp, hp']
    exact h.stopped _
  · rw [hp, hp']
    exact h.filled (.problem (.fresh ptr ptr' p p')) 0

theorem registerAnswerCommand (hlib : lib.Alike lib') (h : s.Twin s') :
    (registerAnswerCommand (daemonEnv t lib) s).Twin
      (registerAnswerCommand (daemonEnv t lib') s') := by
  simp only [Aiqb.registerAnswerCommand, daemonEnv]
  rcases given_alike hlib.mallocAnswer with ⟨hp, hp'⟩ | ⟨⟨ptr, a⟩, ⟨ptr', a'⟩, hp, hp'⟩
  · rw [hp, hp']
    exact h.stopped _
  · rw [hp, hp']
    exact h.filled (.answer (.fresh ptr ptr' a a')) 0

theorem commandToken (hlib : lib.Alike lib') (h : s.Twin s') :
    (commandToken (daemonEnv t lib) token s).Twin (commandToken (daemonEnv t lib') token s') := by
  unfold Aiqb.commandToken
  split
  · exact registerProblemCommand hlib h
  split
  · exact registerAnswerCommand hlib h
  split
  · exact h.filled .solution 0
  split
  · exact h.filled .deleteAnswer 0
  split
  · exact h
  split
  · exact h.idle.reply .idle
  split
  · exact h.idle.reply .idle
  split
  · rw [requestClose_eq, requestClose_eq]
    exact (h.free _ _).stopped .returned
  · exact h

/-- The analysis of a token in both runs. -/
theorem analyse {flags : TokenFlags} (hlib : lib.Alike lib') (h : s.Twin s')
    (hr : s.status = .reading)
    (integer : flags.isInteger → IntegerSettled t lib (atoul token) s s')
    (float : flags.isFloat → FloatSettled s s') :
    (analyse (daemonEnv t lib) token flags s).Twin (analyse (daemonEnv t lib') token flags s') := by
  have hany := h.printed .any token
  have hnumber :
      ((analyseInteger (daemonEnv t lib) token flags (s.emit (.printed .any token))).andThen
        (analyseFloat (daemonEnv t lib) token flags)).Twin
      ((analyseInteger (daemonEnv t lib') token flags (s'.emit (.printed .any token))).andThen
        (analyseFloat (daemonEnv t lib') token flags)) := by
    by_cases hi : flags.isInteger
    · have hint : (analyseInteger (daemonEnv t lib) token flags (s.emit (.printed .any token))).Twin
          (analyseInteger (daemonEnv t lib') token flags (s'.emit (.printed .any token))) := by
        have hok := integer hi
        rw [analyseInteger, analyseInteger, if_pos hi, if_pos hi]
        apply integerToken hlib (hany.printed .integer token) hr
        exact ⟨hok.asked, hok.tests, hok.answer⟩
      apply andThen hint
      intro _
      have hf := TokenFlags.isInteger_not_isFloat hi
      rw [analyseFloat, analyseFloat, if_neg hf, if_neg hf]
      exact hint
    · rw [analyseInteger, analyseInteger, if_neg hi, if_neg hi]
      apply andThen hany
      intro _
      unfold analyseFloat
      split
      · next hf =>
        have hok := float hf
        apply floatToken hlib (hany.printed .float token) hr
        exact ⟨hok.problem, hok.answer⟩
      · exact hany
  apply andThen hnumber
  intro _
  unfold analyseCommand
  split
  · exact commandToken hlib (hnumber.printed .command token)
  · exact hnumber

theorem relexed (h : s.Twin s') (c : UInt8) (state : TokenState) (flags : TokenFlags)
    (token : CString) :
    Parser.Twin { s with char := c, tokenState := state, tokenFlags := flags, token := token }
      { s' with char := c, tokenState := state, tokenFlags := flags, token := token } :=
  { h with lexer := ⟨rfl, rfl, rfl, rfl⟩ }

theorem renewed (h : s.Twin s') :
    Parser.Twin { s with tokenFlags := .zero, token := [] }
      { s' with tokenFlags := .zero, token := [] } :=
  { h with lexer := ⟨h.lexer.char, h.lexer.tokenState, rfl, rfl⟩ }

end Parser.Twin

end Aiqb
