import Aiqb.Arena
import Aiqb.DraftSteps
import Aiqb.ParserEmits

namespace Aiqb
set_option autoImplicit true

def ParserState.blocks (st : ParserState) : List Ptr := st.frees.filterMap Freed.block

def ParserState.struct : ParserState → Option (BlockKind × Ptr)
  | .problem d => some (.problem, d.ptr)
  | .answer d => some (.answer, d.ptr)
  | _ => none

theorem ParserState.struct_ne_array {st : ParserState} (h : st.struct = some (kind, p)) :
    kind ≠ .array := by
  rintro rfl
  cases st <;> cases h

theorem blocks_erase (as cs : List Freed) (f : Freed) :
    ((as ++ cs).filterMap Freed.block).Subperm ((as ++ f :: cs).filterMap Freed.block) :=
  (((List.sublist_cons_self f cs).append_left as).filterMap Freed.block).subperm

theorem blocks_replace (as cs : List Freed) (f g : Freed) :
    ((as ++ g :: cs).filterMap Freed.block).Subperm
      (g.block.toList ++ (as ++ f :: cs).filterMap Freed.block) := by
  have hfront : ((as ++ g :: cs).filterMap Freed.block).Perm
      (g.block.toList ++ (as ++ cs).filterMap Freed.block) := by
    have hmiddle : (as ++ g :: cs).Perm (g :: (as ++ cs)) := List.perm_middle
    have hperm := hmiddle.filterMap Freed.block
    cases hg : g.block with
    | none => rwa [List.filterMap_cons_none hg] at hperm
    | some b => rwa [List.filterMap_cons_some hg] at hperm
  exact hfront.subperm.trans ((List.Subperm.refl g.block.toList).append (blocks_erase as cs f))

/-- What the ledger has of handed over structures, and of structures that were given out, is what
it was. -/
structure Arena.Routine (w w' : Arena V) : Prop where
  handed : ∀ kind, w'.blocks.filterMap (BlockEvent.handedAs kind) =
    w.blocks.filterMap (BlockEvent.handedAs kind)
  given : ∀ kind, kind ≠ .array → w'.blocks.filterMap (BlockEvent.givenAs kind) =
    w.blocks.filterMap (BlockEvent.givenAs kind)

namespace Arena.Routine

variable {V : Type} {w w' w'' : Arena V}

theorem same (h : w'.blocks = w.blocks) : Routine w w' :=
  ⟨fun _ => by rw [h], fun _ _ => by rw [h]⟩

theorem trans (h : Routine w w') (h' : Routine w' w'') : Routine w w'' :=
  ⟨fun kind => (h'.handed kind).trans (h.handed kind),
    fun kind hk => (h'.given kind hk).trans (h.given kind hk)⟩

theorem snoc {e : BlockEvent BlockKind Ptr} (h : w'.blocks = w.blocks ++ [e])
    (hh : ∀ kind, e.handedAs kind = none) (hg : ∀ kind, kind ≠ .array → e.givenAs kind = none) :
    Routine w w' := by
  constructor
  · intro kind
    rw [h, List.filterMap_append, List.filterMap_cons_none (hh kind), List.filterMap_nil,
      List.append_nil]
  · intro kind hk
    rw [h, List.filterMap_append, List.filterMap_cons_none (hg kind hk), List.filterMap_nil,
      List.append_nil]

theorem latest (h : Routine w w') (hk : kind ≠ .array) :
    latest kind w'.blocks = latest kind w.blocks := by
  unfold Aiqb.latest
  rw [h.given kind hk]

theorem handed_iff {q : Stock Ptr} (h : Routine w w') :
    q.Handed w'.blocks b ↔ q.Handed w.blocks b := by
  unfold Stock.Handed
  simp only [← mem_handedAs, h.handed]

theorem give (w : Arena V) : Routine w (w.give .array) := by
  apply snoc (e := .given .array w.side.heap.size) rfl
  · exact fun _ => rfl
  · exact fun kind hk => if_neg hk.symm

theorem free (w : Arena V) (f : Freed) : Routine w (w.free f) := by
  apply snoc (e := .freed f.block)
  · cases f <;> rfl
  · exact fun _ => rfl
  · exact fun _ _ => rfl

theorem freeAnswer (h : w.freeAnswer p = some w') : Routine w w' := by
  obtain ⟨a, _, rfl⟩ := Option.map_eq_some_iff.mp h
  exact (free w _).trans (free _ _)

theorem extractQueue (h : w.extractQueue k = some (some p, w')) : Routine w w' := by
  simp only [Arena.extractQueue, Option.bind_eq_bind] at h
  obtain ⟨⟨h', answers, answer⟩, _, h⟩ := Option.bind_eq_some_iff.mp h
  cases answer with
  | none => cases h
  | some answer =>
    cases h
    exact snoc (e := .taken p) rfl (fun _ => rfl) fun _ _ => rfl

end Arena.Routine

/-- The parser has the blocks of the structure that it fills, the latest of its kind. -/
structure Arena.Keeps (q : Stock Ptr) (w : Arena V) (st : ParserState) : Prop where
  owns : ∃ nodes, w.Owns q st.blocks nodes
  latest : ∀ kind p, st.struct = some (kind, p) → latest kind w.blocks = some p
  live : ∀ p, st.struct = some (.answer, p) → w.side.heap.Live p

namespace Arena.Keeps

variable {V : Type} {q : Stock Ptr} {w w' : Arena V} {st st' : ParserState}

theorem same (h : w.Keeps q st) (hb : st'.blocks = st.blocks) (hs : st'.struct = st.struct) :
    w.Keeps q st' :=
  ⟨hb ▸ h.owns, fun kind p hp => h.latest kind p (hs ▸ hp), fun p hp => h.live p (hs ▸ hp)⟩

theorem drop (h : w.Keeps q st) : ∃ nodes, w.Owns q [] nodes := by
  obtain ⟨nodes, hw⟩ := h.owns
  exact ⟨nodes, hw.weaken List.nil_subperm⟩

theorem of_owns (h : ∃ nodes, w.Owns q [] nodes) (hb : st.blocks = []) (hs : st.struct = none) :
    w.Keeps q st :=
  ⟨hb ▸ h, fun _ _ hp => (by rw [hs] at hp; cases hp), fun _ hp => by rw [hs] at hp; cases hp⟩

theorem allocArray {lib : Surroundings V} {put : Option Block → δ} (h : w.Keeps q st)
    (he : allocArray (arenaEnv lib) w n put fs = (r, w')) :
    (r = .error fs ∧ w' = w) ∨
      ∃ b, r = .ok (put b) ∧ w.Routine w' ∧ ∀ st', st'.struct = st.struct →
        st'.blocks.Subperm ((b.map Block.addr).toList ++ st.blocks) → w'.Keeps q st' := by
  obtain ⟨nodes, hown⟩ := h.owns
  simp only [Aiqb.allocArray, arenaEnv] at he
  by_cases hg : lib.grants (n * 8)
  · simp only [hg, if_true, Option.isNone_some, Bool.false_eq_true, and_false, if_false] at he
    cases he
    refine .inr ⟨_, rfl, .give w, fun st' hs hb => ⟨⟨nodes, (hown.give .array).weaken hb⟩, ?_, ?_⟩⟩
    · intro kind p hp
      rw [(Routine.give w).latest (ParserState.struct_ne_array hp)]
      exact h.latest kind p (hs ▸ hp)
    · exact fun p hp => h.live p (hs ▸ hp)
  · simp only [hg, if_false, Bool.false_eq_true] at he
    split at he
    · cases he
      exact .inl ⟨rfl, rfl⟩
    · cases he
      refine .inr ⟨none, rfl, .same rfl, fun st' hs hb => ⟨⟨nodes, hown.weaken hb⟩, ?_, ?_⟩⟩
      · exact fun kind p hp => h.latest kind p (hs ▸ hp)
      · exact fun p hp => h.live p (hs ▸ hp)

theorem replaceArray {lib : Surroundings V} {put : Option Block → δ} (h : w.Keeps q st)
    (fill : δ → ParserState) (as : List Freed) (f : Freed) (cs : List Freed)
    (he : Aiqb.allocArray (arenaEnv lib) w n put (as ++ cs) = (r, w'))
    (hf : st.frees = as ++ f :: cs) (hput : ∀ b, (fill (put b)).frees = as ++ .array b :: cs)
    (hs : ∀ b, (fill (put b)).struct = st.struct) :
    (r = .error (as ++ cs) ∧ w' = w ∧ ((as ++ cs).filterMap Freed.block).Subperm st.blocks) ∨
      ∃ d, r = .ok d ∧ w.Routine w' ∧ w'.Keeps q (fill d) := by
  rcases h.allocArray he with ⟨hr, hw⟩ | ⟨b, hr, hroutine, hkeeps⟩
  · refine .inl ⟨hr, hw, ?_⟩
    rw [ParserState.blocks, hf]
    exact blocks_erase as cs f
  · refine .inr ⟨put b, hr, hroutine, hkeeps _ (hs b) ?_⟩
    rw [ParserState.blocks, ParserState.blocks, hput, hf]
    exact blocks_replace as cs f (.array b)

theorem assignHeader {lib : Surroundings V} {d : ProblemDraft} (h : w.Keeps q (.problem d))
    (he : assignHeader (arenaEnv lib) w i v d = (r, w')) :
    (∃ fs, r = .error fs ∧ w' = w ∧
        (fs.filterMap Freed.block).Subperm (ParserState.problem d).blocks) ∨
      ∃ d', r = .ok d' ∧ w.Routine w' ∧ w'.Keeps q (.problem d') := by
  have hsame {d' : ProblemDraft}
      (hb : (ParserState.problem d').blocks = (ParserState.problem d).blocks)
      (hp : d'.ptr = d.ptr) : w.Keeps q (.problem d') :=
    h.same hb (congrArg (fun p => some (BlockKind.problem, p)) hp)
  unfold Aiqb.assignHeader at he
  split at he
  · cases he
    exact .inr ⟨_, rfl, .same rfl, hsame rfl rfl⟩
  · cases he
    exact .inr ⟨_, rfl, .same rfl, hsame rfl rfl⟩
  · cases he
    exact .inr ⟨_, rfl, .same rfl, hsame rfl rfl⟩
  · cases he
    exact .inr ⟨_, rfl, .same rfl, hsame rfl rfl⟩
  · exact (h.replaceArray .problem [.array d.val.cvData, .array d.val.testData]
      (.array d.val.data) [.array d.val.state, .problem d.ptr] he rfl (fun _ => rfl)
      fun _ => rfl).imp_left fun hl => ⟨_, hl⟩
  · exact (h.replaceArray .problem [] (.array d.val.cvData)
      [.array d.val.testData, .array d.val.data, .array d.val.state, .problem d.ptr] he rfl
      (fun _ => rfl) fun _ => rfl).imp_left fun hl => ⟨_, hl⟩
  · exact (h.replaceArray .problem [.array d.val.cvData] (.array d.val.testData)
      [.array d.val.data, .array d.val.state, .problem d.ptr] he rfl (fun _ => rfl)
      fun _ => rfl).imp_left fun hl => ⟨_, hl⟩
  · exact (h.replaceArray .problem [.array d.val.cvData, .array d.val.testData, .array d.val.data]
      (.array d.val.state) [.problem d.ptr] he rfl (fun _ => rfl) fun _ => rfl).imp_left
      fun hl => ⟨_, hl⟩
  · cases he
    exact .inr ⟨_, rfl, .same rfl, hsame rfl rfl⟩

theorem assignAnswer {lib : Surroundings V} {d : AnswerDraft} (h : w.Keeps q (.answer d))
    (he : assignAnswer (arenaEnv lib) w i v d = some (r, w')) :
    (∃ reply fs, r = .error (reply, fs) ∧ w' = w ∧
        (fs.filterMap Freed.block).Subperm (ParserState.answer d).blocks) ∨
      ∃ d', r = .ok d' ∧ w.Routine w' ∧ w'.Keeps q (.answer d') := by
  have hleft := blocks_erase [] [.answer d.ptr] (.array d.val.data)
  unfold Aiqb.assignAnswer at he
  split at he
  · obtain ⟨problem, _, he⟩ := Option.map_eq_some_iff.mp he
    cases problem with
    | none =>
      cases he
      exact .inl ⟨_, _, rfl, rfl, hleft⟩
    | some p =>
      cases he
      exact .inr ⟨_, rfl, .same rfl, h.same rfl rfl⟩
  · cases he
    exact .inr ⟨_, rfl, .same rfl, h.same rfl rfl⟩
  · cases ha : Aiqb.allocArray (arenaEnv lib) w (d.val.sizeX + v)
        (fun b => (d.assign .sizeY { d.val with sizeY := v, data := b }).renew AnswerSlot.isData)
        [.answer d.ptr] with
    | mk r₁ w₁ =>
      rw [ha] at he
      cases he
      rcases h.replaceArray .answer [] (.array d.val.data) [.answer d.ptr] ha rfl (fun _ => rfl)
        fun _ => rfl with ⟨rfl, hw, hfs⟩ | ⟨d', rfl, hw, hkeeps⟩
      · exact .inl ⟨_, _, rfl, hw, hfs⟩
      · exact .inr ⟨d', rfl, hw, hkeeps⟩
  · cases he
    exact .inr ⟨_, rfl, .same rfl, h.same rfl rfl⟩

theorem storeElement {a : Option Block} {put : Block → ProblemT} {d d' : ProblemDraft}
    (h : w.Keeps q (.problem d)) (hs : Aiqb.storeElement a put slot i v d = some d')
    (as cs : List Freed) (hd : (ParserState.problem d).frees = as ++ .array a :: cs)
    (hput : ∀ b, (ParserState.problem (d.assign slot (put b))).frees =
      as ++ .array (some b) :: cs) : w.Keeps q (.problem d') := by
  obtain ⟨b, b', rfl, hstore, rfl⟩ := storeElement_spec hs
  have hblocks : (ParserState.problem (d.assign slot (put b'))).blocks =
      (ParserState.problem d).blocks := by
    rw [ParserState.blocks, ParserState.blocks, hd, hput, List.filterMap_append,
      List.filterMap_append, List.filterMap_cons, List.filterMap_cons]
    simp only [Freed.block, Option.map_some, Block.store_addr hstore]
  exact h.same hblocks rfl

theorem storeIndex {d d' : ProblemDraft} (h : w.Keeps q (.problem d))
    (hs : storeIndex i v d = some d') : w.Keeps q (.problem d') := by
  apply storeIndex_rule (P := fun d => w.Keeps q (.problem d)) h hs
  · exact fun _ d _ hd hs => hd.storeElement hs []
      [.array d.val.testData, .array d.val.data, .array d.val.state, .problem d.ptr] rfl
      fun _ => rfl
  · exact fun _ d _ hd hs => hd.storeElement hs [.array d.val.cvData]
      [.array d.val.data, .array d.val.state, .problem d.ptr] rfl fun _ => rfl

theorem storePoint {d d' : ProblemDraft} (h : w.Keeps q (.problem d))
    (hs : storePoint i v d = some d') : w.Keeps q (.problem d') := by
  apply storePoint_rule (P := fun d => w.Keeps q (.problem d)) h hs
  · exact fun _ d _ hd hs => hd.storeElement hs [.array d.val.cvData, .array d.val.testData]
      [.array d.val.state, .problem d.ptr] rfl fun _ => rfl
  · exact fun _ d _ hd hs => hd.storeElement hs
      [.array d.val.cvData, .array d.val.testData, .array d.val.data] [.problem d.ptr] rfl
      fun _ => rfl

theorem storeOutput {d d' : AnswerDraft} (h : w.Keeps q (.answer d))
    (hs : Aiqb.storeOutput i v d = some d') : w.Keeps q (.answer d') := by
  unfold Aiqb.storeOutput at hs
  split at hs
  · obtain ⟨b, hb, hs⟩ := Option.bind_eq_some_iff.mp hs
    obtain ⟨b', hstore, hs⟩ := Option.bind_eq_some_iff.mp hs
    cases hs
    have hblocks :
        (ParserState.answer (d.assign (.data (i - 3)) { d.val with data := some b' })).blocks =
          (ParserState.answer d).blocks := by
      simp only [ParserState.blocks, ParserState.frees, AnswerDraft.assign, Freed.block,
        List.filterMap_cons, hb, Option.map_some, Block.store_addr hstore]
    exact h.same hblocks rfl
  · cases hs
    exact h

end Arena.Keeps

end Aiqb
