import Aiqb.DraftTwins
import Aiqb.NamedAnswers

namespace Aiqb
set_option autoImplicit true

section Problems

structure ProblemT.SameShape (p p' : ProblemT) : Prop where
  rows : p'.rows = p.rows
  sizeX : p'.sizeX = p.sizeX
  sizeY : p'.sizeY = p.sizeY
  cvSize : p'.cvSize = p.cvSize
  testSize : p'.testSize = p.testSize
  stateSize : p'.stateSize = p.stateSize
  cvData : p'.cvData.map Block.bytes = p.cvData.map Block.bytes
  testData : p'.testData.map Block.bytes = p.testData.map Block.bytes
  data : p'.data.map Block.bytes = p.data.map Block.bytes
  state : p'.state.map Block.bytes = p.state.map Block.bytes

variable {p p' : ProblemT}

theorem readArray_alike {a a' : Option Block} (h : a'.map Block.bytes = a.map Block.bytes)
    (n : Nat) :
    Option.Rel (fun xs xs' => xs'.length = xs.length) (readArray a n) (readArray a' n) := by
  unfold readArray
  split
  · exact .some rfl
  · cases a with
    | none =>
      rw [Option.map_none, Option.map_eq_none_iff] at h
      rw [h]
      exact .none
    | some b =>
      obtain ⟨b', rfl, hb⟩ := Option.map_eq_some_iff.mp h
      have hlen : b'.length = b.length := by rw [Block.length, Block.length, hb]
      simp only [Option.bind_some, hlen]
      split
      · exact .some (by rw [List.length_map, List.length_map])
      · exact .none

theorem packAtoms_alike (h : p.SameShape p') :
    Option.Rel (fun xs xs' => xs'.length = xs.length) (packAtoms p) (packAtoms p') := by
  have hpoints : p'.points = p.points := by
    rw [ProblemT.points, ProblemT.points, h.rows, h.sizeX, h.sizeY]
  simp only [packAtoms, Option.bind_eq_bind, h.cvSize, h.testSize, h.stateSize, hpoints]
  apply optionRel_bind (readArray_alike h.cvData _)
  intro cv cv' hcv
  apply optionRel_bind (readArray_alike h.testData _)
  intro test test' htest
  apply optionRel_bind (readArray_alike h.data _)
  intro data data' hdata
  apply optionRel_bind (readArray_alike h.state _)
  intro state state' hstate
  apply Option.Rel.some
  simp only [List.length_append, hcv, htest, hdata, hstate]

inductive PackResult.Alike : PackResult → PackResult → Prop
  | refused : Alike .refused .refused
  | written (bytes bytes' : List UInt8) (length : UInt64) :
    Alike (.written bytes length) (.written bytes' length)

theorem problemPack_alike (h : p.SameShape p') (env env' : PackEnv) (m m' : Option FileHeader) :
    Option.Rel PackResult.Alike (problemPack env p m) (problemPack env' p' m') := by
  have hdata : p'.data = none ↔ p.data = none := by
    rw [← Option.map_eq_none_iff (f := Block.bytes), h.data, Option.map_eq_none_iff]
  have hatoms := packAtoms_alike h
  simp only [problemPack, h.rows, h.sizeX, hdata]
  split
  · exact .some .refused
  · generalize packAtoms p = atoms, packAtoms p' = atoms' at hatoms
    cases hatoms with
    | none => exact .none
    | some hlen =>
      simp only [Option.map_some, hlen]
      exact .some (.written _ _ _)

theorem create_alike (t : Tree) (files files' : Files) (d : Dir) (path : CString)
    (bytes bytes' : List UInt8) :
    Option.Rel (fun _ _ => True) (t.create files d path bytes) (t.create files' d path bytes') := by
  unfold Tree.create
  cases t.place d path with
  | none => exact .none
  | some place =>
    dsimp only [Option.bind_some]
    split
    · exact .none
    · exact .some trivial

end Problems

section Worlds

structure ProblemStore.Alike (s s' : ProblemStore) : Prop where
  side : s'.side = s.side
  cwd : s'.cwd = s.cwd

theorem registerProblem_alike {s s' : ProblemStore} (t : Tree) (r r' : Registration)
    (h : s.Alike s') (hproblem : r.problem.SameShape r'.problem) (htime : r'.time = r.time)
    (hgranted : r'.granted = r.granted) :
    Option.Rel (fun x x' => x.1.Alike x'.1 ∧ x'.2 = x.2) (registerProblem t s r)
      (registerProblem t s' r') := by
  unfold registerProblem
  rw [h.side, h.cwd, htime, hgranted]
  cases t.dir s.cwd s.side.databaseDir with
  | none => exact .some ⟨⟨rfl, rfl⟩, rfl⟩
  | some d =>
    dsimp only
    split
    · exact .some ⟨⟨rfl, rfl⟩, rfl⟩
    · let m := (registeredAtom s.side.databaseDir s.side.autoIncrement r.time).header
      have hpack := problemPack_alike hproblem r.pack r'.pack (some m) (some m)
      generalize problemPack r.pack r.problem (some m) = x,
        problemPack r'.pack r'.problem (some m) = x' at hpack
      cases hpack with
      | none => exact .none
      | some hwritten =>
        cases hwritten with
        | refused => exact .some ⟨⟨rfl, rfl⟩, rfl⟩
        | written bytes bytes' length =>
          have hcreate := create_alike t s.files s'.files d (fileName s.side.autoIncrement)
            bytes bytes'
          dsimp only
          generalize t.create s.files d (fileName s.side.autoIncrement) bytes = y,
            t.create s'.files d (fileName s.side.autoIncrement) bytes' = y' at hcreate
          cases hcreate with
          | none => exact .some ⟨⟨rfl, rfl⟩, rfl⟩
          | some =>
            dsimp only
            split
            · exact .some ⟨⟨rfl, rfl⟩, rfl⟩
            · exact .some ⟨⟨rfl, rfl⟩, rfl⟩

theorem aiqbdRegisterProblem_alike {w w' : Daemon} {lib lib' : Library} {p p' : ProblemT} (t : Tree)
    (hlib : lib.Alike lib') (h : w.store.Alike w'.store) (hp : p.SameShape p') :
    Option.Rel (fun x x' => x'.1 = x.1 ∧ x.2.store.Alike x'.2.store ∧
        x.2.answers = w.answers ∧ x'.2.answers = w'.answers)
      (aiqbdRegisterProblem t lib w p) (aiqbdRegisterProblem t lib' w' p') := by
  simp only [aiqbdRegisterProblem, Option.bind_eq_bind]
  apply optionRel_bind (registerProblem_alike t ⟨p, lib.time, lib.granted, lib.pack⟩
    ⟨p', lib'.time, lib'.granted, lib'.pack⟩ h hp hlib.time hlib.granted)
  rintro ⟨store, id⟩ ⟨store', id'⟩ ⟨hstore, hid⟩
  obtain rfl : id' = id := hid
  cases id' with
  | none => exact .some ⟨rfl, hstore, rfl, rfl⟩
  | some id =>
    have hside : store'.side = store.side := hstore.side
    simp only [ProblemStore.onSide, hside, h.side]
    cases problemStep store.side (.insert w.store.side.heap.size) with
    | none => exact .none
    | some side => exact .some ⟨rfl, ⟨rfl, hstore.cwd⟩, rfl, rfl⟩

/-- Two answers that a client cannot tell apart. -/
structure AnswerT.Alike (a a' : AnswerT) : Prop where
  id : a'.id = a.id
  status : a'.status = a.status
  solved : a.status = statusSolved → a' = a

theorem AnswerT.Alike.refl (a : AnswerT) : a.Alike a := ⟨rfl, rfl, fun _ => rfl⟩

theorem AnswerT.Alike.reply {a a' : AnswerT} (h : a.Alike a') :
    Reply.ofAnswer (some a') = Reply.ofAnswer (some a) := by
  rw [Reply.ofAnswer, Reply.ofAnswer, h.status]
  split
  · next hs => rw [h.solved hs]
  · rfl

structure AnswerSide.Alike (s s' : AnswerSide) (xs : List Ptr) : Prop where
  left : Ring s.heap s.answers xs
  right : Ring s'.heap s'.answers xs
  size : s'.heap.size = s.heap.size
  nodes : ∀ p ∈ xs, Option.Rel AnswerT.Alike (s.heap.valOf p) (s'.heap.valOf p)

variable {s s' : AnswerSide} {xs : List Ptr}

theorem AnswerSide.Alike.node_ids (h : s.Alike s' xs) (hp : p ∈ xs) :
    (s'.heap.valOf p).map AnswerT.id = (s.heap.valOf p).map AnswerT.id := by
  have hnode := h.nodes p hp
  generalize s.heap.valOf p = o, s'.heap.valOf p = o' at hnode
  cases hnode with
  | none => rfl
  | some ha => exact congrArg some ha.id

theorem AnswerSide.Alike.ids (h : s.Alike s' xs) :
    idsOf s'.heap.valOf xs = idsOf s.heap.valOf xs := by
  rw [idsOf_eq, idsOf_eq]
  exact List.filterMap_congr fun p hp => h.node_ids hp

theorem AnswerSide.Alike.lookup (h : s.Alike s' xs) (id : UInt64) :
    lookupId s'.heap.valOf xs id = lookupId s.heap.valOf xs id :=
  lookupId_congr (fun _ hp => h.node_ids hp) id

theorem AnswerSide.Alike.reply (h : s.Alike s' xs) (id : UInt64) :
    Reply.ofAnswer ((lookupId s'.heap.valOf xs id).bind s'.heap.valOf) =
      Reply.ofAnswer ((lookupId s.heap.valOf xs id).bind s.heap.valOf) := by
  rw [h.lookup]
  cases hl : lookupId s.heap.valOf xs id with
  | none => rfl
  | some p =>
    have hnode := h.nodes p (lookupId_mem hl)
    rw [Option.bind_some, Option.bind_some]
    generalize s.heap.valOf p = o, s'.heap.valOf p = o' at hnode
    cases hnode with
    | none => rfl
    | some ha => exact ha.reply

theorem AnswerSide.Alike.register {a a' : AnswerT} (h : s.Alike s' xs) (hid : a'.id = a.id) :
    ∃ u u' id, aiqbdRegisterAnswer { s with heap := s.heap.alloc a } s.heap.size = some (u, id) ∧
      aiqbdRegisterAnswer { s' with heap := s'.heap.alloc a' } s'.heap.size = some (u', id) ∧
      u.Alike u' (xs ++ [s.heap.size]) := by
  have hfresh : s.heap.size ∉ xs := fun hm => s.heap.size_not_live (h.left.live hm)
  have hval : (s.heap.alloc a).valOf s.heap.size = some a := by
    rw [Heap.alloc_valOf, Function.update_self]
  have hval' : (s'.heap.alloc a').valOf s'.heap.size = some a' := by
    rw [Heap.alloc_valOf, Function.update_self]
  obtain ⟨h₁, q₁, he₁, hr₁, hs₁, hv₁, _⟩ := aiqbdRegisterAnswer_spec
    (s := { s with heap := s.heap.alloc a }) (h.left.alloc a) hfresh hval
  obtain ⟨h₂, q₂, he₂, hr₂, hs₂, hv₂, _⟩ := aiqbdRegisterAnswer_spec
    (s := { s' with heap := s'.heap.alloc a' }) (h.right.alloc a') (h.size ▸ hfresh) hval'
  have hids : idsOf (s'.heap.alloc a').valOf xs = idsOf (s.heap.alloc a).valOf xs := by
    rw [Heap.alloc_valOf, Heap.alloc_valOf, h.size, idsOf_update hfresh, idsOf_update hfresh, h.ids]
  rw [hids, hid] at he₂ hv₂
  rw [h.size] at hr₂
  refine ⟨_, _, _, he₁, he₂, hr₁, hr₂, ?_, ?_⟩
  · rw [hs₁, hs₂]
    exact congrArg (· + 1) h.size
  · intro p hp
    rw [hv₁, hv₂, Heap.alloc_valOf, Heap.alloc_valOf, h.size, Function.update_idem,
      Function.update_idem]
    by_cases he : p = s.heap.size
    · subst he
      rw [Function.update_self, Function.update_self]
      exact .some ⟨rfl, rfl, fun hs => by cases hs⟩
    · rw [Function.update_of_ne he, Function.update_of_ne he]
      apply h.nodes p
      exact (List.mem_append.mp hp).resolve_right fun hm => he (List.mem_singleton.mp hm)

end Worlds

end Aiqb
