import Aiqb.AnswerDaemon
import Aiqb.BlockLedger
import Aiqb.Parser

namespace Aiqb
set_option autoImplicit true

inductive BlockKind where
  | array | problem | answer
  deriving DecidableEq

/-- The answers of the daemon, and what happened to the blocks of memory. The names of the blocks
are the addresses of the heap; `rest` is what the handlers work on besides. -/
structure Arena (V : Type) where
  side : AnswerSide
  blocks : List (BlockEvent BlockKind Ptr)
  rest : V

/-- What is not decided by the memory: whether an array is granted, and what new memory contains,
and the handlers that do not touch the answers. -/
structure Surroundings (V : Type) where
  atof : CString → UInt64
  grants : UInt64 → Bool
  cells : Nat → UInt64
  problem : ProblemT
  answer : AnswerT
  findDb : V → UInt64 → Option Ptr
  registerProblem : Option (V → ProblemT → UInt64 × V)
  listProblems : Option (V → V)
  listAnswers : Option (V → V)

def Freed.block : Freed → Option Ptr
  | .array a => a.map Block.addr
  | .problem p => some p
  | .answer p => some p

namespace Arena

variable {V : Type}

def record (w : Arena V) (heap : Heap AnswerT) (e : BlockEvent BlockKind Ptr) : Arena V :=
  { w with side := { w.side with heap := heap }, blocks := w.blocks ++ [e] }

def give (w : Arena V) (kind : BlockKind) : Arena V :=
  w.record w.side.heap.reserve (.given kind w.side.heap.size)

def giveAnswer (w : Arena V) (answer : AnswerT) : Arena V :=
  w.record (w.side.heap.alloc answer) (.given .answer w.side.heap.size)

def free (w : Arena V) (f : Freed) : Arena V :=
  match f with
  | .answer p => w.record ((w.side.heap.free p).getD w.side.heap) (.freed f.block)
  | _ => w.record w.side.heap (.freed f.block)

def freeAnswer (w : Arena V) (answer : Ptr) : Option (Arena V) :=
  (w.side.heap.valOf answer).map fun a => (w.free (.array a.data)).free (.answer answer)

def extractQueue (w : Arena V) (id : UInt64) : Option (Option Ptr × Arena V) := do
  let (h, answers, answer) ← Aiqb.extractQueue w.side.heap w.side.answers id
  let w := { w with side := { w.side with heap := h, answers := answers } }
  match answer with
  | none => some (none, w)
  | some answer => some (some answer, w.record h (.taken answer))

def registerAnswer (w : Arena V) (answer : Ptr) (a : AnswerT) : Option (UInt64 × Arena V) := do
  let h ← w.side.heap.setVal answer a
  let (side, id) ← aiqbdRegisterAnswer { w.side with heap := h } answer
  some (id, { w with side := side, blocks := w.blocks ++ [.handed .answer answer] })

def registerProblem (w : Arena V) (problem : Ptr) (p : ProblemT)
    (register : V → ProblemT → UInt64 × V) : UInt64 × Arena V :=
  let (id, rest) := register w.rest p
  (id, { w with rest := rest, blocks := w.blocks ++ [.handed .problem problem] })

end Arena

/-- The parser of a client that is alone with the daemon. -/
def arenaEnv {V : Type} (lib : Surroundings V) : Env (Arena V) where
  atof := lib.atof
  malloc w n :=
    if lib.grants n then (some ⟨w.side.heap.size, n, lib.cells⟩, w.give .array) else (none, w)
  mallocProblem w := (some (w.side.heap.size, lib.problem), w.give .problem)
  mallocAnswer w := (some (w.side.heap.size, lib.answer), w.giveAnswer lib.answer)
  free := Arena.free
  findDb w id := some (lib.findDb w.rest id)
  findQueue w id := do
    match ← Aiqb.findQueue w.side.heap w.side.answers id with
    | none => some none
    | some answer => (w.side.heap.valOf answer).map some
  extractQueue := Arena.extractQueue
  freeAnswer := Arena.freeAnswer
  handler := some
    { registerProblem := lib.registerProblem.map fun register w problem p =>
        some (w.registerProblem problem p register)
      registerAnswer := some Arena.registerAnswer
      listProblems := lib.listProblems.map fun list w => { w with rest := list w.rest }
      listAnswers := lib.listAnswers.map fun list w => { w with rest := list w.rest } }

def arraysOf (val : Ptr → Option AnswerT) (nodes : List Ptr) : List Ptr :=
  nodes.flatMap fun p => (((val p).bind AnswerT.data).map Block.addr).toList

/-- What the parser has: the blocks `own`. The queue has `nodes`, with their arrays. -/
structure Arena.Owns (q : Stock Ptr) (w : Arena V) (own nodes : List Ptr) : Prop where
  ring : Ring w.side.heap w.side.answers nodes
  books : q.Books w.blocks own (arraysOf w.side.heap.valOf nodes) nodes
  below : ∀ b, q.Given w.blocks b → b < w.side.heap.size

theorem arraysOf_congr {val val' : Ptr → Option AnswerT} (hv : ∀ p ∈ nodes, val' p = val p) :
    arraysOf val' nodes = arraysOf val nodes := by
  apply List.flatMap_congr
  intro p hp
  rw [hv p hp]

theorem arraysOf_append (val : Ptr → Option AnswerT) (xs ys : List Ptr) :
    arraysOf val (xs ++ ys) = arraysOf val xs ++ arraysOf val ys := List.flatMap_append

/-- A node that is not in the ring may be gone. -/
theorem Ring.free_getD {h : Heap α} (hr : Ring h head nodes) (hp : p ∉ nodes) :
    Ring ((h.free p).getD h) head nodes ∧ ((h.free p).getD h).size = h.size ∧
      ∀ r ∈ nodes, ((h.free p).getD h).valOf r = h.valOf r := by
  by_cases hl : h.Live p
  · obtain ⟨h', he, hs, _, _, hv⟩ := Heap.free_spec hl
    rw [he, Option.getD_some]
    refine ⟨hr.free he hp, hs, fun r hm => ?_⟩
    have hne : r ≠ p := fun he => hp (he ▸ hm)
    rw [hv, Function.update_of_ne hne]
  · rw [Heap.free, Heap.write_dead _ hl]
    exact ⟨hr, rfl, fun _ _ => rfl⟩

namespace Arena.Owns

variable {V : Type} {q : Stock Ptr} {w w' : Arena V} {own own' nodes : List Ptr} {h : Heap AnswerT}

theorem weaken (hw : w.Owns q own nodes) (hs : own'.Subperm own) : w.Owns q own' nodes :=
  ⟨hw.ring, hw.books.shrink hs (.refl _) (.refl _), hw.below⟩

theorem record_given {kind : BlockKind} (hw : w.Owns q own nodes)
    (hring : Ring h w.side.answers nodes) (hs : h.size = w.side.heap.size + 1)
    (hv : ∀ p ∈ nodes, h.valOf p = w.side.heap.valOf p) :
    (w.record h (.given kind w.side.heap.size)).Owns q (w.side.heap.size :: own) nodes where
  ring := hring
  books := by
    have hnew : ¬ q.Given w.blocks w.side.heap.size := fun hg => Nat.lt_irrefl _ (hw.below _ hg)
    have hgive := hw.books.give hnew kind
    rw [← arraysOf_congr hv] at hgive
    exact hgive
  below := by
    intro b hb
    have hsize : (w.record h (.given kind w.side.heap.size)).side.heap.size =
        w.side.heap.size + 1 := hs
    rw [hsize]
    rcases hb with hb | hb | ⟨k, hb⟩
    · exact Nat.lt_succ_of_lt (hw.below b (.inl hb))
    · exact Nat.lt_succ_of_lt (hw.below b (.inr (.inl hb)))
    · rcases List.mem_append.mp hb with hb | hb
      · exact Nat.lt_succ_of_lt (hw.below b (.inr (.inr ⟨k, hb⟩)))
      · cases List.mem_singleton.mp hb
        exact Nat.lt_succ_self _

theorem give (hw : w.Owns q own nodes) (kind : BlockKind) :
    (w.give kind).Owns q (w.side.heap.size :: own) nodes :=
  hw.record_given (hw.ring.of_same_links rfl rfl) rfl fun _ _ => rfl

theorem giveAnswer (hw : w.Owns q own nodes) (answer : AnswerT) :
    (w.giveAnswer answer).Owns q (w.side.heap.size :: own) nodes := by
  apply hw.record_given (hw.ring.alloc answer) rfl
  intro p hp
  rw [Heap.alloc_valOf, Function.update_of_ne (Nat.ne_of_lt (hw.ring.live hp).lt_size)]

theorem free {f : Freed} (hw : w.Owns q (f.block.toList ++ own) nodes) :
    (w.free f).Owns q own nodes := by
  have hsame : (w.record w.side.heap (.freed f.block)).Owns q own nodes :=
    ⟨hw.ring, hw.books.free_option, fun b hb => hw.below b (hb.of_snoc fun _ he => by cases he)⟩
  cases f with
  | array a => exact hsame
  | problem p => exact hsame
  | answer p =>
    have hp : p ∉ nodes := by
      intro hp
      have hnd := (List.nodup_cons.mp hw.books.nodup).1
      exact hnd (List.mem_append_right _ (List.mem_append_right _ hp))
    obtain ⟨hring, hsize, hval⟩ := hw.ring.free_getD hp
    refine ⟨hring, ?_, ?_⟩
    · have hbooks := hw.books.free_option
      rw [← arraysOf_congr hval] at hbooks
      exact hbooks
    · exact fun b hb => lt_of_lt_of_eq (hw.below b (hb.of_snoc fun _ he => by cases he)) hsize.symm

theorem registerProblem (hw : w.Owns q (ptr :: own) nodes)
    (hl : latest .problem w.blocks = some ptr) (p : ProblemT)
    (register : V → ProblemT → UInt64 × V) :
    (w.registerProblem ptr p register).2.Owns q [] nodes :=
  ⟨hw.ring, hw.books.hand_away hl, fun b hb => hw.below b (hb.of_snoc fun _ he => by cases he)⟩

theorem registerAnswer {a : AnswerT}
    (hw : w.Owns q (ptr :: (a.data.map Block.addr).toList) nodes)
    (hl : latest .answer w.blocks = some ptr) (hlive : w.side.heap.Live ptr) :
    ∃ k w', w.registerAnswer ptr a = some (k, w') ∧ w'.Owns q [] (nodes ++ [ptr]) ∧
      w'.blocks = w.blocks ++ [.handed .answer ptr] := by
  have hp : ptr ∉ nodes := by
    intro hp
    have hnd := (List.nodup_cons.mp hw.books.nodup).1
    exact hnd (List.mem_append_right _ (List.mem_append_right _ hp))
  obtain ⟨h₁, e₁, s₁, v₁, n₁, p₁⟩ := Heap.setVal_spec hlive a
  have hval : h₁.valOf ptr = some a := by rw [v₁, Function.update_self]
  obtain ⟨h₂, queue, e₂, hring, s₂, v₂, _⟩ := aiqbdRegisterAnswer_spec
    (s := { w.side with heap := h₁ }) (hw.ring.of_same_links n₁ p₁) hp hval
  refine ⟨assignedId (idsOf h₁.valOf nodes) a.id, { w with
    side := { w.side with heap := h₂, answers := queue }
    blocks := w.blocks ++ [.handed .answer ptr] }, ?_, ⟨hring, ?_, ?_⟩, rfl⟩
  · simp only [Arena.registerAnswer, e₁, e₂, Option.bind_eq_bind, Option.bind_some]
  · have hbooks := hw.books.hand hl
    have hnodes : arraysOf h₂.valOf nodes = arraysOf w.side.heap.valOf nodes := by
      apply arraysOf_congr
      intro r hr
      have hne : r ≠ ptr := fun he => hp (he ▸ hr)
      rw [v₂, v₁, Function.update_of_ne hne, Function.update_of_ne hne]
    have hone : arraysOf h₂.valOf [ptr] = (a.data.map Block.addr).toList := by
      rw [arraysOf, List.flatMap_singleton, v₂, Function.update_self]
      rfl
    rw [← hnodes, ← hone, ← arraysOf_append] at hbooks
    exact hbooks
  · intro b hb
    have hsize : h₂.size = w.side.heap.size := s₂.trans s₁
    exact lt_of_lt_of_eq (hw.below b (hb.of_snoc fun _ he => by cases he)) hsize.symm

theorem extractQueue_none {k : UInt64} (hw : w.Owns q own nodes)
    (hx : w.extractQueue k = some (none, w')) : w' = w := by
  simp only [Arena.extractQueue, Option.bind_eq_bind] at hx
  cases hl : lookupId w.side.heap.valOf nodes k with
  | none =>
    rw [Aiqb.extractQueue_none hw.ring hl, Option.bind_some] at hx
    cases hx
    rfl
  | some p =>
    obtain ⟨h', queue, he, _⟩ := extractQueue_some hw.ring hl
    rw [he, Option.bind_some] at hx
    cases hx

theorem deleteAnswer {k : UInt64} {w₁ : Arena V} (hw : w.Owns q own nodes)
    (hx : w.extractQueue k = some (some p, w₁)) (hf : w₁.freeAnswer p = some w') :
    w'.Owns q own (nodes.erase p) := by
  simp only [Arena.extractQueue, Option.bind_eq_bind] at hx
  cases hl : lookupId w.side.heap.valOf nodes k with
  | none =>
    rw [Aiqb.extractQueue_none hw.ring hl, Option.bind_some] at hx
    cases hx
  | some r =>
    obtain ⟨h', queue, he, hring, hsize, hval, _⟩ := extractQueue_some hw.ring hl
    rw [he, Option.bind_some] at hx
    cases hx
    obtain ⟨a, ha, he⟩ := Option.map_eq_some_iff.mp hf
    cases he
    have hv : w.side.heap.valOf p = some a := hval ▸ ha
    have hperm : nodes.Perm (p :: nodes.erase p) := List.perm_cons_erase (lookupId_mem hl)
    have hout : p ∉ nodes.erase p :=
      (List.nodup_cons.mp (hperm.nodup_iff.mp hw.ring.nodup)).1
    have harrays : ((a.data.map Block.addr).toList ++
        arraysOf w.side.heap.valOf (nodes.erase p)).Perm (arraysOf w.side.heap.valOf nodes) := by
      have hflat := hperm.flatMap_right fun p =>
        (((w.side.heap.valOf p).bind AnswerT.data).map Block.addr).toList
      rw [List.flatMap_cons, hv] at hflat
      exact hflat.symm
    obtain ⟨hring', hsize', hval'⟩ := hring.free_getD hout
    refine ⟨hring', ?_, ?_⟩
    · have hbooks := hw.books.destroy harrays.subperm hperm.symm.subperm
      rw [← hval, ← arraysOf_congr hval'] at hbooks
      have happ : w.blocks ++ [.taken p, .freed (a.data.map Block.addr), .freed (some p)] =
          w.blocks ++ [.taken p] ++ [.freed (a.data.map Block.addr)] ++ [.freed (some p)] := by
        rw [List.append_assoc, List.append_assoc]
        rfl
      rw [happ] at hbooks
      exact hbooks
    · intro b hb
      have hg := hb.of_snoc fun _ he => by cases he
      have hg := hg.of_snoc fun _ he => by cases he
      exact lt_of_lt_of_eq (hw.below b (hg.of_snoc fun _ he => by cases he))
        (hsize'.trans hsize).symm

end Arena.Owns

end Aiqb
