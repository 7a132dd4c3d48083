import Aiqb.ArrayStores
import Aiqb.Daemon
import Aiqb.Emitted

namespace Aiqb
set_option autoImplicit true

def ReadResult.char (c : UInt8) : ReadResult → UInt8
  | .byte c => c
  | .error => c

/-- The daemon with the threads of its clients, by connection. A thread has a parser of its own, and
all of them share the daemon. The replies are listed as they were sent, whoever they went to. -/
structure Server (κ : Type) where
  daemon : Daemon
  parsers : κ → Option (Parser Daemon)
  sent : List (κ × Reply)

/-- The atomic steps: a thread starts for a connection, with some value in `c`, reads, or comes to
the end of the stream, and the main loop and the solver threads take theirs. -/
inductive ServerEvent (κ : Type) where
  | accept (i : κ) (char : UInt8)
  | read (i : κ) (lib : Library) (result : ReadResult)
  | hangUp (i : κ)
  | dispatchAnswer
  | completeAnswer (answer : Ptr)
  | dispatchProblem
  | completeProblem (problem : Ptr) (now : UInt64) (pad : MetadataPadding)
  | takeSolved (problem : Ptr)
  | giveBack (atom : Option Ptr)

section Requests

variable {W : Type}

def refusesArray (malloc : UInt64 → Option Block) (n : UInt64) : Bool :=
  n > 0 && (malloc (n * 8)).isNone

def ProblemDraft.arrayLength (d : ProblemDraft) (index : UInt16) (v : UInt64) : Option UInt64 :=
  match index.toNat with
  | 4 => some (d.val.rows * (d.val.sizeX + v))
  | 5 | 6 | 7 => some v
  | _ => none

def AnswerDraft.arrayLength (d : AnswerDraft) (index : UInt16) (v : UInt64) : Option UInt64 :=
  match index.toNat with
  | 2 => some (d.val.sizeX + v)
  | _ => none

def ParserState.integerRequest (malloc : UInt64 → Option Block) (state : ParserState)
    (index : UInt16) (token : CString) : Option Request :=
  match state with
  | .problem d =>
    if (d.arrayLength index (atoul token)).any (refusesArray malloc) then some .refuse else none
  | .answer d =>
    if index = 0 then some (.answerProblem d token)
    else if (d.arrayLength index (atoul token)).any (refusesArray malloc) then some .refuse
    else none
  | .solution => some (.solution token)
  | .deleteAnswer => some (.delete token)
  | .idle => none

def ParserState.floatRequest (state : ParserState) (index : UInt16) (v : UInt64) :
    Option Request :=
  match state with
  | .problem d => (storePoint index.toUInt64 v d).bind fun d =>
    if (index + 1).toUInt64 = d.total then some (.registerProblem d) else none
  | .answer d => (storeOutput index.toUInt64 v d).bind fun d =>
    if (index + 1).toUInt64 = d.total then some (.registerAnswer d) else none
  | _ => none

def ParserState.numberRequest (lib : Library) (flags : TokenFlags) (state : ParserState)
    (index : UInt16) (token : CString) : Option Request :=
  if flags.isInteger then state.integerRequest lib.malloc index token
  else if flags.isFloat then state.floatRequest index (lib.atof token)
  else none

def commandRequest (token : CString) : Option Request :=
  if token = tokenListProblems then some .listProblems
  else if token = tokenListAnswers then some .listAnswers
  else none

def Request.closes (w : Daemon) : Request → Bool
  | .answerProblem _ token =>
    findDb w.store.side.heap w.store.side.problems (some (.byId (atoul token))) = some none
  | .refuse => true
  | _ => false

/-- What a token asks for. Where its counters have wrapped, it can be a number and a command at
once. -/
def ParserState.requests (lib : Library) (w : Daemon) (flags : TokenFlags) (state : ParserState)
    (index : UInt16) (token : CString) : List Request :=
  let number := state.numberRequest lib flags index token
  let command :=
    if flags.isCommand ∧ ¬ number.any (Request.closes w) then commandRequest token else none
  number.toList ++ command.toList

def Parser.requests (lib : Library) (w : Daemon) (s : Parser W) (c : UInt8) : List Request :=
  if s.EndsToken c ∧ s.token.length < 128 then
    s.state.requests lib w (s.tokenFlags.count c) s.index s.token
  else []

variable {env : Env W} {w : W} {v : UInt64}

theorem allocArray_isOk {put : Option Block → δ} (n : UInt64) :
    (allocArray env w n put fs).1.isOk = !refusesArray (fun n => (env.malloc w n).1) n := by
  unfold allocArray refusesArray
  dsimp only
  split
  · next h =>
    rw [decide_eq_true h.1, h.2]
    rfl
  · next h =>
    rw [← Bool.decide_coe (env.malloc w (n * 8)).1.isNone, ← Bool.decide_and, decide_eq_false h]
    rfl

theorem assignHeader_isOk (index : UInt16) (d : ProblemDraft) :
    (assignHeader env w index v d).1.isOk =
      !(d.arrayLength index v).any (refusesArray fun n => (env.malloc w n).1) := by
  unfold assignHeader ProblemDraft.arrayLength
  generalize index.toNat = n
  match n with
  | 0 | 1 | 2 | 3 => rfl
  | 4 | 5 | 6 | 7 => exact allocArray_isOk _
  | n + 8 => rfl

theorem assignAnswer_isOk (env : Env W) (w : W) (v : UInt64) {index : UInt16} (hi : index ≠ 0)
    (d : AnswerDraft) :
    ∃ (x : Except (List Freed) AnswerDraft) (w' : W),
      assignAnswer env w index v d = some (x.mapError (Reply.memoryError, ·), w') ∧
      x.isOk = !(d.arrayLength index v).any (refusesArray fun n => (env.malloc w n).1) := by
  have hn : index.toNat ≠ 0 := fun h0 => hi (UInt16.toNat_inj.mp h0)
  unfold assignAnswer AnswerDraft.arrayLength
  generalize index.toNat = n at hn
  match n with
  | 0 => exact absurd rfl hn
  | 1 => exact ⟨.ok _, w, rfl, rfl⟩
  | 2 =>
    let x := allocArray env w (d.val.sizeX + v)
      (fun b => (d.assign .sizeY { d.val with sizeY := v, data := b }).renew AnswerSlot.isData)
      [.answer d.ptr]
    exact ⟨x.1, x.2, rfl, allocArray_isOk _⟩
  | n + 3 => exact ⟨.ok _, w, rfl, rfl⟩

end Requests

namespace Server

variable {κ : Type} [DecidableEq κ]

/-- The parser of a thread works on the daemon as the other threads have left it. -/
def enters (s : Server κ) (p : Parser Daemon) : Parser Daemon := { p with world := s.daemon }

def leaves (s : Server κ) (i : κ) (p q : Parser Daemon) : Option (Server κ) :=
  match q.status with
  | .fault _ => none
  | status => some
    { daemon := q.world
      parsers := Function.update s.parsers i (if status = .reading then some q else none)
      sent := s.sent ++ (q.replies.drop p.replies.length).map (i, ·) }

def onService (t : Tree) (s : Server κ) (e : ServiceEvent) : Option (Server κ) :=
  (serviceStep t ⟨s.daemon, [], []⟩ e).map fun v => { s with daemon := v.daemon }

end Server

/-- The daemon as its clients see it: a request takes one step, and only the client it comes from is
told about it. -/
structure Desk (κ : Type) where
  daemon : Daemon
  told : List (κ × Reply)

def Server.desk (s : Server κ) : Desk κ := ⟨s.daemon, s.sent⟩

def deskStep (t : Tree) (s : Desk κ) (e : Option κ × ServiceEvent) : Option (Desk κ) :=
  (serviceStep t ⟨s.daemon, [], []⟩ e.2).map fun v =>
    { daemon := v.daemon
      told := s.told ++ e.1.toList.flatMap fun i => v.sent.map (i, ·) }

section Steps

variable {κ : Type} [DecidableEq κ]

def serverStep (t : Tree) (s : Server κ) : ServerEvent κ → Option (Server κ)
  | .accept i char =>
    if (s.parsers i).isNone then
      some { s with parsers := Function.update s.parsers i (some (.start s.daemon char)) }
    else none
  | .read i lib result => (s.parsers i).bind fun p =>
    s.leaves i p (parserChar (daemonEnv t lib) (s.enters p) (result.char p.char))
  | .hangUp i =>
    if (s.parsers i).isSome then some { s with parsers := Function.update s.parsers i none }
    else none
  | .dispatchAnswer => s.onService t .dispatchAnswer
  | .completeAnswer answer => s.onService t (.completeAnswer answer)
  | .dispatchProblem => s.onService t .dispatchProblem
  | .completeProblem problem now pad => s.onService t (.completeProblem problem now pad)
  | .takeSolved problem => s.onService t (.takeSolved problem)
  | .giveBack atom => s.onService t (.giveBack atom)

def ServerEvent.asked (s : Server κ) : ServerEvent κ → List (Option κ × ServiceEvent)
  | .accept _ _ => []
  | .read i lib result => (s.parsers i).elim [] fun p =>
    (p.requests lib s.daemon (result.char p.char)).map fun r => (some i, .request lib r)
  | .hangUp _ => []
  | .dispatchAnswer => [(none, .dispatchAnswer)]
  | .completeAnswer answer => [(none, .completeAnswer answer)]
  | .dispatchProblem => [(none, .dispatchProblem)]
  | .completeProblem problem now pad => [(none, .completeProblem problem now pad)]
  | .takeSolved problem => [(none, .takeSolved problem)]
  | .giveBack atom => [(none, .giveBack atom)]

end Steps

def Server.start (κ : Type) (w : Daemon) : Server κ := ⟨w, fun _ => none, []⟩

def Desk.start (κ : Type) (w : Daemon) : Desk κ := ⟨w, []⟩

end Aiqb
