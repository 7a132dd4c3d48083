import Aiqb.AnswerDaemon
import Aiqb.Parser
import Aiqb.ProblemStore

namespace Aiqb
set_option autoImplicit true

/-- The daemon: its answers, and its problems with their files. -/
structure Daemon where
  answers : AnswerSide
  store : ProblemStore

/-- What the C library does during a step of a client. -/
structure Library where
  atof : CString → UInt64
  malloc : UInt64 → Option Block
  mallocProblem : Option (Ptr × ProblemT)
  mallocAnswer : Option (Ptr × AnswerT)
  granted : Bool
  time : UInt64
  pack : PackEnv

def aiqbdRegisterProblem (t : Tree) (lib : Library) (w : Daemon) (problem : ProblemT) :
    Option (UInt64 × Daemon) := do
  let (store, id) ← registerProblem t w.store ⟨problem, lib.time, lib.granted, lib.pack⟩
  match id with
  | none => some (-1, { w with store := store })
  | some id =>
    let store ← store.onSide (.insert w.store.side.heap.size)
    some (id, { w with store := store })

def registerParsedAnswer (w : Daemon) (answer : AnswerT) : Option (UInt64 × Daemon) := do
  let (answers, id) ← aiqbdRegisterAnswer
    { w.answers with heap := w.answers.heap.alloc answer } w.answers.heap.size
  some (id, { w with answers := answers })

/-- What the parser of a client calls. What it has not handed over is not in the daemon. -/
def daemonEnv (t : Tree) (lib : Library) : Env Daemon where
  atof := lib.atof
  malloc w n := (lib.malloc n, w)
  mallocProblem w := (lib.mallocProblem, w)
  mallocAnswer w := (lib.mallocAnswer, w)
  free w _ := w
  findDb w id := Aiqb.findDb w.store.side.heap w.store.side.problems (some (.byId id))
  findQueue w id := do
    match ← Aiqb.findQueue w.answers.heap w.answers.answers id with
    | none => some none
    | some answer => (w.answers.heap.valOf answer).map some
  extractQueue w id := do
    let (h, answers, answer) ← Aiqb.extractQueue w.answers.heap w.answers.answers id
    some (answer, { w with answers := { w.answers with heap := h, answers := answers } })
  freeAnswer w answer := do
    let h ← w.answers.heap.free answer
    some { w with answers := { w.answers with heap := h } }
  handler := some
    { registerProblem := some fun w _ problem => aiqbdRegisterProblem t lib w problem
      registerAnswer := some fun w _ answer => registerParsedAnswer w answer
      listProblems := some id
      listAnswers := some id }

/-- The tokens of a client that are replied to, or that concern the stored problems and answers: the
number of a `req:solution` or a `dlt:answer`, the first number of a `reg:answer`, what completes an
answer or a problem, the two lists, and a size whose array is refused. -/
inductive Request where
  | solution (token : CString)
  | delete (token : CString)
  | answerProblem (d : AnswerDraft) (token : CString)
  | registerAnswer (d : AnswerDraft)
  | registerProblem (d : ProblemDraft)
  | listProblems
  | listAnswers
  | refuse

def Parser.client (w : W) (state : ParserState) : Parser W :=
  { Parser.start w 0 with state := state }

def Parser.replies (s : Parser W) : List Reply :=
  s.log.filterMap fun e =>
    match e with
    | .reply r => some r
    | _ => none

def Request.run (t : Tree) (lib : Library) (w : Daemon) : Request → Parser Daemon
  | .solution token => integerToken (daemonEnv t lib) token (.client w .solution)
  | .delete token => integerToken (daemonEnv t lib) token (.client w .deleteAnswer)
  | .answerProblem d token => integerToken (daemonEnv t lib) token (.client w (.answer d))
  | .registerAnswer d => completeAnswer (daemonEnv t lib) d (.client w (.answer d))
  | .registerProblem d => completeProblem (daemonEnv t lib) d (.client w (.problem d))
  | .listProblems =>
    listCommand ((daemonEnv t lib).handler.bind ParserHandle.listProblems) (.client w .idle)
  | .listAnswers =>
    listCommand ((daemonEnv t lib).handler.bind ParserHandle.listAnswers) (.client w .idle)
  | .refuse => (Parser.client w .idle).leave (daemonEnv t lib) .memoryError []

/-- The daemon, the replies it has sent, and the id that was sent for each answer. -/
structure Service where
  daemon : Daemon
  sent : List Reply
  told : List (Ptr × UInt64)

def answerIds (replies : List Reply) : List UInt64 :=
  replies.filterMap fun r =>
    match r with
    | .answerOk id => some id
    | _ => none

def Request.tells (w : Daemon) (replies : List Reply) : Request → List (Ptr × UInt64)
  | .registerAnswer _ => (answerIds replies).map fun id => (w.answers.heap.size, id)
  | _ => []

inductive ServiceEvent where
  | request (lib : Library) (r : Request)
  | dispatchAnswer
  | completeAnswer (answer : Ptr)
  | dispatchProblem
  | completeProblem (problem : Ptr) (now : UInt64) (pad : MetadataPadding)
  | takeSolved (problem : Ptr)
  | giveBack (atom : Option Ptr)

def requestStep (t : Tree) (s : Service) (lib : Library) (r : Request) : Option Service :=
  let q := r.run t lib s.daemon
  match q.status with
  | .fault _ => none
  | _ => some
    { daemon := q.world
      sent := s.sent ++ q.replies
      told := s.told ++ r.tells s.daemon q.replies }

def Service.onAnswers (s : Service) (e : AnswerEvent) : Option Service :=
  (answerStep s.daemon.answers e).map fun answers =>
    { s with daemon := { s.daemon with answers := answers } }

def Service.onStore (t : Tree) (s : Service) (e : StoreEvent) : Option Service :=
  (storeStep t s.daemon.store e).map fun store =>
    { s with daemon := { s.daemon with store := store } }

def serviceStep (t : Tree) (s : Service) : ServiceEvent → Option Service
  | .request lib r => requestStep t s lib r
  | .dispatchAnswer => s.onAnswers .dispatch
  | .completeAnswer answer => s.onAnswers (.complete answer)
  | .dispatchProblem => s.onStore t .dispatch
  | .completeProblem problem now pad => s.onStore t (.complete problem now pad)
  | .takeSolved problem => s.onStore t (.takeSolved problem)
  | .giveBack atom => s.onStore t (.giveBack atom)

/-- The daemon has loaded the problems `xs`, and neither its main loop nor a client has done
anything. -/
structure Service.Starts (s : Service) (xs : List Ptr) : Prop where
  answers : ∃ limit, s.daemon.answers = .start limit
  problems : Ring s.daemon.store.side.heap s.daemon.store.side.problems xs
  problemQueue : s.daemon.store.side.problemQueue = none
  dispatcher : s.daemon.store.side.dispatcher = .idle
  registering : s.daemon.store.side.registering = []
  started : s.daemon.store.side.started = []
  solved : s.daemon.store.side.solved = []
  returning : s.daemon.store.side.returning = []
  stored : s.daemon.store.stored = []
  told : s.told = []

end Aiqb
