import Aiqb.Answer
import Aiqb.Problem

namespace Aiqb
set_option autoImplicit true

def isDigit (c : UInt8) : Bool := 48 ≤ c && c ≤ 57

def isSpace (c : UInt8) : Bool := c = 32 || (9 ≤ c && c ≤ 13)

def decimal (digits : CString) : Nat :=
  digits.foldl (fun n c => 10 * n + (c.toNat - 48)) 0

/-- Decimal `strtol`, which stops at the bounds of a long. -/
def strtol (s : CString) : Int :=
  match s.dropWhile isSpace with
  | 45 :: s => max (-(decimal (s.takeWhile isDigit) : Int)) (-2 ^ 63)
  | 43 :: s => min (decimal (s.takeWhile isDigit) : Int) (2 ^ 63 - 1)
  | s => min (decimal (s.takeWhile isDigit) : Int) (2 ^ 63 - 1)

/-- The C library cuts the long down to an int. -/
def atoi (s : CString) : Int := (strtol s).bmod (2 ^ 32)

/-- `(unsigned long) atoi (token)` -/
def atoul (s : CString) : UInt64 := UInt64.ofInt (atoi s)

def tokenRegisterProblem := cstr "reg:problem"
def tokenRegisterAnswer := cstr "reg:answer"
def tokenRequestSolution := cstr "req:solution"
def tokenRequestState := cstr "req:state"
def tokenRequestClose := cstr "req:close"
def tokenListProblems := cstr "lst:problems"
def tokenListAnswers := cstr "lst:answers"
def tokenDeleteAnswer := cstr "dlt:answer"

/-- The parts of a problem that a token can assign. -/
inductive ProblemSlot where
  | type | optm | rows | sizeX | sizeY | cvSize | testSize | stateSize
  | cvData (i : UInt64)
  | testData (i : UInt64)
  | data (i : UInt64)
  | state (i : UInt64)
  deriving DecidableEq

inductive AnswerSlot where
  | problem | sizeX | sizeY
  | data (i : UInt64)
  deriving DecidableEq

/-- The structure `problem` points at, with a note of what was assigned since `reg:problem`. -/
structure ProblemDraft where
  ptr : Ptr
  val : ProblemT
  assigned : ProblemSlot → Bool

structure AnswerDraft where
  ptr : Ptr
  val : AnswerT
  assigned : AnswerSlot → Bool

namespace ProblemDraft

def assign (d : ProblemDraft) (slot : ProblemSlot) (val : ProblemT) : ProblemDraft :=
  { d with val := val, assigned := Function.update d.assigned slot true }

def renew (d : ProblemDraft) (fresh : ProblemSlot → Bool) : ProblemDraft :=
  { d with assigned := fun slot => !fresh slot && d.assigned slot }

def total (d : ProblemDraft) : UInt64 :=
  8 + d.val.cvSize + d.val.testSize + d.val.points + d.val.stateSize

end ProblemDraft

namespace AnswerDraft

def assign (d : AnswerDraft) (slot : AnswerSlot) (val : AnswerT) : AnswerDraft :=
  { d with val := val, assigned := Function.update d.assigned slot true }

def renew (d : AnswerDraft) (fresh : AnswerSlot → Bool) : AnswerDraft :=
  { d with assigned := fun slot => !fresh slot && d.assigned slot }

def total (d : AnswerDraft) : UInt64 := 3 + d.val.sizeX + d.val.sizeY

end AnswerDraft

def ProblemSlot.isCvData : ProblemSlot → Bool
  | .cvData _ => true
  | _ => false

def ProblemSlot.isTestData : ProblemSlot → Bool
  | .testData _ => true
  | _ => false

def ProblemSlot.isData : ProblemSlot → Bool
  | .data _ => true
  | _ => false

def ProblemSlot.isState : ProblemSlot → Bool
  | .state _ => true
  | _ => false

def AnswerSlot.isData : AnswerSlot → Bool
  | .data _ => true
  | _ => false

inductive Freed where
  | array (a : Option Block)
  | problem (p : Ptr)
  | answer (p : Ptr)

inductive Reply where
  | idle
  | unknownError
  | memoryError
  | problemOk (id : UInt64)
  | answerOk (id : UInt64)
  | solution (answer : AnswerT)
  | notReady

inductive TokenClass where
  | any | integer | float | command

/-- What the parser does to the outside, in order. -/
inductive ParserEvent where
  | printed (label : TokenClass) (token : CString)
  | reply (r : Reply)
  | registerProblem (d : ProblemDraft)
  | registerAnswer (d : AnswerDraft)
  | freed (f : Freed)

/-- The handler functions. A call without a result has no defined behaviour. -/
structure ParserHandle (W : Type) where
  registerProblem : Option (W → Ptr → ProblemT → Option (UInt64 × W))
  registerAnswer : Option (W → Ptr → AnswerT → Option (UInt64 × W))
  listProblems : Option (W → W)
  listAnswers : Option (W → W)

/-- What the parser calls: the C library, and the stores of the daemon. -/
structure Env (W : Type) where
  atof : CString → UInt64
  malloc : W → UInt64 → Option Block × W
  mallocProblem : W → Option (Ptr × ProblemT) × W
  mallocAnswer : W → Option (Ptr × AnswerT) × W
  free : W → Freed → W
  findDb : W → UInt64 → Option (Option Ptr)
  findQueue : W → UInt64 → Option (Option AnswerT)
  extractQueue : W → UInt64 → Option (Option Ptr × W)
  freeAnswer : W → Ptr → Option W
  handler : Option (ParserHandle W)

inductive TokenState where
  | idle | comment
  deriving DecidableEq

/-- `token_flags[0]` to `token_flags[3]` -/
structure TokenFlags where
  digits : UInt16
  letters : UInt16
  dots : UInt16
  all : UInt16

def TokenFlags.zero : TokenFlags := ⟨0, 0, 0, 0⟩

/-- The parser states, with the structure that is being filled. -/
inductive ParserState where
  | idle
  | problem (d : ProblemDraft)
  | answer (d : AnswerDraft)
  | solution
  | deleteAnswer

inductive Fault where
  | tokenOverrun | nullStruct | arrayStore | undefinedCall
  deriving DecidableEq

/-- Whether the loop goes on. A fault is undefined behaviour. -/
inductive Status where
  | reading
  | returned
  | fault (f : Fault)
  deriving DecidableEq

structure Parser (W : Type) where
  char : UInt8
  tokenState : TokenState
  tokenFlags : TokenFlags
  token : CString
  state : ParserState
  index : UInt16
  world : W
  log : List ParserEvent
  status : Status

namespace Parser

variable {W : Type}

/-- The variables before the loop; `c` is not initialised. -/
def start (w : W) (c : UInt8) : Parser W :=
  ⟨c, .idle, .zero, [], .idle, 0, w, [], .reading⟩

def emit (s : Parser W) (e : ParserEvent) : Parser W := { s with log := s.log ++ [e] }

def andThen (s : Parser W) (f : Parser W → Parser W) : Parser W :=
  if s.status = .reading then f s else s

def faulted (s : Parser W) (f : Fault) : Parser W := { s with status := .fault f }

def free (env : Env W) (s : Parser W) (f : Freed) : Parser W :=
  { s with world := env.free s.world f, log := s.log ++ [.freed f] }

def leave (env : Env W) (s : Parser W) (r : Reply) (fs : List Freed) : Parser W :=
  { fs.foldl (Parser.free env) (s.emit (.reply r)) with status := .returned }

def idle (s : Parser W) : Parser W := { s with state := .idle, index := 0 }

end Parser

section Integers

variable {W : Type}

/-- Allocate an array of `n` elements for the draft; `fs` is freed if that fails. -/
def allocArray (env : Env W) (w : W) (n : UInt64) (put : Option Block → δ) (fs : List Freed) :
    Except (List Freed) δ × W :=
  let (b, w) := env.malloc w (n * 8)
  if n > 0 ∧ b.isNone then (.error fs, w) else (.ok (put b), w)

def assignHeader (env : Env W) (w : W) (index : UInt16) (v : UInt64) (d : ProblemDraft) :
    Except (List Freed) ProblemDraft × W :=
  match index.toNat with
  | 0 => (.ok (d.assign .type { d.val with type := v.toUInt32 }), w)
  | 1 => (.ok (d.assign .optm { d.val with optm := v.toUInt32 }), w)
  | 2 => (.ok (d.assign .rows { d.val with rows := v }), w)
  | 3 => (.ok (d.assign .sizeX { d.val with sizeX := v }), w)
  | 4 =>
    allocArray env w (d.val.rows * (d.val.sizeX + v))
      (fun b => (d.assign .sizeY { d.val with sizeY := v, data := b }).renew ProblemSlot.isData)
      [.array d.val.cvData, .array d.val.testData, .array d.val.state, .problem d.ptr]
  | 5 =>
    allocArray env w v
      (fun b =>
        (d.assign .cvSize { d.val with cvSize := v, cvData := b }).renew ProblemSlot.isCvData)
      [.array d.val.testData, .array d.val.data, .array d.val.state, .problem d.ptr]
  | 6 =>
    allocArray env w v
      (fun b =>
        (d.assign .testSize { d.val with testSize := v, testData := b }).renew
          ProblemSlot.isTestData)
      [.array d.val.cvData, .array d.val.data, .array d.val.state, .problem d.ptr]
  | 7 =>
    allocArray env w v
      (fun b => (d.assign .stateSize { d.val with stateSize := v, state := b }).renew
        ProblemSlot.isState)
      [.array d.val.cvData, .array d.val.testData, .array d.val.data, .problem d.ptr]
  | _ => (.ok d, w)

/-- Store to element `i` of an array; `put` writes the array back to the problem. -/
def storeElement (a : Option Block) (put : Block → ProblemT) (slot : ProblemSlot) (i v : UInt64)
    (d : ProblemDraft) : Option ProblemDraft := do
  let b ← (← a).store i v
  some (d.assign slot (put b))

def storeCvData (i v : UInt64) (d : ProblemDraft) : Option ProblemDraft :=
  storeElement d.val.cvData (fun b => { d.val with cvData := some b }) (.cvData i) i v d

def storeTestData (i v : UInt64) (d : ProblemDraft) : Option ProblemDraft :=
  storeElement d.val.testData (fun b => { d.val with testData := some b }) (.testData i) i v d

def storeData (i v : UInt64) (d : ProblemDraft) : Option ProblemDraft :=
  storeElement d.val.data (fun b => { d.val with data := some b }) (.data i) i v d

def storeState (i v : UInt64) (d : ProblemDraft) : Option ProblemDraft :=
  storeElement d.val.state (fun b => { d.val with state := some b }) (.state i) i v d

/-- The two range tests of an integer, with the position extended to 64 bits. -/
def storeIndex (i v : UInt64) (d : ProblemDraft) : Option ProblemDraft := do
  let d ← if i > 7 ∧ i < 8 + d.val.cvSize then storeCvData (i - 8) v d else some d
  if i > 7 + d.val.cvSize ∧ i < 8 + d.val.cvSize + d.val.testSize then
    storeTestData (i - 8 - d.val.cvSize) v d
  else some d

def integerProblem (env : Env W) (v : UInt64) (s : Parser W) : Parser W :=
  match s.state with
  | .problem d =>
    match assignHeader env s.world s.index v d with
    | (.error fs, w) => Parser.leave env { s with world := w } .memoryError fs
    | (.ok d, w) =>
      match storeIndex s.index.toUInt64 v d with
      | none => s.faulted .arrayStore
      | some d => { s with world := w, state := .problem d, index := s.index + 1 }
  | _ => s

def assignAnswer (env : Env W) (w : W) (index : UInt16) (v : UInt64) (d : AnswerDraft) :
    Option (Except (Reply × List Freed) AnswerDraft × W) :=
  match index.toNat with
  | 0 => (env.findDb w v).map fun problem =>
    match problem with
    | none => (.error (.unknownError, [.answer d.ptr]), w)
    | some p => (.ok (d.assign .problem { d.val with problem := some p }), w)
  | 1 => some (.ok (d.assign .sizeX { d.val with sizeX := v }), w)
  | 2 =>
    let (r, w) := allocArray env w (d.val.sizeX + v)
      (fun b => (d.assign .sizeY { d.val with sizeY := v, data := b }).renew AnswerSlot.isData)
      [.answer d.ptr]
    some (r.mapError (Reply.memoryError, ·), w)
  | _ => some (.ok d, w)

def integerAnswer (env : Env W) (v : UInt64) (s : Parser W) : Parser W :=
  match s.state with
  | .answer d =>
    match assignAnswer env s.world s.index v d with
    | none => s.faulted .undefinedCall
    | some (.error (r, fs), w) => Parser.leave env { s with world := w } r fs
    | some (.ok d, w) => { s with world := w, state := .answer d, index := s.index + 1 }
  | _ => s

def integerSolution (env : Env W) (v : UInt64) (s : Parser W) : Parser W :=
  match s.state with
  | .solution =>
    match env.findQueue s.world v with
    | none => s.idle.faulted .undefinedCall
    | some none => s.idle.emit (.reply .unknownError)
    | some (some a) =>
      if a.status ≠ statusSolved then s.idle.emit (.reply .notReady)
      else s.idle.emit (.reply (.solution a))
  | _ => s

def integerDeleteAnswer (env : Env W) (v : UInt64) (s : Parser W) : Parser W :=
  match s.state with
  | .deleteAnswer =>
    match env.extractQueue s.world v with
    | none => s.idle.faulted .undefinedCall
    | some (none, w) => { s.idle with world := w }.emit (.reply .unknownError)
    | some (some a, w) =>
      match env.freeAnswer w a with
      | none => s.idle.faulted .undefinedCall
      | some w => { s.idle with world := w }.emit (.reply .idle)
  | _ => s

def integerToken (env : Env W) (token : CString) (s : Parser W) : Parser W :=
  (((integerProblem env (atoul token) s).andThen
    (integerAnswer env (atoul token))).andThen
    (integerSolution env (atoul token))).andThen
    (integerDeleteAnswer env (atoul token))

end Integers

section Floats

variable {W : Type}

def storePoint (i v : UInt64) (d : ProblemDraft) : Option ProblemDraft := do
  let d ← if i > 7 + d.val.cvSize + d.val.testSize ∧
      i < 8 + d.val.cvSize + d.val.testSize + d.val.points then
    storeData (i - 8 - d.val.cvSize - d.val.testSize) v d else some d
  if i > 7 + d.val.cvSize + d.val.testSize + d.val.points ∧
      i < 8 + d.val.cvSize + d.val.testSize + d.val.points + d.val.stateSize then
    storeState (i - 8 - d.val.cvSize - d.val.testSize - d.val.points) v d
  else some d

def completeProblem (env : Env W) (d : ProblemDraft) (s : Parser W) : Parser W :=
  match env.handler.bind ParserHandle.registerProblem with
  | none => (s.emit (.reply (.problemOk 1))).idle
  | some register =>
    match register s.world d.ptr d.val with
    | none => (s.emit (.registerProblem d)).faulted .undefinedCall
    | some (id, w) =>
      (({ s with world := w }.emit (.registerProblem d)).emit (.reply (.problemOk id))).idle

def floatProblem (env : Env W) (v : UInt64) (s : Parser W) : Parser W :=
  match s.state with
  | .problem d =>
    match storePoint s.index.toUInt64 v d with
    | none => s.faulted .arrayStore
    | some d =>
      let s := { s with state := .problem d, index := s.index + 1 }
      if s.index.toUInt64 = d.total then completeProblem env d s else s
  | _ => s

def storeOutput (i v : UInt64) (d : AnswerDraft) : Option AnswerDraft := do
  if i > 2 ∧ i < 3 + d.val.sizeX + d.val.sizeY then
    let b ← (← d.val.data).store (i - 3) v
    some (d.assign (.data (i - 3)) { d.val with data := some b })
  else some d

def completeAnswer (env : Env W) (d : AnswerDraft) (s : Parser W) : Parser W :=
  match env.handler.bind ParserHandle.registerAnswer with
  | none => (s.emit (.reply (.answerOk 1))).idle
  | some register =>
    match register s.world d.ptr d.val with
    | none => (s.emit (.registerAnswer d)).faulted .undefinedCall
    | some (id, w) =>
      (({ s with world := w }.emit (.registerAnswer d)).emit (.reply (.answerOk id))).idle

def floatAnswer (env : Env W) (v : UInt64) (s : Parser W) : Parser W :=
  match s.state with
  | .answer d =>
    match storeOutput s.index.toUInt64 v d with
    | none => s.faulted .arrayStore
    | some d =>
      let s := { s with state := .answer d, index := s.index + 1 }
      if s.index.toUInt64 = d.total then completeAnswer env d s else s
  | _ => s

def floatToken (env : Env W) (token : CString) (s : Parser W) : Parser W :=
  (floatProblem env (env.atof token) s).andThen (floatAnswer env (env.atof token))

end Floats

section Commands

variable {W : Type}

def registerProblemCommand (env : Env W) (s : Parser W) : Parser W :=
  match env.mallocProblem s.world with
  | (none, w) => { s with world := w }.faulted .nullStruct
  | (some (ptr, p), w) =>
    let p := { p with cvData := none, testData := none, data := none, state := none }
    { s with world := w, state := .problem ⟨ptr, p, fun _ => false⟩, index := 0 }

def registerAnswerCommand (env : Env W) (s : Parser W) : Parser W :=
  match env.mallocAnswer s.world with
  | (none, w) => { s with world := w }.faulted .nullStruct
  | (some (ptr, a), w) =>
    { s with
      world := w
      state := .answer ⟨ptr, { a with data := none }, fun _ => false⟩
      index := 0 }

def listCommand (list : Option (W → W)) (s : Parser W) : Parser W :=
  match list with
  | none => s.idle
  | some list =>
    let s := s.idle.emit (.reply .idle)
    { s with world := list s.world }

def requestCloseCommand (env : Env W) (s : Parser W) : Parser W :=
  match s.state with
  | .problem d =>
    { [.array d.val.cvData, .array d.val.testData, .array d.val.data, .array d.val.state,
        .problem d.ptr].foldl (Parser.free env) s with status := .returned }
  | .answer d =>
    { [.array d.val.data, .answer d.ptr].foldl (Parser.free env) s with status := .returned }
  | _ => { s with status := .returned }

def commandToken (env : Env W) (token : CString) (s : Parser W) : Parser W :=
  if token = tokenRegisterProblem then registerProblemCommand env s
  else if token = tokenRegisterAnswer then registerAnswerCommand env s
  else if token = tokenRequestSolution then { s with state := .solution, index := 0 }
  else if token = tokenDeleteAnswer then { s with state := .deleteAnswer, index := 0 }
  else if token = tokenRequestState then s
  else if token = tokenListProblems then
    listCommand (env.handler.bind ParserHandle.listProblems) s
  else if token = tokenListAnswers then
    listCommand (env.handler.bind ParserHandle.listAnswers) s
  else if token = tokenRequestClose then requestCloseCommand env s
  else s

end Commands

section Loop

variable {W : Type}

def isSeparator (c : UInt8) : Bool := c = 32 || c = 10 || c = 13 || c = 9 || c = 44

def isNewline (c : UInt8) : Bool := c = 10 || c = 13

/-- `;`, `#` and `!` begin a comment. -/
def isComment (c : UInt8) : Bool := c = 59 || c = 35 || c = 33

def isLetter (c : UInt8) : Bool :=
  (97 ≤ c && c ≤ 122) || (65 ≤ c && c ≤ 90) || c = 95 || c = 58

def TokenFlags.count (f : TokenFlags) (c : UInt8) : TokenFlags :=
  if isSeparator c then f
  else
    { digits := if isDigit c then f.digits + 1 else f.digits
      letters := if isLetter c then f.letters + 1 else f.letters
      dots := if c = 46 then f.dots + 1 else f.dots
      all := f.all + 1 }

def TokenFlags.isInteger (f : TokenFlags) : Bool := f.all = f.digits

def TokenFlags.isFloat (f : TokenFlags) : Bool :=
  f.all.toNat = f.digits.toNat + 1 && f.dots = 1

def TokenFlags.isCommand (f : TokenFlags) : Bool := f.all = f.letters

def analyseInteger (env : Env W) (token : CString) (flags : TokenFlags) (s : Parser W) :
    Parser W :=
  if flags.isInteger then
    integerToken env token (s.emit (.printed .integer token))
  else s

def analyseFloat (env : Env W) (token : CString) (flags : TokenFlags) (s : Parser W) : Parser W :=
  if flags.isFloat then
    floatToken env token (s.emit (.printed .float token))
  else s

def analyseCommand (env : Env W) (token : CString) (flags : TokenFlags) (s : Parser W) :
    Parser W :=
  if flags.isCommand then
    commandToken env token (s.emit (.printed .command token))
  else s

def analyse (env : Env W) (token : CString) (flags : TokenFlags) (s : Parser W) : Parser W :=
  ((analyseInteger env token flags (s.emit (.printed .any token))).andThen
    (analyseFloat env token flags)).andThen
    (analyseCommand env token flags)

/-- Store the character at `token[token_index++]`, and analyse a token that it ends. -/
def storeChar (env : Env W) (s : Parser W) (c : UInt8) : Parser W :=
  let flags := s.tokenFlags.count c
  if s.token.length < 128 then
    if isSeparator c ∨ c = 0 then
      let s := { s with char := 0, tokenFlags := flags }
      if s.token = [] then s
      else (analyse env s.token flags s).andThen fun s =>
        { s with tokenFlags := .zero, token := [] }
    else { s with char := c, tokenFlags := flags, token := s.token ++ [c] }
  else s.faulted .tokenOverrun

/-- The body of the loop, for the character `c`. -/
def parserChar (env : Env W) (s : Parser W) (c : UInt8) : Parser W :=
  match s.tokenState with
  | .comment =>
    if isNewline c then { s with char := c, tokenState := .idle, token := [] }
    else { s with char := c }
  | .idle =>
    if isComment c then { s with char := c, tokenState := .comment, token := [] }
    else storeChar env s c

inductive ReadResult where
  | byte (c : UInt8)
  | error

/-- One turn of the loop; after an error `c` is what it was. -/
def parserRead (env : Env W) (s : Parser W) (r : ReadResult) : Parser W :=
  s.andThen fun s =>
    match r with
    | .byte c => parserChar env s c
    | .error => parserChar env s s.char

def parser (env : Env W) (s : Parser W) (reads : List ReadResult) : Parser W :=
  reads.foldl (parserRead env) s

def parse (env : Env W) (s : Parser W) (bytes : List UInt8) : Parser W :=
  parser env s (bytes.map .byte)

end Loop

def Env.sample : Env Nat where
  atof s := if s = cstr "1.0" then 4607182418800017408 else 0
  malloc w n :=
    if n < 9223372036854775808 then (some ⟨w, n, fun _ => 0⟩, w + n.toNat + 8) else (none, w)
  mallocProblem w := (some (w, .zero), w + 88)
  mallocAnswer w := (some (w, ⟨0, 0, 0, 0, none, none⟩), w + 72)
  free w _ := w
  findDb _ id := some (if id = 1 then some 8 else none)
  findQueue _ _ := some none
  extractQueue w _ := some (none, w)
  freeAnswer w _ := some w
  handler := some
    { registerProblem := some fun w _ _ => some (2, w)
      registerAnswer := some fun w _ _ => some (1, w)
      listProblems := some id
      listAnswers := some id }

end Aiqb
