import Aiqb.Parser
import Aiqb.Loops
import Aiqb.Trim

namespace Aiqb
set_option autoImplicit true

inductive ConfigKey where
  | configDir | configFile | databaseDir | runDir | pidFile | queueSize | answersSize | noDaemon
  | socket
  deriving DecidableEq

namespace ConfigKey

def all : List ConfigKey :=
  [configDir, configFile, databaseDir, runDir, pidFile, queueSize, answersSize, noDaemon, socket]

def shortToken : ConfigKey → CString
  | configDir => cstr "e"
  | configFile => cstr "c"
  | databaseDir => cstr "d"
  | runDir => cstr "r"
  | pidFile => cstr "p"
  | queueSize => cstr "q"
  | answersSize => cstr "a"
  | noDaemon => cstr "n"
  | socket => cstr "s"

def token : ConfigKey → CString
  | configDir => cstr "config_dir"
  | configFile => cstr "config_file"
  | databaseDir => cstr "database_dir"
  | runDir => cstr "run_dir"
  | pidFile => cstr "pid_file"
  | queueSize => cstr "queue_size"
  | answersSize => cstr "answers_size"
  | noDaemon => cstr "no_daemon"
  | socket => cstr "socket"

def named (key : CString) : Option ConfigKey :=
  all.find? fun k => key = k.shortToken ∨ key = k.token

end ConfigKey

/-- What the options set. Each string is the block that was allocated for it. -/
structure ConfigT where
  configDir : Option (List UInt8)
  configFile : Option (List UInt8)
  databaseDir : Option (List UInt8)
  runDir : Option (List UInt8)
  pidFile : Option (List UInt8)
  noDaemon : UInt16
  problemQueueSize : UInt32
  answerQueueSize : UInt32
  port : Int
  deriving DecidableEq

/-- `_init_config`, which does not set `no_daemon` -/
def initConfig (noDaemon : UInt16) : ConfigT := ⟨none, none, none, none, none, noDaemon, 8, 8, 0⟩

/-- Set an option to a value that is not empty. A block is allocated for the bytes of a string
without its terminator, and all of them are copied to it. -/
def ConfigT.set (config : ConfigT) (key : ConfigKey) (value : CString) : ConfigT :=
  match key with
  | .configDir => { config with configDir := some value }
  | .configFile => { config with configFile := some value }
  | .databaseDir => { config with databaseDir := some value }
  | .runDir => { config with runDir := some value }
  | .pidFile => { config with pidFile := some value }
  | .queueSize => { config with problemQueueSize := UInt32.ofInt (atoi value) }
  | .answersSize => { config with answerQueueSize := UInt32.ofInt (atoi value) }
  | .noDaemon => { config with noDaemon := 1 }
  | .socket => { config with port := atoi value }

def ConfigT.setNonEmpty (config : ConfigT) (key : ConfigKey) (value : CString) : ConfigT :=
  if 0 < intOf value.length then config.set key value else config

theorem ConfigT.setNonEmpty_cases (config : ConfigT) (key : ConfigKey) (value : CString) :
    config.setNonEmpty key value = config.set key value ∨ config.setNonEmpty key value = config :=
  ite_eq_or_eq (0 < intOf value.length) (config.set key value) config

def trimQuotes (value : CString) : Option CString := (trimString 34 value).bind (trimString 39)

/-- `_assign_config`; NULL is `none`. Returns the configuration, and whether the key is known. -/
def assignConfig (key : CString) (value : Option CString) (config : ConfigT) :
    Option (ConfigT × Bool) :=
  match ConfigKey.named key with
  | none => some (config, false)
  | some .noDaemon => some ({ config with noDaemon := 1 }, true)
  | some k =>
    match value with
    | none => some (config, true)
    | some value => do
      let value ← trimQuotes value
      some (config.setNonEmpty k value, true)

def parseArgsFrom : List CString → ConfigT → Option ConfigT
  | [], config => some config
  | [arg], config =>
    if arg.head? = some 45 then (trimString 45 arg).map fun _ => config else some config
  | arg :: next :: rest, config =>
    if arg.head? = some 45 then do
      let key ← trimString 45 arg
      if next.head? = some 45 then do
        let (config, _) ← assignConfig key none config
        parseArgsFrom (next :: rest) config
      else do
        let (config, known) ← assignConfig key (some next) config
        if known then parseArgsFrom rest config else parseArgsFrom (next :: rest) config
    else parseArgsFrom (next :: rest) config

def parseArgs (argv : List CString) (config : ConfigT) : Option ConfigT :=
  parseArgsFrom argv.tail config

/-- A call of `_assign_config` that `_parse_file` makes, and the string that was in its buffer. -/
structure ConfigCall where
  buffer : CString
  key : CString
  value : CString
  deriving DecidableEq

def trimLine (buffer : CString) : CString :=
  trimText 10 (trimText 13 (trimText 9 (trimText 32 buffer)))

def trimBlanks (s : CString) : CString := trimText 9 (trimText 32 s)

def isCommentLine (line : CString) : Bool :=
  line.head? = some 35 || line.head? = some 59 || line.head? = some 91

/-- What the loop of `_parse_file` does with the string in its buffer. -/
def lineCall (buffer : CString) : Option ConfigCall :=
  if buffer.length = 0 then none
  else
    let line := trimLine buffer
    if isCommentLine line then none
    else if 61 ∈ line then
      some
        { buffer := buffer
          key := trimBlanks (line.takeWhile (· ≠ 61))
          value := trimBlanks (line.dropWhile (· ≠ 61)).tail }
    else none

def configMaxBuffer : Nat := 128

/-- The bytes that `fgets` puts into its buffer, which has room for the terminator. -/
structure FgetsLine where
  bytes : List UInt8
  short : bytes.length < configMaxBuffer

def FgetsLine.text (line : FgetsLine) : CString := line.bytes.takeWhile (· ≠ 0)

/-- What the calls of `fgets` find: the end of the file, an error that stays, a line after which the
end of the file was met, or a line or a failure and then more. -/
inductive ConfigStream where
  | eof
  | error
  | last (line : FgetsLine)
  | next (line : FgetsLine) (rest : ConfigStream)
  | failed (rest : ConfigStream)

/-- The state of the loop of `_parse_file`: the stream, its end-of-file flag, the calls of
`_assign_config` that were made, and the configuration. -/
structure FileReader where
  stream : ConfigStream
  feof : Bool
  calls : List ConfigCall
  config : ConfigT

def ConfigStream.fgets : ConfigStream → Option FgetsLine × ConfigStream × Bool
  | eof => (none, eof, true)
  | error => (none, error, false)
  | last line => (some line, eof, true)
  | next line rest => (some line, rest, false)
  | failed rest => (none, rest, false)

def FileReader.assign (r : FileReader) (text : CString) : Option FileReader :=
  match lineCall text with
  | none => some r
  | some call =>
    (assignConfig call.key (some call.value) r.config).map fun (config, _) =>
      { r with calls := r.calls ++ [call], config := config }

def FileReader.turn (r : FileReader) : Option FileReader :=
  let (line, stream, feof) := r.stream.fgets
  let r := { r with stream := stream, feof := feof }
  match line with
  | none => some r
  | some line => r.assign line.text

open Loops in
/-- `_parse_file` of a stream that could be opened, within a number of turns. -/
def parseFile (stream : ConfigStream) (config : ConfigT) (n : Nat) : Outcome FileReader :=
  whileLoop (fun r => !r.feof) (fun _ r => .ofOption r.turn) n ⟨stream, false, [], config⟩

def ConfigStream.ofBytes (buffer : List UInt8) (h : buffer.length + 1 < configMaxBuffer) :
    List UInt8 → ConfigStream
  | [] => if buffer = [] then .eof else .last ⟨buffer, Nat.lt_of_succ_lt h⟩
  | b :: rest =>
    if hfull : b = 10 ∨ buffer.length + 2 = configMaxBuffer then
      .next ⟨buffer ++ [b], by rw [List.length_append]; exact h⟩ (ofBytes [] (by decide) rest)
    else
      ofBytes (buffer ++ [b]) (by
        rw [List.length_append]
        exact Nat.lt_of_le_of_ne h fun he => hfull (.inr he)) rest

def configFile (content : List UInt8) : ConfigStream := .ofBytes [] (by decide) content

end Aiqb
