import Aiqb.MessageTokens
import Aiqb.ServerRuns

namespace Aiqb
set_option autoImplicit true

variable {κ : Type} [DecidableEq κ] {t : Tree} {s s' : Server κ} {i : κ} {e : ServerEvent κ}
  {es : List (ServerEvent κ)} {p p' : Parser Daemon} {q u : Parser Daemon}

def Library.MallocExact (lib : Library) : Prop := ∀ n b, lib.malloc n = some b → b.bytes = n

theorem Library.MallocExact.env {lib : Library} (h : lib.MallocExact) (t : Tree) :
    (daemonEnv t lib).MallocExact := by
  intro w n b w' hb
  exact h n b (congrArg Prod.fst hb)

/-- All but the variables of the lexer and the daemon, which others change. -/
structure Parser.Abreast (q p : Parser Daemon) : Prop where
  state : p.state = q.state
  index : p.index = q.index
  log : p.log = q.log
  status : p.status = q.status

theorem Parser.Abreast.inWorld (h : q.Abreast p) (w : Daemon) :
    SameMessage { q with world := w } { p with world := w } :=
  ⟨h.state, h.index, rfl, h.log, h.status⟩

section Steps

end Steps

section Runs

variable {pre : List UInt8} {lib : Library} {c : UInt8}

/-- Where the thread of a client stands: the parser is where the grammar is, and beside it there is
one that only hears the tokens. -/
structure Server.Follows (s : Server κ) (i : κ) (pre : List UInt8) (q : Parser Daemon) : Prop where
  intro ::
  parser : ∃ p, s.parsers i = some p ∧ q.Abreast p ∧ Lexes pre p ∧ p.status = .reading

end Runs

end Aiqb
