import Aiqb.PackHeader
import Aiqb.ServerScripts
import Aiqb.ServerStored
import Aiqb.UnpackReads

namespace Aiqb
set_option autoImplicit true

def Request.problem : Request → Option ProblemT
  | .registerProblem d => some d.val
  | _ => none

/-- The client is told of its problem: -1, or the id under which it is stored. -/
structure Answered (stored : List StoredProblem) (asked : κ × ProblemT) (told : κ × UInt64) :
    Prop where
  client : told.1 = asked.1
  problem : told.2 = -1 ∨ ∃ r ∈ stored, r.id = told.2 ∧ r.Packs asked.2

section Answering

variable {κ : Type} {t : Tree} {v v' : Desk κ} {e : Option κ × ServiceEvent}
  {stored stored' : List StoredProblem} {asked : List (κ × ProblemT)}

theorem Answered.mono {a : κ × ProblemT} {u : κ × UInt64} (h : Answered stored a u)
    (hs : ∀ r ∈ stored, ∃ r' ∈ stored', r'.id = r.id ∧ r'.body = r.body) :
    Answered stored' a u := by
  refine ⟨h.client, h.problem.imp_right ?_⟩
  rintro ⟨r, hr, hid, atoms, pad, hatoms, hbody⟩
  obtain ⟨r', hr', hid', hbody'⟩ := hs r hr
  exact ⟨r', hr', hid'.trans hid, atoms, pad, hatoms, hbody'.trans hbody⟩

variable [DecidableEq κ] {s : Server κ} {es : List (ServerEvent κ)} {w : Daemon}

end Answering

section Unpacking

variable {W : Type} {env : UnpackEnv W} {w : W} {p q : ProblemT} {c : Problem} {file : List UInt8}

theorem ProblemT.SameHeader.symm (h : p.SameHeader q) : q.SameHeader p :=
  ⟨h.type.symm, h.optm.symm, h.rows.symm, h.sizeX.symm, h.sizeY.symm, h.cvSize.symm,
    h.testSize.symm, h.stateSize.symm⟩

end Unpacking

section Clients

variable {κ : Type} [DecidableEq κ] {t : Tree} {s : Server κ} {es pre : List (ServerEvent κ)}
  {w : Daemon} {i : κ} {p : ProblemT} {ms : List ClientMessage}

end Clients

section Reloading

variable {t : Tree} {files : Files} {cwd : Dir} {path : CString} {stored : List StoredProblem}
  {heap : Heap FsdbT} {xs : List Ptr} {m : ProblemMessage}

/-- The numbers of a problem that its file has no room for are its type and its optimiser; and it is
read back only if there are not more indices for cross validation than for the test. -/
structure ProblemMessage.FitsFile (m : ProblemMessage) : Prop where
  type : decimal m.type < 2 ^ 16
  optm : decimal m.optm < 2 ^ 16
  sets : m.cvData.length ≤ m.testData.length

variable {κ : Type} [DecidableEq κ] {s : Server κ} {w : Daemon} {i : κ}
  {es pre : List (ServerEvent κ)} {ms : List ClientMessage}

end Reloading

end Aiqb
