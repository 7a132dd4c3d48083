import Aiqb.ProblemMessage
import Aiqb.Server
import Aiqb.TokenMachine

namespace Aiqb
set_option autoImplicit true

structure AnswerMessage where
  problem : CString
  sizeX : CString
  sizeY : CString
  data : List CString

structure AnswerT.Carries (a : AnswerT) (m : AnswerMessage) (atof : CString → UInt64) : Prop where
  sizeX : a.sizeX = UInt64.ofNat (decimal m.sizeX)
  sizeY : a.sizeY = UInt64.ofNat (decimal m.sizeY)
  data : readArray a.data (a.sizeX + a.sizeY).toNat = some (m.data.map atof)

namespace AnswerMessage

def numbers (m : AnswerMessage) : List CString := m.problem :: m.sizeX :: m.sizeY :: m.data

structure WellFormed (m : AnswerMessage) : Prop where
  problem : DigitText m.problem
  sizeX : Numeral m.sizeX
  sizeY : Numeral m.sizeY
  data : ∀ t ∈ m.data, FloatText t
  size : m.data.length = decimal m.sizeX + decimal m.sizeY
  nonempty : 1 ≤ m.data.length
  short : m.numbers.length ≤ 65535

end AnswerMessage

def ProblemMessage.numbers (m : ProblemMessage) : List CString := m.header ++ m.arrays

inductive ClientMessage where
  | problem (m : ProblemMessage)
  | answer (m : AnswerMessage)
  | solution (id : CString)
  | deleteAnswer (id : CString)
  | state
  | problems
  | answers

namespace ClientMessage

def tokens : ClientMessage → List CString
  | .problem m => tokenRegisterProblem :: m.numbers
  | .answer m => tokenRegisterAnswer :: m.numbers
  | .solution id => [tokenRequestSolution, id]
  | .deleteAnswer id => [tokenDeleteAnswer, id]
  | .state => [tokenRequestState]
  | .problems => [tokenListProblems]
  | .answers => [tokenListAnswers]

/-- The positions of the numbers fit the 16-bit index. -/
def WellFormed : ClientMessage → Prop
  | .problem m => m.WellFormed ∧ m.numbers.length ≤ 65535
  | .answer m => m.WellFormed
  | .solution id => DigitText id
  | .deleteAnswer id => DigitText id
  | _ => True

/-- The requests that a message is to make. -/
inductive Makes (atof : CString → UInt64) : ClientMessage → List Request → Prop
  | problem (h : d.val.Carries (m.problem atof)) : Makes atof (.problem m) [.registerProblem d]
  | answer (h : d'.val.Carries m atof) :
      Makes atof (.answer m) [.answerProblem d m.problem, .registerAnswer d']
  | solution (token : CString) : Makes atof (.solution token) [.solution token]
  | deleteAnswer (token : CString) : Makes atof (.deleteAnswer token) [.delete token]
  | state : Makes atof .state []
  | problems : Makes atof .problems [.listProblems]
  | answers : Makes atof .answers [.listAnswers]

end ClientMessage

/-- A token, in the world as the others have left it. -/
structure Heard (W : Type) where
  env : Env W
  world : W
  token : CString

section Hearing

variable {W : Type} {s u : Parser W} {e : Heard W} {t : CString}

def Heard.malloc (e : Heard W) (n : UInt64) : Option Block := (e.env.malloc e.world n).1

theorem DigitText.isInteger (ht : DigitText t) :
    (t.foldl TokenFlags.count .zero).isInteger := by
  rw [ht.flags]
  exact decide_eq_true rfl

theorem FloatText.isFloat (ht : FloatText t) :
    (t.foldl TokenFlags.count .zero).isFloat ∧ ¬ (t.foldl TokenFlags.count .zero).isInteger := by
  have hlen := ht.length
  have hn : (UInt16.ofNat (t.length - 1)).toNat = t.length - 1 := by
    rw [UInt16.toNat_ofNat']
    omega
  have hsucc : (UInt16.ofNat (t.length - 1) + 1).toNat = t.length - 1 + 1 := by
    rw [UInt16.toNat_add, hn, UInt16.toNat_one]
    omega
  have hfloat : (t.foldl TokenFlags.count .zero).isFloat := by
    rw [ht.flags, TokenFlags.isFloat, Bool.and_eq_true, decide_eq_true_eq, decide_eq_true_eq, hsucc,
      hn]
    exact ⟨rfl, rfl⟩
  exact ⟨hfloat, fun hint => TokenFlags.isInteger_not_isFloat hint hfloat⟩

end Hearing

section Numbers

variable {W : Type} {env : Env W} {v : Parser W} {n : UInt64}

end Numbers

end Aiqb
