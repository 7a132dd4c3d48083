import Aiqb.AnswerRefinement
import Aiqb.AnswerInvariants
import Aiqb.AnswerIds
import Aiqb.AnswerHandover
import Aiqb.Parser
import Aiqb.ParserFrame
import Aiqb.TokenBuffer
import Aiqb.DraftFilled
import Aiqb.DraftSteps
import Aiqb.ParserComplete
import Aiqb.Numerals
import Aiqb.ParserLog
import Aiqb.ProblemMessage
import Aiqb.LittleEndian
import Aiqb.Pack
import Aiqb.PackRoundTrip
import Aiqb.Fsdb
import Aiqb.Paths
import Aiqb.Phases
import Aiqb.ProblemDaemon
import Aiqb.ProblemBook
import Aiqb.ProblemLife
import Aiqb.ProblemRefinement
import Aiqb.ProblemsKept
import Aiqb.Disk
import Aiqb.LoadDb
import Aiqb.ProblemStore
import Aiqb.StoreFiled
import Aiqb.StoreReload
import Aiqb.StoreSteps
import Aiqb.FreshIds
import Aiqb.Recovery
import Aiqb.Daemon
import Aiqb.AnswerTold
import Aiqb.ServiceKept
import Aiqb.Resolvable
import Aiqb.RingLists
import Aiqb.AnswerQueues
import Aiqb.ProblemRings
import Aiqb.Acceptor
import Aiqb.ParserRule
import Aiqb.ProblemReplies
import Aiqb.UnpackBounds
import Aiqb.BlockSizes
import Aiqb.DatabaseNames
import Aiqb.TokenGrammar
import Aiqb.LexerGrammar
import Aiqb.ArrayStores
import Aiqb.BlockLedger
import Aiqb.Arena
import Aiqb.ParserOwnership
import Aiqb.FreedOnce
import Aiqb.ReadErrors
import Aiqb.NamedAnswers
import Aiqb.Loops
import Aiqb.Release
import Aiqb.UnpackReads
import Aiqb.UnpackChecked
import Aiqb.UnpackLength
import Aiqb.UnpackPack
import Aiqb.PackHeader
import Aiqb.MetadataRewrites
import Aiqb.Recover
import Aiqb.RecoverColumns
import Aiqb.RecoverRows
import Aiqb.DraftTwins
import Aiqb.WorldTwins
import Aiqb.ParserTwins
import Aiqb.Observations
import Aiqb.Rotation
import Aiqb.DispatchTurns
import Aiqb.LoadListing
import Aiqb.StringMemory
import Aiqb.Trim
import Aiqb.Config
import Aiqb.ConfigStream
import Aiqb.LineCuts
import Aiqb.ConfigLines
import Aiqb.ConfigBlanks
import Aiqb.ConfigArgs
import Aiqb.ConfigStrings
import Aiqb.ConcatPath
import Aiqb.Decimals
import Aiqb.SolutionReply
import Aiqb.Emitted
import Aiqb.Server
import Aiqb.ServerRequests
import Aiqb.ServerRuns
import Aiqb.ServerStored
import Aiqb.ProblemTurns
import Aiqb.Fairness
import Aiqb.ProblemLiveness
import Aiqb.TokenMachine
import Aiqb.ClientMessages
import Aiqb.MessageTokens
import Aiqb.ServerScripts
import Aiqb.SentStored
import Aiqb.Crashes
import Aiqb.SolvedOnce
import Aiqb.SolutionsSent
import Aiqb.ReplyText
import Aiqb.Conversations
