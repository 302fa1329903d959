import FsmFramework.Lib.Lts
import FsmFramework.Lib.Trace
import FsmFramework.Lib.Progress
import FsmFramework.Lib.KeyedList
import FsmFramework.Lib.CString
import FsmFramework.Common
import FsmFramework.TableExecutor
import FsmFramework.TableRuns
import FsmFramework.BusinessFsm
import FsmFramework.RowOrder
import FsmFramework.Pump
import FsmFramework.PumpSystem
import FsmFramework.Lifecycle
import FsmFramework.PumpWaiting
import FsmFramework.PumpSettling
import FsmFramework.TimerManager
import FsmFramework.TimerThreads
import FsmFramework.TimerRefinement
import FsmFramework.TimerCancel
import FsmFramework.TimerShutdown
import FsmFramework.ThreadFailure
import FsmFramework.MsgPorts
import FsmFramework.Cfactory
import FsmFramework.CfactoryMgr
import FsmFramework.DispatchMachine
import FsmFramework.DispatchSystem
import FsmFramework.FsmStore
import FsmFramework.SeqSystem
import FsmFramework.SeqDispatch
import FsmFramework.SeqRuns
import FsmFramework.Completion
import FsmFramework.FailedDispatch
import FsmFramework.Flow
import FsmFramework.CommutingDispatches
import FsmFramework.Reuse
import FsmFramework.FollowUps
import FsmFramework.IdWrap
import FsmFramework.ConcurrentDispatch
import FsmFramework.Sessions
import FsmFramework.Provenance
import FsmFramework.Amplification
import FsmFramework.Waiters
import FsmFramework.HttpServer
import FsmFramework.WaitSystem
import FsmFramework.HttpAnswers
import FsmFramework.WaitOutcomes
import FsmFramework.HttpWaits
import FsmFramework.Shutdown
import FsmFramework.Admission
import FsmFramework.ServedRuns
import FsmFramework.AuthFlows
import FsmFramework.OwnCompletion
import FsmFramework.SessionIds
import FsmFramework.ServerStart
import FsmFramework.HttpTarget
import FsmFramework.HttpAdmission
import FsmFramework.CommandLine
import FsmFramework.WholeFlows
import FsmFramework.RealFlow
import FsmFramework.HttpStop
import FsmFramework.ServiceSettling
import FsmFramework.OneService
import FsmFramework.TimerSettling
import FsmFramework.FailedStart
import FsmFramework.ServiceDispatchers
