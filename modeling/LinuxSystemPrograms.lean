import LinuxSystemPrograms.Transition
import LinuxSystemPrograms.Framing
import LinuxSystemPrograms.CharArray
import LinuxSystemPrograms.Sockets
import LinuxSystemPrograms.EchoClient
import LinuxSystemPrograms.ConnectionAccount
import LinuxSystemPrograms.SelectServerV2
import LinuxSystemPrograms.SelectServerV2Fidelity
import LinuxSystemPrograms.EpollServer
import LinuxSystemPrograms.EpollServerTable
import LinuxSystemPrograms.EpollServerEcho
import LinuxSystemPrograms.EpollServerV1
import LinuxSystemPrograms.EpollServerLifecycle
import LinuxSystemPrograms.EpollServerDispatch
import LinuxSystemPrograms.Decimal
import LinuxSystemPrograms.StressClient
import LinuxSystemPrograms.StressClientHandlers
import LinuxSystemPrograms.StressClientSituations
import LinuxSystemPrograms.StressClientAccounting
import LinuxSystemPrograms.EchoExchange
import LinuxSystemPrograms.StressEcho
import LinuxSystemPrograms.StressEchoTurns
import LinuxSystemPrograms.StressEchoStage
import LinuxSystemPrograms.StressEchoCompletion
import LinuxSystemPrograms.RingBuffer
import LinuxSystemPrograms.PthreadPool
import LinuxSystemPrograms.PthreadPoolCustody
import LinuxSystemPrograms.PthreadPoolDelivery
import LinuxSystemPrograms.ConditionVariable
import LinuxSystemPrograms.PthreadPoolWakeup
import LinuxSystemPrograms.PthreadPoolEcho
import LinuxSystemPrograms.EchoBuffers
import LinuxSystemPrograms.SelectRoster
import LinuxSystemPrograms.SelectServerV2Table
import LinuxSystemPrograms.SelectServerV1
import LinuxSystemPrograms.SelectServerV1Table
import LinuxSystemPrograms.SelectServersAgree
import LinuxSystemPrograms.SelectServerV2Turns
import LinuxSystemPrograms.SelectServerV2HalfClose
import LinuxSystemPrograms.CheckedArray
import LinuxSystemPrograms.PollServerV1
import LinuxSystemPrograms.PollServerV1Pass
import LinuxSystemPrograms.PollServerV1Table
import LinuxSystemPrograms.PollServerV1Bounds
import LinuxSystemPrograms.PollServerV1Isolation
import LinuxSystemPrograms.PollServerV1Health
import LinuxSystemPrograms.StressClientSlicing
import LinuxSystemPrograms.StressClientExit
import LinuxSystemPrograms.StressClientIdentity
import LinuxSystemPrograms.ThreadPool
import LinuxSystemPrograms.SemProConProb
import LinuxSystemPrograms.ProdConsProb
import LinuxSystemPrograms.PthreadCreate
import LinuxSystemPrograms.SelectServerV2Calls
import LinuxSystemPrograms.SelectServerV2Framing
import LinuxSystemPrograms.SelectServerV2Backlog
import LinuxSystemPrograms.PollServerV1Removal
import LinuxSystemPrograms.PollServerV1Freshness
import LinuxSystemPrograms.CString
import LinuxSystemPrograms.MessageQueue
import LinuxSystemPrograms.MqProducerConsumer
import LinuxSystemPrograms.MqDelivery
import LinuxSystemPrograms.FifoPipe
import LinuxSystemPrograms.FifoPipeFaithful
import LinuxSystemPrograms.Interpolation
import LinuxSystemPrograms.StressClientPercentile
import LinuxSystemPrograms.SelectServerV2Recv
import LinuxSystemPrograms.PthreadNoMutex
import LinuxSystemPrograms.PthreadHaveMutex
import LinuxSystemPrograms.RwLock
import LinuxSystemPrograms.WrRdLock
import LinuxSystemPrograms.SelectServerV1Fidelity
import LinuxSystemPrograms.EpollServersAgree
import LinuxSystemPrograms.ThreadPoolTasks
import LinuxSystemPrograms.Pipes
import LinuxSystemPrograms.Stdio
import LinuxSystemPrograms.UnamedPipeTest
import LinuxSystemPrograms.MqParentChild
import LinuxSystemPrograms.SharedMemory
import LinuxSystemPrograms.StressClientBytes
import LinuxSystemPrograms.StressClientReport
import LinuxSystemPrograms.PollServerV1Mute
import LinuxSystemPrograms.ForkJoin
import LinuxSystemPrograms.ProdConsTranscript
import LinuxSystemPrograms.Transcripts
import LinuxSystemPrograms.SemProConTranscript
import LinuxSystemPrograms.StressEpoll
import LinuxSystemPrograms.StressEpollProgress
import LinuxSystemPrograms.StressEpollCompletion
