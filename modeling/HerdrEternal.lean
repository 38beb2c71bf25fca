import HerdrEternal.Lib.Bytes
import HerdrEternal.Lib.Machine
import HerdrEternal.Lib.Segment
import HerdrEternal.Proto.Message
import HerdrEternal.Proto.Postcard
import HerdrEternal.Proto.Frame
import HerdrEternal.Proto.Codec
import HerdrEternal.Server.OutboundLog
import HerdrEternal.Server.Session
import HerdrEternal.Server.Attach
import HerdrEternal.Server.SessionInv
import HerdrEternal.Server.StdinInv
import HerdrEternal.Server.TaskIo
import HerdrEternal.Server.Handover
import HerdrEternal.Server.HandoverInv
import HerdrEternal.Server.Restart
import HerdrEternal.Client.RunExec
import HerdrEternal.Client.Login
import HerdrEternal.Client.Received
import HerdrEternal.Client.Resend
import HerdrEternal.System.Resume
import HerdrEternal.System.Delivery
import HerdrEternal.System.StdinDelivery
import HerdrEternal.System.Duplex
import HerdrEternal.System.Deadlock
import HerdrEternal.System.Host
import HerdrEternal.System.FdStore
import HerdrEternal.System.RestartGap
import HerdrEternal.System.Backpressure
import HerdrEternal.System.Overlap
import HerdrEternal.Lib.Table
import HerdrEternal.Server.Daemon
import HerdrEternal.System.Expiry
import HerdrEternal.System.HandoverRace
import HerdrEternal.Server.Auth
import HerdrEternal.Server.Handshake
import HerdrEternal.System.GiveUp
import HerdrEternal.Lib.Pump
import HerdrEternal.Server.AgentHub
import HerdrEternal.System.AgentChannels
import HerdrEternal.Client.AgentChannel
import HerdrEternal.System.AgentIds
import HerdrEternal.System.AgentRelay
import HerdrEternal.Lib.Json
import HerdrEternal.Lib.Replace
import HerdrEternal.Client.TokenCache
import HerdrEternal.System.TokenStore
import HerdrEternal.System.TokenRefresh
import HerdrEternal.Server.PushSteps
import HerdrEternal.System.LogHistory
import HerdrEternal.Server.Serving
import HerdrEternal.System.Replay
import HerdrEternal.System.Wakeup
import HerdrEternal.System.Cleanup
import HerdrEternal.System.AttachGuard
import HerdrEternal.Client.SshArgs
import HerdrEternal.System.SilentEnd
import HerdrEternal.System.KeyRotation
import HerdrEternal.System.Pacing
import HerdrEternal.Server.Startup
import HerdrEternal.Lib.Counter
import HerdrEternal.System.Release64
import HerdrEternal.System.SeqNumbers
import HerdrEternal.System.TimeLimits
import HerdrEternal.Lib.Refinement
import HerdrEternal.Lib.Fifo
import HerdrEternal.Proto.Transport
import HerdrEternal.Proto.HostilePeer
import HerdrEternal.System.EndToEnd
import HerdrEternal.System.ExecOnce
import HerdrEternal.System.StdinRestarts
import HerdrEternal.System.CatchUp
import HerdrEternal.Lib.Interval
import HerdrEternal.System.Keepalive
import HerdrEternal.System.Retry
import HerdrEternal.System.ExpiryLatency
import HerdrEternal.System.Isolation
