import PssClient.Client.Alive
import PssClient.Client.Flag
import PssClient.Client.Forged
import PssClient.Client.Formatted
import PssClient.Client.History
import PssClient.Client.InFlight
import PssClient.Client.Loopback
import PssClient.Client.OldFailure
import PssClient.Client.Port
import PssClient.Client.Recovery
import PssClient.Client.Rejected
import PssClient.Client.Reports
import PssClient.Client.SendBuffers
import PssClient.Client.SerialWrites
import PssClient.Client.StaysClosed
import PssClient.Client.Uninterrupted
import PssClient.Client.WriteQueue
import PssClient.Lib.Pool
import PssClient.Lib.Run
import PssClient.Manager.FailedStart
import PssClient.Manager.Idle
import PssClient.Manager.IoThread
import PssClient.Manager.LoadModule
import PssClient.Manager.Mirrors
import PssClient.Manager.Shutdown
import PssClient.Manager.Svc
import PssClient.System.DueCalled
import PssClient.Timer.Close
import PssClient.Timer.BeginDelay
import PssClient.Timer.Kept
import PssClient.Timer.Once
import PssClient.Timer.Nearest
import PssClient.Timer.Wakeup
import PssClient.Tms.Cancel
import PssClient.Tms.CloseAll
import PssClient.Tms.Delivery
import PssClient.Tms.Handles
import PssClient.Tms.Index
import PssClient.Tms.LostWakeup
import PssClient.Tms.Overlap
import PssClient.Tms.Tables
import PssClient.Tms.Stop
import PssClient.Wire.Handover
import PssClient.Wire.Reads
import PssClient.Wire.Reassembly
