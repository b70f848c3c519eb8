import Atsq.Escape
import Atsq.Protocol.Render
import Atsq.Protocol.OneLine
import Atsq.Protocol.Rows
import Atsq.Protocol.Terminator
import Atsq.Transport
import Atsq.Connection.Events
import Atsq.Connection.Shutdown
import Atsq.Connection.Flood
import Atsq.Connection.Deadline
import Atsq.Connection.Keepalive
import Atsq.Connection.Attribution
import Atsq.Connection.Cancellation
import Atsq.Connection.Release
import Atsq.Connection.Fresh
import Atsq.Connection.Projection
import Atsq.Connection.Fifo
import Atsq.Connection.Output
import Atsq.Connection.Network
import Atsq.Connection.Silence
import Atsq.Client.Close
import Atsq.Client.Called
import Atsq.Client.Ready
import Atsq.Client.Backoff
import Atsq.Client.Dispatch
import Atsq.Client.Connect
import Atsq.Client.Stop
import Atsq.Client.Behind
import Atsq.Transfer.Download
import Atsq.Client.Typed
import Atsq.Transfer.Store
