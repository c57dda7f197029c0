import BatchUDP.Go.Slice
import BatchUDP.Go.Arena
import BatchUDP.Go.Runtime
import BatchUDP.Framing.Chunks
import BatchUDP.Framing.Grouping
import BatchUDP.Framing.InPlace
import BatchUDP.Machine.Trace
import BatchUDP.Machine.Interleave
import BatchUDP.Machine.Ring
import BatchUDP.Machine.Custody
import BatchUDP.Machine.Port
import BatchUDP.Machine.Fair
import BatchUDP.Machine.Refine
import BatchUDP.Machine.Service
import BatchUDP.Machine.Complete
import BatchUDP.Unix.Cmsg
import BatchUDP.Unix.Sockopt
import BatchUDP.Net
import BatchUDP.Control
import BatchUDP.Socket
import BatchUDP.Coalesce
import BatchUDP.Transmit
import BatchUDP.Split
import BatchUDP.Window
import BatchUDP.Segments
import BatchUDP.StdNet.Bind
import BatchUDP.StdNet.Groups
import BatchUDP.StdNet.Arena
import BatchUDP.StdNet.Send
import BatchUDP.StdNet.Receive
import BatchUDP.StdNet.Source
import BatchUDP.StdNet.Sticky
import BatchUDP.StdNet.Parsing
import BatchUDP.StdNet.Fallback
import BatchUDP.StdNet.Open
import BatchUDP.StdNet.Ports
import BatchUDP.StdNet.Generations
import BatchUDP.StdNet.Concurrent
import BatchUDP.StdNet.Serial
import BatchUDP.StdNet.Options
import BatchUDP.Batching.Write
import BatchUDP.Batching.Concurrent
import BatchUDP.Batching.Read
import BatchUDP.Agreement
import BatchUDP.Destination
import BatchUDP.Delivery
import BatchUDP.Boundaries
import BatchUDP.Link
import BatchUDP.RoundTrip
import BatchUDP.Reply
import BatchUDP.PrettyName
import BatchUDP.Pools
import BatchUDP.Windows.Ring
import BatchUDP.Windows.Send
import BatchUDP.EndpointBytes
import BatchUDP.Windows.Receive
import BatchUDP.Windows.Bind
import BatchUDP.Windows.Handles
import BatchUDP.Windows.Rio
import BatchUDP.Windows.Calls
import BatchUDP.Windows.Family
import BatchUDP.Windows.Invariants
import BatchUDP.Windows.Closing
import BatchUDP.Bindtest.ChannelBind
import BatchUDP.Pingpong.Session
import BatchUDP.Pingpong.Steps
import BatchUDP.Pingpong.Invariant
import BatchUDP.Pingpong.Completes
import BatchUDP.Pingpong.Scenario
