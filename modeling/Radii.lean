import Radii.Foundations.Codec
import Radii.Foundations.ByteStream
import Radii.Foundations.BufferedStream
import Radii.Foundations.Machine
import Radii.Foundations.CopyLoop
import Radii.Foundations.HashMap
import Radii.Foundations.HeaderFields
import Radii.Foundations.Net
import Radii.Foundations.NetParse
import Radii.Foundations.Text
import Radii.Foundations.Throttle
import Radii.Foundations.Slots
import Radii.Foundations.Effects
import Radii.Foundations.Walks
import Radii.Foundations.Ranking
import Radii.Foundations.Relaxation
import Radii.Foundations.Selection
import Radii.Foundations.LockedServer
import Radii.Foundations.LockDiscipline
import Radii.Foundations.Alone
import Radii.Foundations.Progress
import Radii.Foundations.Panic
import Radii.Proto.Message
import Radii.Proto.Address
import Radii.Proto.Validate
import Radii.Proto.Framing
import Radii.Proto.Delivery
import Radii.Proto.ServerName
import Radii.Proto.Tls
import Radii.Crawl.State
import Radii.Crawl.Snapshot
import Radii.Crawl.Server
import Radii.Crawl.Alone
import Radii.Crawl.Isolation
import Radii.Crawl.Blocking
import Radii.Crawl.Stored
import Radii.Crawl.Quota
import Radii.Crawl.Acks
import Radii.Crawl.Table
import Radii.Crawl.Serial
import Radii.Crawl.LiveGraph
import Radii.Routing.Graph
import Radii.Routing.Search
import Radii.Routing.Planner
import Radii.Routing.Resolve
import Radii.Routing.Best
import Radii.Routing.Real
import Radii.Routing.Truncation
import Radii.Routing.Exact
import Radii.Routing.Checked
import Radii.Routing.NoPanic
import Radii.Routing.Agreement
import Radii.Head.Bridge
import Radii.Head.Invariant
import Radii.Head.Latest
import Radii.Head.Relayed
import Radii.Head.Forwarded
import Radii.Head.HopByHop
import Radii.Head.Proxy
import Radii.Head.Decision
import Radii.Head.Reported
import Radii.Relay.Admission
import Radii.Relay.Handshake
import Radii.Relay.Chain
import Radii.Relay.Outcome
import Radii.Relay.Initiator
import Radii.Relay.Dialed
import Radii.Relay.Splice
import Radii.Relay.Flushing
import Radii.Relay.Idle
import Radii.Relay.Tunnel
import Radii.Relay.Occupancy
import Radii.Relay.Chains
import Radii.Relay.Pinned
import Radii.Beacon.Datagram
import Radii.Beacon.Recv
import Radii.Beacon.Sighting
import Radii.Beacon.Lan
import Radii.Cli.Brand
import Radii.Cli.Print
import Radii.Mesh.Poll
import Radii.Mesh.Provenance
import Radii.Mesh.Fresh
import Radii.Mesh.Replicas
import Radii.Mesh.Live
import Radii.Mesh.Found
