import Sponge.Lib.Runs
import Sponge.Lib.Word64
import Sponge.Lib.Chunks
import Sponge.Lib.Ranges
import Sponge.Lib.Checked
import Sponge.Lib.Outcome
import Sponge.Lib.Ring
import Sponge.Lib.Tiling
import Sponge.Lib.EntryQueue
import Sponge.Lib.OnesComplement
import Sponge.Lib.BitTrie
import Sponge.Lib.Resolution
import Sponge.Lib.Internet
import Sponge.WrappingIntegers
import Sponge.Unwrap
import Sponge.ByteStream
import Sponge.ByteStream.Fifo
import Sponge.TcpSegment
import Sponge.Reassembler.Model
import Sponge.Reassembler.Store
import Sponge.Reassembler.Flush
import Sponge.Reassembler.Push
import Sponge.Reassembler.Excerpts
import Sponge.Reassembler.Coverage
import Sponge.Reassembler.EndFlag
import Sponge.Reassembler.Occupancy
import Sponge.Reassembler.Safety
import Sponge.Reassembler.InOrder
import Sponge.Sender.Model
import Sponge.Sender.Emission
import Sponge.Sender.Outstanding
import Sponge.Sender.Segments
import Sponge.Sender.Transmission
import Sponge.Sender.Progress
import Sponge.Sender.WindowEdge
import Sponge.Sender.Timer
import Sponge.Sender.Accounts
import Sponge.Sender.FullWindow
import Sponge.Sender.ImpossibleAck
import Sponge.Sender.Summary
import Sponge.Receiver.Model
import Sponge.Receiver.Segment
import Sponge.Receiver.Tracking
import Sponge.Receiver.PeerStream
import Sponge.Receiver.EndOfStream
import Sponge.Receiver.StraySegment
import Sponge.TcpState
import Sponge.Connection.Model
import Sponge.Connection.Sends
import Sponge.Connection.Accounts
import Sponge.Connection.OutboundClose
import Sponge.Connection.OutboundEnd
import Sponge.Connection.Acknowledged
import Sponge.Connection.AdvertisedWindow
import Sponge.Connection.WindowUpdate
import Sponge.Connection.Closed
import Sponge.Connection.Linger
import Sponge.Connection.Reset
import Sponge.Connection.Listen
import Sponge.Connection.Abort
import Sponge.Connection.OfficialState
import Sponge.Connection.Owner
import Sponge.Network.Model
import Sponge.Network.Direction
import Sponge.Network.Position
import Sponge.Network.Delivery
import Sponge.Network.Completion
import Sponge.Network.CleanEnd
import Sponge.Codec.Parser
import Sponge.Codec.Buffer
import Sponge.Codec.Checksum
import Sponge.Codec.ChecksumField
import Sponge.Codec.Arp
import Sponge.Codec.Ethernet
import Sponge.Codec.Ipv4
import Sponge.Codec.Ipv4Accept
import Sponge.Codec.Ipv4RoundTrip
import Sponge.Codec.Ipv4Fits
import Sponge.Codec.Tcp
import Sponge.Codec.TcpRoundTrip
import Sponge.Codec.Bounds
import Sponge.Interface.Model
import Sponge.Interface.Queue
import Sponge.Interface.After
import Sponge.Interface.Mappings
import Sponge.Interface.Wire
import Sponge.Interface.LatestSender
import Sponge.Interface.Neighbours
import Sponge.Interface.RequestRate
import Sponge.Router.Model
import Sponge.Router.LongestMatch
import Sponge.Router.Forwarding
import Sponge.Router.Calls
import Sponge.Interface.Link
import Sponge.Interface.Ether
import Sponge.Router.Passing
import Sponge.Simulator.Model
import Sponge.Simulator.Rounds
import Sponge.Simulator.Delivery
import Sponge.Simulator.Program
import Sponge.System.FileDescriptor
import Sponge.System.EventLoop
import Sponge.System.EventLog
import Sponge.Apps.StreamCopy
import Sponge.Adapter.Model
import Sponge.Adapter.Lawful
import Sponge.Adapter.Ethernet
import Sponge.Adapter.Peer
import Sponge.Socket.Model
import Sponge.Socket.Events
import Sponge.Socket.Loop
import Sponge.Socket.Pair
import Sponge.Socket.Transfer
