import NetworkLayers.Common
import NetworkLayers.Lib.Transition
import NetworkLayers.Lib.Cells
import NetworkLayers.Net.Frag
import NetworkLayers.Net.NetList
import NetworkLayers.Lemmas.NetList
import NetworkLayers.Theorems.Isolation
import NetworkLayers.Lib.Tiling
import NetworkLayers.Net.Routes
import NetworkLayers.Net.Send
import NetworkLayers.Lemmas.Frag
import NetworkLayers.Theorems.FragTiles
import NetworkLayers.Lemmas.Reassembly
import NetworkLayers.Theorems.Reassembly
import NetworkLayers.Theorems.Duplicates
import NetworkLayers.Lib.Walk
import NetworkLayers.Net.RouteNet
import NetworkLayers.Theorems.Routing
import NetworkLayers.Theorems.Neighbours
import NetworkLayers.Net.Forward
import NetworkLayers.Theorems.Ttl
import NetworkLayers.Theorems.Mtu
import NetworkLayers.Lib.Bytes
import NetworkLayers.Lemmas.Checksum
import NetworkLayers.Link.Frame
import NetworkLayers.Theorems.Link
import NetworkLayers.Transport.Lists
import NetworkLayers.Transport.ServicePoint
import NetworkLayers.Transport.Session
import NetworkLayers.Lemmas.Session
import NetworkLayers.Theorems.Handshake
import NetworkLayers.Lemmas.Lists
import NetworkLayers.Theorems.AckRecovery
import NetworkLayers.Lemmas.Assembly
import NetworkLayers.Lemmas.Stream
import NetworkLayers.Theorems.Close
import NetworkLayers.Lemmas.Acks
import NetworkLayers.Theorems.Reliable
import NetworkLayers.Net.PacketStream
import NetworkLayers.Theorems.IdReuse
import NetworkLayers.Transport.Point
import NetworkLayers.Theorems.Intruder
import NetworkLayers.Transport.Locks
import NetworkLayers.Theorems.Locks
import NetworkLayers.Transport.Reuse
import NetworkLayers.Theorems.Reuse
import NetworkLayers.Lib.Framing
import NetworkLayers.Application.Transfer
import NetworkLayers.Lemmas.Transfer
import NetworkLayers.Theorems.Transfer
import NetworkLayers.Lib.Fifo
import NetworkLayers.Net.SendQueue
import NetworkLayers.Theorems.SendQueue
import NetworkLayers.Lib.Mailbox
import NetworkLayers.Transport.Mailboxes
import NetworkLayers.Theorems.Mailboxes
import NetworkLayers.Theorems.ReceiveWindow
import NetworkLayers.Theorems.NextSeqNum
import NetworkLayers.Theorems.SlidingWindow
import NetworkLayers.Lib.Reorder
import NetworkLayers.Theorems.SegLists
import NetworkLayers.Lib.Layout
import NetworkLayers.Net.Wire
import NetworkLayers.Transport.Wire
import NetworkLayers.Theorems.Codecs
import NetworkLayers.Net.Receive
import NetworkLayers.Lemmas.Completion
import NetworkLayers.Theorems.Decoders
import NetworkLayers.Net.RouteSwitch
import NetworkLayers.Theorems.RouteEncoding
import NetworkLayers.Lib.Grid
import NetworkLayers.Config.Tables
import NetworkLayers.Application.LinkMenu
import NetworkLayers.Theorems.LinkMenu
import NetworkLayers.Theorems.WindowArithmetic
import NetworkLayers.Transport.Node
import NetworkLayers.Theorems.TableIndices
import NetworkLayers.Lib.Scan
import NetworkLayers.Config.Parser
import NetworkLayers.Config.Lines
import NetworkLayers.Config.Reader
import NetworkLayers.Lemmas.Parser
import NetworkLayers.Theorems.ParsedNumbers
import NetworkLayers.Theorems.HostLookup
import NetworkLayers.Theorems.ParserSafety
import NetworkLayers.Application.Listener
import NetworkLayers.Lemmas.Listener
import NetworkLayers.Theorems.PeerFraming
import NetworkLayers.Theorems.ErrorLoops
import NetworkLayers.Lib.DistanceVector
import NetworkLayers.Theorems.Convergence
import NetworkLayers.Theorems.FixedLinks
import NetworkLayers.Lib.FaultyChannel
import NetworkLayers.Link.Garbler
import NetworkLayers.Theorems.GarbledLink
import NetworkLayers.Net.RouteWire
import NetworkLayers.Net.Stack
import NetworkLayers.Lemmas.Whole
import NetworkLayers.Lemmas.Stack
import NetworkLayers.Theorems.Stack
import NetworkLayers.Theorems.StackDelivery
import NetworkLayers.Lib.Workers
import NetworkLayers.Transport.HostThreads
import NetworkLayers.Lemmas.HostThreads
import NetworkLayers.Theorems.HostThreads
import NetworkLayers.Theorems.Restart
import NetworkLayers.Transport.Connection
import NetworkLayers.Lemmas.Outgoing
import NetworkLayers.Lemmas.Connection
import NetworkLayers.Lemmas.NoWrap
import NetworkLayers.Theorems.Connection
import NetworkLayers.Lemmas.Progress
import NetworkLayers.Theorems.LostAck
import NetworkLayers.Lemmas.Carrying
import NetworkLayers.Theorems.ConnectionProgress
import NetworkLayers.Application.Exchange
import NetworkLayers.Theorems.Exchange
