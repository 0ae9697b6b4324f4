import Altus.Library.Serial
import Altus.Library.Runs
import Altus.Library.Chain
import Altus.Library.Bytes
import Altus.Construction.Machine
import Altus.Construction.UBList
import Altus.Construction.WindowedQueue
import Altus.Construction.NodeBase
import Altus.Construction.FileReceiveStream
import Altus.Proof.UBList
import Altus.Proof.Window.Nodes
import Altus.Proof.Window.Copy
import Altus.Proof.Window.Advance
import Altus.Proof.Window.View
import Altus.Proof.Window.Put
import Altus.Proof.Window.Deliver
import Altus.Proof.Window.Pop
import Altus.Proof.Window.Read
import Altus.Proof.Window.Initial
import Altus.Proof.Window.Sequencing
import Altus.Proof.Window.Fifo
import Altus.Proof.Window.Reassembly
import Altus.Library.Owners
import Altus.Proof.FileStream.Owners
import Altus.Proof.FileStream.Append
import Altus.Proof.FileStream.Separation
import Altus.Proof.FileStream.Unsequenced
import Altus.Proof.FileStream.Reception
import Altus.Construction.Channel
import Altus.Construction.Peer
import Altus.Construction.PrePeer
import Altus.Construction.Host
import Altus.Proof.Window.Peek
import Altus.Proof.Sender.Packet
import Altus.Proof.Sender.Tiling
import Altus.Proof.Sender.Release
import Altus.Proof.UBInsertion
import Altus.Library.Doubly
import Altus.Proof.FileStream.Pool
import Altus.Proof.Host.Calls
import Altus.Proof.Host.Attempts
import Altus.Proof.Host.KeyTransfer
import Altus.Proof.Host.PeerTables
import Altus.Proof.Host.Pending
import Altus.Proof.Host.Retry
import Altus.Proof.Sender.RoundTrip
import Altus.Proof.Window.Cursor
import Altus.Proof.Window.InOrder
import Altus.Proof.Window.Refusal
import Altus.Proof.Window.Sharing
import Altus.Proof.FileStream.CheckUB
import Altus.Proof.FileStream.Merging
import Altus.Proof.FileStream.Canonical
import Altus.Proof.Receiver.Payload
import Altus.Proof.Receiver.Acknowledgement
import Altus.Proof.Receiver.Endings
import Altus.Proof.Host.Handshake
import Altus.Proof.Host.Promotion
import Altus.Proof.Host.KeyPages
import Altus.Proof.Window.Surplus
import Altus.Proof.Peer.NewChannel
import Altus.Library.Network
import Altus.Proof.Peer.Directory
import Altus.Construction.Network
import Altus.Proof.Host.Sends
import Altus.Proof.Network.Forms
import Altus.Proof.Network.Causes
import Altus.Proof.Network.Agreement
import Altus.Proof.Network.Channels
import Altus.Proof.Transfer.Delivery
import Altus.Proof.Transfer.Completion
import Altus.Proof.Network.Lines
import Altus.Proof.Window.Lanes
import Altus.Construction.Destruction
import Altus.Proof.Peer.Windows
import Altus.Proof.Host.Nodes
import Altus.Proof.FileStream.ChainCalls
import Altus.Proof.FileStream.OneNode
import Altus.Proof.FileStream.NodeChain
import Altus.Proof.FileStream.Anchored
import Altus.Proof.Receiver.Returning
