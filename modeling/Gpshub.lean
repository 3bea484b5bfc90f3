import Gpshub.Lib.Machine
import Gpshub.Lib.Directory
import Gpshub.Lib.Framing
import Gpshub.Lib.Handover
import Gpshub.Lib.Channel
import Gpshub.Lib.Fifo
import Gpshub.Lib.Monitor
import Gpshub.Thread.BlockingQueue
import Gpshub.Util.CircularBuffer
import Gpshub.Util.RingCalls
import Gpshub.Util.RingBounds
import Gpshub.Util.RingCounts
import Gpshub.Lib.Fields
import Gpshub.Server.BuddyLists
import Gpshub.Client.CmdChannel
import Gpshub.Hub.Listing
import Gpshub.Hub.Edits
import Gpshub.Hub.Datagrams
import Gpshub.Hub.Effects
import Gpshub.Hub.WellFormed
import Gpshub.Hub.Maps
import Gpshub.Hub.Ownership
import Gpshub.Hub.Pending
import Gpshub.Hub.Acts
import Gpshub.Hub.Clients
import Gpshub.Hub.Chronicle
import Gpshub.Hub.Broadcast
import Gpshub.Hub.Relay
import Gpshub.Hub.Addresses
import Gpshub.Hub.BuddiesIds
import Gpshub.Hub.Gathering
import Gpshub.Hub.Reply
import Gpshub.Hub.Wire
import Gpshub.Hub.Veil
import Gpshub.Hub.Secrecy
import Gpshub.Hub.Exceptions
import Gpshub.Server.Receive
import Gpshub.Server.Framing
import Gpshub.Server.Streams
import Gpshub.Server.StreamBounds
import Gpshub.Server.StreamBytes
import Gpshub.Server.StreamPrivacy
import Gpshub.Server.GpsLoop
import Gpshub.Socket.Epoll
import Gpshub.Server.Callbacks
import Gpshub.Delivery.Machine
import Gpshub.Delivery.Conservation
import Gpshub.Delivery.Order
import Gpshub.Delivery.Whole
import Gpshub.Delivery.Writability
import Gpshub.Delivery.Hub
import Gpshub.Threads.State
import Gpshub.Threads.Step
import Gpshub.Threads.Moves
import Gpshub.Threads.Effects
import Gpshub.Threads.Consistent
import Gpshub.Threads.Pointers
import Gpshub.Threads.Handover
import Gpshub.Threads.Authorisation
import Gpshub.Threads.Positions
import Gpshub.Threads.Shutdown
import Gpshub.Threads.Faults
import Gpshub.Threads.Lifetime
import Gpshub.Hub.Nameable
import Gpshub.Hub.IdCycle
import Gpshub.Socket.EpollLoop
import Gpshub.Socket.EpollSize
import Gpshub.Hub.SendFailures
import Gpshub.Client.Agreement
import Gpshub.Delivery.Heap
import Gpshub.Lib.Solo
import Gpshub.Threads.Alone
import Gpshub.Lib.Rank
import Gpshub.Lib.RwLock
import Gpshub.Socket.EpollStop
import Gpshub.Thread.MapCalls
import Gpshub.Thread.HandleStop
import Gpshub.Threads.Backlog
import Gpshub.Client.Positions
import Gpshub.Client.Completion
import Gpshub.Hub.Receivers
import Gpshub.Hub.Bystanders
import Gpshub.Server.Containment
