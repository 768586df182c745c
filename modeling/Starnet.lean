import Starnet.Clusterd.Answers
import Starnet.Core.Drain
import Starnet.Core.Exclusion
import Starnet.Core.Locks
import Starnet.Core.Monitor
import Starnet.Core.Overload
import Starnet.Core.Producer
import Starnet.Core.Shutdown
import Starnet.Core.Sleep
import Starnet.Host.Errors
import Starnet.Host.Exchange
import Starnet.Host.Origin
import Starnet.Host.Session
import Starnet.Netpack.Dispatch
import Starnet.Netpack.Fifo
import Starnet.Seri.RoundTrip
import Starnet.Sharedata.Convert
import Starnet.Sharedata.Store
import Starnet.Socket.Armed
import Starnet.Socket.Attempts
import Starnet.Socket.Backlog
import Starnet.Socket.Closing
import Starnet.Socket.Datagram
import Starnet.Socket.Event
import Starnet.Socket.Handover
import Starnet.Socket.Introduction
import Starnet.Socket.Linger
import Starnet.Socket.Ordering
import Starnet.Socket.Ownership
import Starnet.Socket.Posts
import Starnet.Socket.ReadBuffer
import Starnet.Socket.Receive
import Starnet.Socket.Registration
import Starnet.Socket.Retention
import Starnet.Socket.Warnings
import Starnet.Socket.WriteEvent
import Starnet.Timer.Update
import Starnet.Lib.Outcome
import Starnet.Seri.Depth
import Starnet.Seri.Follow
import Starnet.Seri.PackString
import Starnet.Seri.Truncation
import Starnet.Seri.Reencode
import Starnet.Core.Send
import Starnet.Host.Calling
import Starnet.Host.Forks
import Starnet.Lib.Acyclic
import Starnet.Sharedata.Box
import Starnet.Sharedata.Publish
import Starnet.Clusterd.Names
import Starnet.Clusterd.Replies
import Starnet.Clusterd.Results
import Starnet.Core.Names
import Starnet.Sharedata.Dirty
import Starnet.Lib.Decimal
import Starnet.Core.Config
import Starnet.Core.Actors
import Starnet.Core.Fairness
import Starnet.Clusterd.Waiting
import Starnet.Timer.Clock
import Starnet.Socket.Exit
import Starnet.Netpack.Link
import Starnet.Netpack.Memory
import Starnet.Host.Conversation
import Starnet.Seri.Pairs
import Starnet.Sharedata.Subscribe
