import SimpleChubby.Lib.Prog
import SimpleChubby.Lib.Lts
import SimpleChubby.Lib.SqlText
import SimpleChubby.Lib.UMap
import SimpleChubby.Lib.Chunks
import SimpleChubby.Lib.Separated
import SimpleChubby.DirContent
import SimpleChubby.PathName
import SimpleChubby.Session.MsgSock
import SimpleChubby.Session.Stream
import SimpleChubby.Session.Registry
import SimpleChubby.Session.LiveSessions
import SimpleChubby.ServerDb.Basic
import SimpleChubby.Leader.Handles
import SimpleChubby.Leader.Queue
import SimpleChubby.Leader.Replies
import SimpleChubby.ServerDb.Tree
import SimpleChubby.Leader.Frame
import SimpleChubby.ServerDb.Locks
import SimpleChubby.Leader.Locks
import SimpleChubby.Leader.Mutex
import SimpleChubby.Leader.Assertions
import SimpleChubby.Paxos.Cluster
import SimpleChubby.Paxos.Moves
import SimpleChubby.Paxos.Agreement
import SimpleChubby.Paxos.Durability
import SimpleChubby.Paxos.SingleLeader
import SimpleChubby.Paxos.Atomicity
import SimpleChubby.Leader.NameSpace
import SimpleChubby.Leader.Authentication
import SimpleChubby.ServerDb.Calls
import SimpleChubby.ServerDb.ReadBack
import SimpleChubby.ServerDb.Exclusion
import SimpleChubby.ServerDb.Wire
import SimpleChubby.ServerDb.Incarnations
import SimpleChubby.ServerDb.Generations
import SimpleChubby.ServerDb.Failure
import SimpleChubby.ServerDb.Counts
import SimpleChubby.ServerDb.Selection
import SimpleChubby.Leader.Recipients
import SimpleChubby.Leader.Subscriptions
import SimpleChubby.Leader.Departure
import SimpleChubby.Leader.Disconnect
import SimpleChubby.Paxos.Replay
import SimpleChubby.Paxos.Views
import SimpleChubby.Leader.Recovery
import SimpleChubby.Client.ChubbyClient
import SimpleChubby.Client.Requests
import SimpleChubby.Client.Replies
import SimpleChubby.Client.Reconnect
import SimpleChubby.Leader.EventLists
import SimpleChubby.Leader.Ephemerals
import SimpleChubby.Leader.ContentEvents
import SimpleChubby.Leader.OpenFiles
import SimpleChubby.Client.Backup
import SimpleChubby.Client.Failover
import SimpleChubby.Paxos.ViewChange
import SimpleChubby.Paxos.Promotion
import SimpleChubby.Leader.Closing
import SimpleChubby.Leader.Snapshot
import SimpleChubby.ServerDb.Unreliable
import SimpleChubby.Leader.Waiting
import SimpleChubby.Lib.LockTrace
import SimpleChubby.Paxos.ReplicaClients
import SimpleChubby.ServerDb.Transactions
import SimpleChubby.ServerDb.Checksum
import SimpleChubby.Leader.Purge
import SimpleChubby.ServerDb.Quiet
import SimpleChubby.Leader.Refusal
import SimpleChubby.Lib.Buffer
import SimpleChubby.Lib.SlotTable
import SimpleChubby.Xdr.Endian
import SimpleChubby.Xdr.Archive
import SimpleChubby.Xdr.Traits
import SimpleChubby.Xdr.Format
import SimpleChubby.Xdr.Marshal
import SimpleChubby.Rpc.RpcMsg
import SimpleChubby.Rpc.Headers
import SimpleChubby.Rpc.Dispatch
import SimpleChubby.Leader.Results
import SimpleChubby.Rpc.ServerApi
import SimpleChubby.Rpc.Messages
import SimpleChubby.Rpc.WireServer
import SimpleChubby.Rpc.Synchronous
import SimpleChubby.Rpc.Calls
import SimpleChubby.ServerDb.Bytes
import SimpleChubby.Paxos.Wire
import SimpleChubby.Paxos.Replicated
import SimpleChubby.Session.Input
import SimpleChubby.Session.Stall
import SimpleChubby.Session.Pollset
import SimpleChubby.Session.Polling
