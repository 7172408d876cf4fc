import JetPeer.Chunking
import JetPeer.Accounting
import JetPeer.Answers
import JetPeer.Malformed
import JetPeer.Roundtrip
import JetPeer.Daemon
import JetPeer.Isolation
import JetPeer.Survival
import JetPeer.Restore
import JetPeer.Notifications
import JetPeer.OwnerRole
import JetPeer.RemoteCalls
import JetPeer.Rollback
import JetPeer.Losses
import JetPeer.Deferred
import JetPeer.StopLoop
import JetPeer.Reentry
import JetPeer.Mutexes
import JetPeer.Forms
import JetPeer.Diagnostics
import JetPeer.Mock
import JetPeer.Cache
import JetPeer.Waiting
import JetPeer.Buffers
import JetPeer.Agreement
import JetPeer.SelfCalls
import JetPeer.Callbacks
import JetPeer.Relay
import JetPeer.Equality
import JetPeer.Network
import JetPeer.Flight
import JetPeer.Clients
import JetPeer.Freshness
import JetPeer.History
import JetPeer.Convergence
