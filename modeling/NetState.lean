import NetState.Config
import NetState.Exchange
import NetState.Inventory.Subscription
import NetState.Object.Wire
import NetState.Peer.Answer
import NetState.Proofs.Attribute.Prefix
import NetState.Proofs.Attribute.Tree
import NetState.Proofs.Datagram
import NetState.Proofs.Exchange.Assembly
import NetState.Proofs.Exchange.Correlation
import NetState.Proofs.Exchange.Interruption
import NetState.Proofs.Inventory.Reconcile
import NetState.Proofs.Inventory.Share
import NetState.Proofs.Object.Canonical
import NetState.Proofs.Object.Insertion
import NetState.Proofs.Object.Satisfaction
import NetState.Proofs.Peer.Allocation
import NetState.Proofs.Peer.Integrity
import NetState.Proofs.Peer.Refuse
import NetState.Proofs.Session.Announcement
import NetState.Proofs.Session.Numbering
import NetState.Proofs.Session.Overrun
import NetState.Proofs.Session.Removal
import NetState.Proofs.Session.Search
import NetState.Proofs.Session.Sequence
import NetState.Proofs.Session.Sync
import NetState.Proofs.Spelling
import NetState.Proofs.Text.Action
import NetState.Proofs.Text.Discipline
import NetState.Session.Run
import NetState.Support.Probe
import NetState.Proofs.Backoff
