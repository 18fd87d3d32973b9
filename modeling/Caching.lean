import Caching.Session.Run
import Caching.Proofs.Linked.Chain
import Caching.Proofs.Linked.SharedPool
import Caching.Proofs.Linked.Sequence
import Caching.Proofs.Linked.Slots
import Caching.Proofs.Linked.NumberedList
import Caching.Proofs.Bounded.Keyed
import Caching.Proofs.Bounded.Ordered
import Caching.Proofs.Bounded.Layers
import Caching.Proofs.Bounded.Frequency
import Caching.Proofs.Bounded.Ranking
import Caching.Proofs.Bounded.FrequencyRuns
import Caching.Proofs.Bounded.Saturation
import Caching.Proofs.Bounded.Accounts
import Caching.Proofs.Bounded.HighWater
import Caching.Proofs.Bounded.Eviction
import Caching.Proofs.Bounded.Footprint
import Caching.Proofs.Bounded.Arrival
import Caching.Proofs.Striped
import Caching.Proofs.Caches.Release
import Caching.Proofs.Caches.Isolation
import Caching.Proofs.Directory.Errand
import Caching.Proofs.Directory.Run
import Caching.Proofs.Directory.Refusal
import Caching.Proofs.Directory.Ledger
import Caching.Proofs.Caches.Alike
import Caching.Proofs.Caches.Apart
import Caching.Proofs.Directory.Separation
import Caching.Proofs.Bounded.Scan
import Caching.Proofs.Bounded.Stack
import Caching.Proofs.Bounded.OrderedChecked
import Caching.Proofs.Bounded.Coherence
import Caching.Proofs.Caches.IfAbsent
import Caching.Proofs.Caches.Losses
import Caching.Proofs.Directory.Backing
import Caching.Proofs.Linked.Walk
import Caching.Proofs.Bounded.Iteration
