import CacheCoherence.Table
import CacheCoherence.Json.Printer
import CacheCoherence.Json.Parser
import CacheCoherence.Json.Reader
import CacheCoherence.Text.Quoted
import CacheCoherence.KeyNames
import CacheCoherence.Glob
import CacheCoherence.Rules
import CacheCoherence.DependencyList
import CacheCoherence.Slots
import CacheCoherence.Program
import CacheCoherence.Metrics
import CacheCoherence.Memory
import CacheCoherence.Cache.Read
import CacheCoherence.Cache.Save
import CacheCoherence.Cache.Delete
import CacheCoherence.Server.Exchange
import CacheCoherence.Remote.Store
import CacheCoherence.Catalogue
import CacheCoherence.Session
import CacheCoherence.Proofs.Library.SavedValues
import CacheCoherence.Proofs.UnbrokenLock
import CacheCoherence.Proofs.ReadAfterWrite.Item
import CacheCoherence.Proofs.ReadAfterWrite.Collection
import CacheCoherence.Proofs.Memory.Tombstones
import CacheCoherence.Proofs.Library.Deletions
import CacheCoherence.Proofs.Library.DeletedOwners
import CacheCoherence.Proofs.Server.Writes
import CacheCoherence.Proofs.Remote.Mirror
import CacheCoherence.Proofs.Remote.Plan
import CacheCoherence.Proofs.Remote.Observed
import CacheCoherence.Proofs.Remote.Transactions
import CacheCoherence.Proofs.Remote.Decisions
import CacheCoherence.Proofs.Remote.Atomicity
import CacheCoherence.Proofs.Server.Scan
import CacheCoherence.Proofs.Remote.Alone
import CacheCoherence.Proofs.Remote.Refinement
import CacheCoherence.Proofs.KeyNames
import CacheCoherence.Proofs.Library.RenamedItems
import CacheCoherence.Proofs.Cache.Stale
import CacheCoherence.Proofs.Library.WellRead
import CacheCoherence.Proofs.Cache.Stored
import CacheCoherence.Proofs.Cache.Unsaved
import CacheCoherence.Proofs.Memory.Contention
import CacheCoherence.Proofs.Library.ReleasedTokens
import CacheCoherence.Proofs.ListLifetimes
import CacheCoherence.Proofs.Memory.Expiry
import CacheCoherence.Proofs.Library.HandedOver
import CacheCoherence.Proofs.Library.AnsweredReads
import CacheCoherence.Proofs.Library.BatchReads
import CacheCoherence.Proofs.Remote.FlushRaces
import CacheCoherence.Proofs.Turns
import CacheCoherence.Proofs.SlotEffects
import CacheCoherence.Proofs.Library.CleanUps
import CacheCoherence.Proofs.Remote.FlushReach
import CacheCoherence.Proofs.Library.NamespaceFlush
import CacheCoherence.Proofs.Deeds
import CacheCoherence.Proofs.Library.Bills
import CacheCoherence.Proofs.Library.CallOrder
import CacheCoherence.Proofs.Library.MetricsAccount
import CacheCoherence.Proofs.Memory.Notifications
import CacheCoherence.Proofs.MergedLists
import CacheCoherence.Proofs.ReadLockPaths
