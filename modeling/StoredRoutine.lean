import StoredRoutine.Engine.Start
import StoredRoutine.Engine.Transaction
import StoredRoutine.Engine.Triggers
import StoredRoutine.Json.Access
import StoredRoutine.Lifetime.CleanupProgram
import StoredRoutine.Options
import StoredRoutine.Proofs.Lifetime.Custody
import StoredRoutine.Proofs.Marshal.RoundTrip
import StoredRoutine.Proofs.Marshal.Typed
import StoredRoutine.Proofs.Host.Runs
import StoredRoutine.Proofs.Engine.Isolation
import StoredRoutine.Proofs.Engine.Poison
import StoredRoutine.Proofs.Engine.Routines
import StoredRoutine.Proofs.Engine.Sessions
import StoredRoutine.Proofs.Engine.Validation
import StoredRoutine.Proofs.Engine.ReadOnly
import StoredRoutine.Proofs.Lifetime.Draining
import StoredRoutine.Proofs.Host.Openings
import StoredRoutine.Proofs.Engine.Iterators
import StoredRoutine.Proofs.Engine.Delivery
import StoredRoutine.Proofs.Engine.Expired
import StoredRoutine.Proofs.Engine.Failing
import StoredRoutine.Proofs.Engine.Interleaving
import StoredRoutine.Proofs.Engine.Pending
import StoredRoutine.Proofs.Engine.Relations
import StoredRoutine.Proofs.Engine.Released
import StoredRoutine.Proofs.Engine.BeforeRow
import StoredRoutine.Proofs.Datum.Subscripts
import StoredRoutine.Proofs.Datum.RowMajor
import StoredRoutine.Proofs.Datum.Dense
import StoredRoutine.Proofs.Datum.Range
import StoredRoutine.Proofs.Marshal.Chains
import StoredRoutine.Proofs.Marshal.Tables
import StoredRoutine.Proofs.Datum.Size
import StoredRoutine.Proofs.Marshal.Narrow
import StoredRoutine.Proofs.Marshal.Image
import StoredRoutine.Proofs.Marshal.Modifiers
import StoredRoutine.Proofs.Marshal.RowArrays
import StoredRoutine.Proofs.Datum.Decimals
import StoredRoutine.Proofs.Marshal.Documents
import StoredRoutine.Proofs.Datum.Reading
import StoredRoutine.Proofs.Marshal.Words
import StoredRoutine.Proofs.Marshal.Limits
import StoredRoutine.Proofs.Host.Targets
import StoredRoutine.Proofs.Marshal.Entries
import StoredRoutine.Proofs.Engine.Relayed
import StoredRoutine.Proofs.Catalog.Links
import StoredRoutine.Proofs.Marshal.Retyped
import StoredRoutine.Proofs.Routine.Header
import StoredRoutine.Proofs.Engine.Exchange
import StoredRoutine.Proofs.Lifetime.Generations
import StoredRoutine.Proofs.Catalog.Lookups
import StoredRoutine.Proofs.Engine.Parameters
import StoredRoutine.Proofs.Datum.Bytes
