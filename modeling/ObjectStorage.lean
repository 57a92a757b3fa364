import ObjectStorage.CommandLine.Run
import ObjectStorage.Http.Loopback
import ObjectStorage.Http.Script
import ObjectStorage.Main
import ObjectStorage.Proofs.Hedging.Budget
import ObjectStorage.Proofs.Hedging.Conduct
import ObjectStorage.Proofs.Listing.Answers
import ObjectStorage.Proofs.Retry.Writes
import ObjectStorage.Proofs.S3.BucketListings
import ObjectStorage.Proofs.S3.Progress
import ObjectStorage.Proofs.Store.Completeness
import ObjectStorage.Proofs.Store.PageChains
import ObjectStorage.Store.Faults
import ObjectStorage.Text.Lossy
import ObjectStorage.Proofs.Hedging.Workload
import ObjectStorage.Proofs.Hedging.Endings
import ObjectStorage.Proofs.Clients.Accesses
import ObjectStorage.Proofs.Hedging.Outcomes
import ObjectStorage.Proofs.Clients.Traffic
import ObjectStorage.Proofs.Clients.Linearization
import ObjectStorage.Proofs.Clients.Effects
import ObjectStorage.Proofs.Retry.Transparency
import ObjectStorage.Proofs.Hedging.Agreement
import ObjectStorage.Proofs.Hedging.Likeness
import ObjectStorage.Proofs.Hedging.Independence
import ObjectStorage.Proofs.S3.Coverage
import ObjectStorage.Proofs.Work.Accounts
import ObjectStorage.Proofs.Hedging.Ledgers
import ObjectStorage.Proofs.Clients.Receipts
import ObjectStorage.Proofs.Clients.Chores
import ObjectStorage.Proofs.Config.Redaction
import ObjectStorage.Proofs.Config.Reloading
import ObjectStorage.Proofs.S3.Sweeps
import ObjectStorage.Proofs.Retry.Backoff
import ObjectStorage.Proofs.Retry.Trials
import ObjectStorage.Proofs.Retry.Permissiveness
import ObjectStorage.Proofs.Hedging.Punctual
import ObjectStorage.Proofs.Hedging.Pace
import ObjectStorage.Proofs.Listing.Termination
import ObjectStorage.Proofs.Store.PageShapes
import ObjectStorage.Proofs.Store.Descents
import ObjectStorage.Proofs.Http.Middleware
import ObjectStorage.Proofs.Config.Validity
import ObjectStorage.Proofs.Text.CanonicalSpellings
import ObjectStorage.Proofs.Config.BucketNames
import ObjectStorage.Proofs.S3.Readings
import ObjectStorage.Proofs.Http.Bridging
