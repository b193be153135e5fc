import Resemblance.Main
import Resemblance.Proofs.Entries
import Resemblance.Proofs.Ledger.Recording
import Resemblance.Proofs.Ledger.Counters
import Resemblance.Proofs.Region.Expansion
import Resemblance.Proofs.Region.Grouping
import Resemblance.Proofs.Region.OfLedger
import Resemblance.Proofs.Index
import Resemblance.Proofs.Ledger.Ascending
import Resemblance.Proofs.Classify.Marks
import Resemblance.Proofs.Classify.Sources
import Resemblance.Proofs.Classify.Verdict
import Resemblance.Proofs.Region.Evidence
import Resemblance.Proofs.Classify.Mutual
import Resemblance.Proofs.Region.Runs
import Resemblance.Proofs.Tree.Agreement
import Resemblance.Proofs.Tree.Change
import Resemblance.Proofs.Corpus.Discovery
import Resemblance.Proofs.Corpus.Stable
import Resemblance.Proofs.Run.Course
import Resemblance.Proofs.Run.Faults
import Resemblance.Proofs.Json.Literals
import Resemblance.Proofs.Json.RoundTrip
import Resemblance.Proofs.Region.Format
import Resemblance.Proofs.Run.Outputs
import Resemblance.Proofs.Run.Order
import Resemblance.Proofs.Run.Failures
import Resemblance.Proofs.Tree.Place
import Resemblance.Proofs.Run.Isolation
import Resemblance.Proofs.Corpus.Identity
import Resemblance.Proofs.Ranking.Peers
import Resemblance.Proofs.Ledger.Ratchet
import Resemblance.Proofs.Ledger.Confluence
import Resemblance.Proofs.Classify.Stricter
import Resemblance.Proofs.Region.Maximal
import Resemblance.Proofs.Region.Block
import Resemblance.Proofs.Ranking.Best
import Resemblance.Proofs.Ranking.Order
import Resemblance.Proofs.Ranking.Overall
import Resemblance.Proofs.Run.Reports
import Resemblance.Proofs.Classify.Reordered
import Resemblance.Proofs.Index.Grouped
import Resemblance.Proofs.Region.Presentation
import Resemblance.Proofs.Region.Idempotent
import Resemblance.Proofs.Region.Capped
import Resemblance.Proofs.Text.Words
import Resemblance.Proofs.Text.Numeral
import Resemblance.Proofs.Fingerprint
import Resemblance.Proofs.Diagnosis
import Resemblance.Proofs.Corpus.Listing
import Resemblance.Proofs.Corpus.Defects
import Resemblance.Proofs.Settings.Load
import Resemblance.Proofs.Run.Unrepaired
import Resemblance.Proofs.Ranking.Lines
import Resemblance.Proofs.Run.Rankings
