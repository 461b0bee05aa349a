import CidrCover.Main
import CidrCover.Proofs.Aggregation.Addresses
import CidrCover.Proofs.Aggregation.Budget
import CidrCover.Proofs.Aggregation.ClosedForm
import CidrCover.Proofs.Aggregation.Composition
import CidrCover.Proofs.Aggregation.Entries
import CidrCover.Proofs.Aggregation.Independence
import CidrCover.Proofs.Aggregation.Output
import CidrCover.Proofs.Aggregation.Soundness
import CidrCover.Proofs.CommandLine.Outcome
import CidrCover.Proofs.Config.Artifact
import CidrCover.Proofs.Config.Build
import CidrCover.Proofs.Config.Check
import CidrCover.Proofs.Config.Document
import CidrCover.Proofs.Prefix.BitString
import CidrCover.Proofs.Prefix.Printed
import CidrCover.Proofs.Reduction.Cost
import CidrCover.Proofs.Reduction.Steps
import CidrCover.Proofs.Reduction.Walking
import CidrCover.Proofs.Session
import CidrCover.Proofs.Terraform.Locals
import CidrCover.Proofs.Text.Grouped
import CidrCover.Proofs.Trie.Integrity
import CidrCover.Proofs.Trie.Runs
import CidrCover.Session
