import SoftDelete.Main
import SoftDelete.Proofs.Bounds.Frame
import SoftDelete.Proofs.Coherence
import SoftDelete.Proofs.Containment
import SoftDelete.Proofs.Coverage.Skips
import SoftDelete.Proofs.Coverage.Statement
import SoftDelete.Proofs.Depth
import SoftDelete.Proofs.Guard
import SoftDelete.Proofs.Idempotence
import SoftDelete.Proofs.Isolation.Level
import SoftDelete.Proofs.Isolation.Renaming
import SoftDelete.Proofs.Join.Completeness
import SoftDelete.Proofs.Join.Groups
import SoftDelete.Proofs.Join.Placement
import SoftDelete.Proofs.Join.Regrouping
import SoftDelete.Proofs.Join.Sides
import SoftDelete.Proofs.Join.Soundness
import SoftDelete.Proofs.Lines
import SoftDelete.Proofs.Merging
import SoftDelete.Proofs.Naming
import SoftDelete.Proofs.Origin
import SoftDelete.Proofs.Regapping
import SoftDelete.Proofs.Sql.Between
import SoftDelete.Proofs.Sql.Partition
import SoftDelete.Proofs.Suppression
import SoftDelete.Proofs.Union.Level
