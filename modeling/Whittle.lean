import Whittle.Deed
import Whittle.Main
import Whittle.Proofs.Archive.Atomic
import Whittle.Proofs.Modes
import Whittle.Proofs.Checks
import Whittle.Proofs.Rollback
import Whittle.Proofs.Settings
import Whittle.Proofs.History
import Whittle.Proofs.Search.Termination
import Whittle.Proofs.Simplification
import Whittle.Proofs.Forest
import Whittle.Proofs.Lines
import Whittle.Proofs.Waiting
