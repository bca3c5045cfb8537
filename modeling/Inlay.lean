import Inlay.Main
import Inlay.Session.Run
import Inlay.Hover.Script
import Inlay.Proofs.Scan.WholeScan
import Inlay.Proofs.Scan.Positions
import Inlay.Proofs.Scan.Comments
import Inlay.Proofs.Scan.Indentation
import Inlay.Proofs.Scan.Locality
import Inlay.Proofs.Scan.LineEndings
import Inlay.Proofs.Session.Serial
import Inlay.Proofs.Session.Blocks
import Inlay.Proofs.Session.Recorded
import Inlay.Proofs.Session.Probes
import Inlay.Proofs.Session.Provided
import Inlay.Proofs.Session.Isolation
import Inlay.Proofs.Session.OneDecorator
import Inlay.Proofs.Config.Faults
import Inlay.Proofs.Scan.Exhaustion
import Inlay.Proofs.Scan.Precedence
import Inlay.Proofs.Scan.ClosureGrammar
import Inlay.Proofs.Scan.MatchArmGrammar
import Inlay.Proofs.Scan.Parts
import Inlay.Proofs.Scan.PartNames
import Inlay.Proofs.Scan.Qualifier
import Inlay.Proofs.Scan.Keywords
import Inlay.Proofs.Scan.GroupLocal
import Inlay.Proofs.Session.LegalProbes
import Inlay.Proofs.Cli.Formats
import Inlay.Proofs.Config.Saved
