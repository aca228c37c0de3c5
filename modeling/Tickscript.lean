import Tickscript.Main
import Tickscript.Proofs.Alike
import Tickscript.Proofs.Bases
import Tickscript.Proofs.CommandLine
import Tickscript.Proofs.Documents.Canonical
import Tickscript.Proofs.Documents.Double
import Tickscript.Proofs.Documents.Forms
import Tickscript.Proofs.Documents.Headers
import Tickscript.Proofs.Documents.Interval
import Tickscript.Proofs.Documents.Limits
import Tickscript.Proofs.Documents.Truncated
import Tickscript.Proofs.Failure
import Tickscript.Proofs.Growth
import Tickscript.Proofs.Log
import Tickscript.Proofs.Openings
import Tickscript.Proofs.Strings
import Tickscript.Proofs.Spreading
import Tickscript.Proofs.Unambiguous
import Tickscript.Proofs.Units
