import SmallScript.Main
import SmallScript.Markup.Highlight
import SmallScript.Proofs.Evaluate.Compound
import SmallScript.Proofs.Evaluate.Rounds
import SmallScript.Proofs.Evaluate.Targets
import SmallScript.Proofs.Ide.Expiry
import SmallScript.Proofs.Inspect.Colours
import SmallScript.Proofs.Packages.Failures
import SmallScript.Proofs.Registry.Latest
import SmallScript.Proofs.Session.Isolation
import SmallScript.Proofs.Session.Printing
import SmallScript.Proofs.Session.Scopes
import SmallScript.Proofs.Syntax.Signs
import SmallScript.Proofs.Syntax.Swapped
import SmallScript.Proofs.Transpile.Grouping
import SmallScript.Proofs.Transpile.Pending
import SmallScript.Proofs.Machine.Chains
import SmallScript.Proofs.Markup.Escaping
import SmallScript.Proofs.Library.Directory
import SmallScript.Proofs.Library.Splitting
import SmallScript.Proofs.Text.Percent
import SmallScript.Proofs.Syntax.Positions
import SmallScript.Proofs.Transpile.Blocks
