import SelectorPath.Main
import SelectorPath.Proofs.Compile.Meaning
import SelectorPath.Proofs.Compile.Formulas
import SelectorPath.Proofs.Selector.Joining
import SelectorPath.Proofs.Selector.Printing
import SelectorPath.Proofs.Selector.Recovery
import SelectorPath.Proofs.Selector.Errors
import SelectorPath.Proofs.CommandLine.Independence
import SelectorPath.Proofs.Checked.Safety
import SelectorPath.Proofs.Compile.Siblings
import SelectorPath.Proofs.Formula.Integers
import SelectorPath.Proofs.Formula.Selection
import SelectorPath.Proofs.Selector.Spelling
import SelectorPath.Proofs.Compile.Rearrangement
import SelectorPath.Proofs.Selector.Rearrangement
import SelectorPath.Proofs.CommandLine.Warnings
import SelectorPath.Proofs.Compile.Vacuity
import SelectorPath.Proofs.Selector.Names
import SelectorPath.Proofs.Compile.WordTests
import SelectorPath.Proofs.Selector.Progress
import SelectorPath.Proofs.CommandLine.Tree
