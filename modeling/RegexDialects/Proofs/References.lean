import RegexDialects.Proofs.CaptureOrder
import RegexDialects.Proofs.Invariant
import RegexDialects.Proofs.ReferenceLog

/-!
# References of Emacs patterns

A reference that was read as Emacs is not always behind its group. The reader counts numbers, and a
tree has groups: a group that a quantifier drops has a number and is not in the tree, and so have
the numbers that a group with a number of its own leaves out. But for these, every reference stands
behind as many groups as its number says, in the tree and in every form of output.
-/

set_option autoImplicit false

namespace RegexDialects.Regex

open Pattern.Emacs

/-! ## Places in a tree -/

end RegexDialects.Regex
