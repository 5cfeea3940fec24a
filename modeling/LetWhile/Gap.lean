import LetWhile.Program.Basic

/-!
# Trees that cannot be printed

A tree built by hand can lack a node, or hold a literal that has no spelling. A printer that comes
to such a gap prints nothing at all.
-/

namespace LetWhile

/-- What a printer met in a tree that it cannot print. -/
inductive Gap where
  | statement
  | expression
  | literal (value : Constant)
deriving DecidableEq, Repr

/-- The wording of a gap. -/
def Gap.message : Gap → String
  | .statement => "unexpected statement <nil>"
  | .expression => "unexpected expression <nil>"
  | .literal value => "unexpected literal " ++ value.kindName

end LetWhile
