import CardContent.Effect.Basic
import CardContent.Text.Numeral

/-!
# Effects as the reader of a card sees them

A leaf is shown as its description, with its parameter in brackets; a compound as its parts behind
the keyword.
-/

set_option autoImplicit false

namespace CardContent

/-- What is put behind an effect that may be declined. -/
def optionalMark (optional : Bool) : String :=
  if optional then " (optional)" else ""

/-- A leaf as it is shown (`fmt` of `SimpleEffect`). -/
def Leaf.display (leaf : Leaf) : String :=
  leaf.description ++ (leaf.param.map fun p => " [" ++ Numeral.intText p.toInt ++ "]").getD "" ++
    optionalMark leaf.optional

namespace Effect

mutual

/-- An effect as it is shown (`fmt` of `Effect` and `CompoundEffect`). -/
def display : Effect → String
  | .simple leaf => leaf.display
  | .compound combinator children optional =>
    combinator.keyword ++ "(" ++ "; ".intercalate (displays children) ++ ")" ++
      optionalMark optional

/-- Several effects, each as it is shown. -/
def displays : List Effect → List String
  | [] => []
  | e :: es => e.display :: displays es

end

end Effect

end CardContent
