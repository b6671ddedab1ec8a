import Calculator.Expr

/-!
# Outlines

An outline lists the nodes of a tree, each before its parts, and draws every one of them
on a line of its own behind guides that show where it hangs. An item remembers for
itself, and for every node above it, whether it is the last part of the node that it
hangs from; the root counts as a last part. Nothing else is needed to draw the guides.

Lines are joined by newlines, with none after the last line. The label of a token shows
its kind and its value only.
-/
namespace Calculator

/-- How a value is written: without leading zeros, and with a minus sign if it is negative. -/
def numeral (v : Int32) : String :=
  toString v.toInt

example : numeral 0 = "0" ∧ numeral (-2147483648) = "-2147483648" := by decide +kernel

def Node.label : Node → String
  | .expr e => e.kindName
  | .token t => t.kind.name ++ "Token" ++
      match t.value with
      | none => ""
      | some v => " -> " ++ numeral v

namespace Outline

structure Item where
  /-- For every node above, the nearest first, whether it is a last part. -/
  above : List Bool
  isLast : Bool
  node : Node
  deriving DecidableEq, Repr

/-- The number of nodes above. -/
def Item.depth (i : Item) : Nat := i.above.length

def guide (isLast : Bool) : String := if isLast then "    " else "│   "

def marker (isLast : Bool) : String := if isLast then "└──" else "├──"

def Item.line (i : Item) : String :=
  String.join (i.above.reverse.map guide) ++ marker i.isLast ++ i.node.label

/-- The items of a tree that hangs below the given nodes. -/
def items (above : List Bool) (isLast : Bool) : Expr → List Item
  | .number token =>
      [⟨above, isLast, .expr (.number token)⟩, ⟨isLast :: above, true, .token token⟩]
  | .binary left operator right =>
      ⟨above, isLast, .expr (.binary left operator right)⟩ ::
        (items (isLast :: above) false left ++ ⟨isLast :: above, false, .token operator⟩ ::
          items (isLast :: above) true right)
  | .group opening inner closing =>
      ⟨above, isLast, .expr (.group opening inner closing)⟩ ::
        ⟨isLast :: above, false, .token opening⟩ ::
          (items (isLast :: above) false inner ++ [⟨isLast :: above, true, .token closing⟩])

end Outline

def Expr.outline (e : Expr) : List Outline.Item :=
  Outline.items [] true e

/-- The outline as text. -/
def Expr.render (e : Expr) : String :=
  "\n".intercalate (e.outline.map Outline.Item.line)

example : (Expr.number (Token.placeholder .number 0)).render =
    "└──NumberExpression\n    └──NumberToken" := by decide +kernel

end Calculator
