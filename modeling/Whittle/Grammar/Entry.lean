import Whittle.Fault
import Whittle.Grammar.Unit

/-!
# Where a program starts

`Tree.firstEntry` searches a tree, depth first and in source order, for the definition of `main`. It
does not look into definitions of functions nor into nested scopes. The name of the function and
the names of its parameters are found by `innermost`, which follows declarators inwards.
-/

namespace Whittle.Grammar

/-- The name of the function with which a program starts. -/
def entryName : String := "main"

structure EntryPoint where
  /-- The lines on which the body starts and ends, counted from one. -/
  openLine : Nat
  closeLine : Nat
  /-- The declared parameters in order, those without a name as `none`. -/
  parameters : List (Option String)
  deriving DecidableEq, Repr

namespace EntryPoint

/-- The names of the first two parameters. -/
def countAndValues (e : EntryPoint) : Option (String × String) :=
  match e.parameters with
  | some count :: some values :: _ => some (count, values)
  | _ => none

end EntryPoint

namespace Tree

mutual

/-- The first tree of a kind on the way inwards: from a tree to its declarator, or, where it has
none, to its last named child. -/
def innermost (k : Kind) : Tree → Option Tree
  | node kind named field text startRow endRow children =>
    if kind = k then some (node kind named field text startRow endRow children)
    else if children.any fun c => c.field = some .declarator then innermostDeclarator k children
    else innermostLast k children

/-- The way inwards through the first declarator of a list. -/
def innermostDeclarator (k : Kind) : List Tree → Option Tree
  | [] => none
  | t :: ts => if t.field = some .declarator then innermost k t else innermostDeclarator k ts

/-- The way inwards through the last named tree of a list. -/
def innermostLast (k : Kind) : List Tree → Option Tree
  | [] => none
  | t :: ts =>
    if ts.any named then innermostLast k ts
    else if t.named then innermost k t else none

end

/-- The name a parameter declares. -/
def parameterName (t : Tree) : Option String := do
  let d ← t.child? .declarator
  let i ← d.innermost .identifier
  return i.text

/-- Whether a lone parameter only says that there is none. -/
def isVoidParameter (t : Tree) : Bool :=
  (t.child? .declarator).isNone && (t.child? .type).any fun u => u.text = "void"

/-- The parameters declared in a list. -/
def parameterNames (t : Tree) : List (Option String) :=
  match t.namedChildren.filter fun p => p.kind.isParameter with
  | [p] => if p.isVoidParameter then [] else [p.parameterName]
  | ps => ps.map parameterName

/-- The entry point that a definition of a function is, if it is one. -/
def entryDefinition (t : Tree) : Option EntryPoint := do
  let body ← t.child? .body
  let d ← t.child? .declarator
  let f ← d.innermost .functionDeclarator
  let name ← f.child? .declarator
  if name.kind = .identifier ∧ name.text = entryName then
    return {
      openLine := body.startRow + 1
      closeLine := body.endRow + 1
      parameters := ((f.child? .parameters).map parameterNames).getD [] }
  else none

mutual

/-- The first entry point at or below a tree. -/
def firstEntry : Tree → Option EntryPoint
  | node kind named field text startRow endRow children =>
    if kind = .functionDefinition then
      entryDefinition (node kind named field text startRow endRow children)
    else if kind.isNestedScope then none
    else firstEntryIn children

/-- The first entry point at or below the named trees of a list. -/
def firstEntryIn : List Tree → Option EntryPoint
  | [] => none
  | t :: ts =>
    if t.named then
      match firstEntry t with
      | some e => some e
      | none => firstEntryIn ts
    else firstEntryIn ts

end

end Tree

/-- The entry point of a source text, from the tree that `parse` makes of the text. -/
def entryOf (parse : Language → String → Except Fault Tree) (language : Language)
    (source : String) : Except Fault EntryPoint := do
  let tree ← parse language source
  match tree.firstEntry with
  | some e => return e
  | none => throw .noEntryPoint

/-- `sourceUnit` as a parser; it reads every text. -/
def parseUnit (language : Language) (source : String) : Except Fault Tree :=
  .ok (sourceUnit language source)

def findEntry (language : Language) (source : String) : Except Fault EntryPoint :=
  entryOf parseUnit language source

end Whittle.Grammar
