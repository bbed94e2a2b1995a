import Whittle.Grammar.Literal
import Whittle.Language

/-!
# Cutting a text into tokens

`tokens` passes over blanks, comments and directive lines; a backslash at the end of a line joins
the line with the next one. Neither macros nor conditionals are evaluated: every branch of a
conditional is read.

A line that starts with a number sign is not read, only passed over. How far it reaches depends on
the word behind the sign. What is included is a name, a quoted text or a text in angles. The
argument of a definition and of an unknown directive takes everything up to a block comment, also
two slashes. Everywhere else comments of both forms count. Behind `else`, `endif` and the name
that `ifdef` asks for, the line goes on as code; a conditional word without its `if` is an unknown
directive.
-/

namespace Whittle.Grammar

/-! ## Directive lines -/

/-- Where in the line of a directive a scan stands: before its argument, in it, among tokens, in a
comment (with what comes after it), or in a text up to a closing character. -/
inductive LinePart where
  | before
  | argument
  | tokens
  | block (argumentFollows : Bool)
  | lineComment
  | upTo (close : Char)
  deriving DecidableEq, Repr

/-- The rest of a text at the end of the line of a directive; the line feed is left. A slash in an
argument belongs together with the character behind it. -/
def dropDirective : LinePart → List Char → List Char
  | _, [] => []
  | .block true, '*' :: '/' :: cs => dropDirective .before cs
  | .block false, '*' :: '/' :: cs => dropDirective .tokens cs
  | .block b, _ :: cs => dropDirective (.block b) cs
  | p, '\\' :: '\n' :: cs => dropDirective p cs
  | p, '\\' :: '\r' :: '\n' :: cs => dropDirective p cs
  | .lineComment, c :: cs => if c = '\n' then c :: cs else dropDirective .lineComment cs
  | .upTo close, '\\' :: c :: cs =>
    if close = '>' && c ≠ '>' then dropDirective (.upTo close) (c :: cs)
    else dropDirective (.upTo close) cs
  | .upTo close, c :: cs =>
    if c = '\n' then c :: cs
    else dropDirective (if c = close then .tokens else .upTo close) cs
  | .argument, '/' :: '*' :: cs => dropDirective (.block false) cs
  | .argument, '/' :: _ :: cs => dropDirective .argument cs
  | .argument, c :: cs => if c = '\n' then c :: cs else dropDirective .argument cs
  | .before, '/' :: '*' :: cs => dropDirective (.block true) cs
  | .tokens, '/' :: '*' :: cs => dropDirective (.block false) cs
  | .before, '/' :: '/' :: cs => dropDirective .lineComment cs
  | .tokens, '/' :: '/' :: cs => dropDirective .lineComment cs
  | .before, c :: cs =>
    if c = '\n' then c :: cs else dropDirective (if isSpace c then .before else .argument) cs
  | .tokens, c :: cs => if c = '\n' then c :: cs else dropDirective .tokens cs

/-- The rest of a line behind the blanks and comments at its front. -/
def dropInLine : Bool → List Char → List Char
  | _, [] => []
  | true, '*' :: '/' :: cs => dropInLine false cs
  | true, _ :: cs => dropInLine true cs
  | false, '\\' :: '\n' :: cs => dropInLine false cs
  | false, '\\' :: '\r' :: '\n' :: cs => dropInLine false cs
  | false, '/' :: '*' :: cs => dropInLine true cs
  | false, c :: cs => if isSpace c && c ≠ '\n' then dropInLine false cs else c :: cs

/-- The rest of a text behind the path that is included. -/
def dropIncluded (cs : List Char) : List Char :=
  match dropInLine false cs with
  | '"' :: rest => dropDirective (.upTo '"') rest
  | '<' :: rest => dropDirective (.upTo '>') rest
  | rest => dropDirective .tokens rest

/-- The rest of a text behind the name and the parameters of a definition. -/
def dropDefinition (cs : List Char) : List Char :=
  match dropWord (dropInLine false cs) with
  | '(' :: rest => dropDirective .before (dropPast [')'] rest)
  | rest => dropDirective .before rest

/-- The rest of a text behind a directive whose number sign is left out, and how many conditionals
are open behind it. -/
def passDirective (opened : Nat) (cs : List Char) : List Char × Nat :=
  let inside := cs.dropWhile fun c => c = ' ' || c = '\t'
  let behind := dropWord inside
  let name := String.ofList (takenBefore inside behind)
  if name = "include" then (dropIncluded behind, opened)
  else if name = "define" then (dropDefinition behind, opened)
  else if name = "if" then (dropDirective .tokens behind, opened + 1)
  else if name = "ifdef" || name = "ifndef" then
    (dropWord (dropInLine false behind), opened + 1)
  else if opened = 0 then (dropDirective .before behind, 0)
  else if name = "elif" then (dropDirective .tokens behind, opened)
  else if name = "elifdef" || name = "elifndef" then
    (dropWord (dropInLine false behind), opened)
  else if name = "else" then (behind, opened)
  else if name = "endif" then (behind, opened - 1)
  else (dropDirective .before behind, opened)

/-! ## Tokens -/

/-- What a scan knows of the text before. -/
structure ScanPlace where
  row : Nat
  lastRow : Nat
  tight : Bool
  commented : Bool
  /-- How many conditionals are open. -/
  opened : Nat
  deriving DecidableEq, Repr

/-- The rest of a text at the end of a line comment. -/
def dropLineComment : List Char → List Char
  | [] => []
  | '\\' :: '\n' :: cs => dropLineComment cs
  | '\\' :: '\r' :: '\n' :: cs => dropLineComment cs
  | c :: cs => if c = '\n' then c :: cs else dropLineComment cs

/-- Punctuation of several characters, the longer first. -/
def longPunct (language : Language) : List (List Char) :=
  let shared := ["...", "<<=", "::", "->", "++", "--", "<<", "<=", "==", "!=", "&&", "||", "+=",
    "-=", "*=", "/=", "%=", "&=", "|=", "^="]
  ((if language = .cpp then ["<=>", "->*", ".*"] else []) ++ shared).map String.toList

def dropPunct (language : Language) (c : Char) (cs : List Char) : List Char :=
  match (longPunct language).find? fun p => p.isPrefixOf (c :: cs) with
  | some p => (c :: cs).drop p.length
  | none => cs

/-- The kind of the token at the front of a text that starts with neither blank nor comment, and
what follows it. -/
def dropToken (language : Language) (c : Char) (cs : List Char) : TokenKind × List Char :=
  if wordStarts (c :: cs) then
    let rest := dropWord (c :: cs)
    let word := String.ofList (takenBefore (c :: cs) rest)
    match rest with
    | '"' :: behind =>
      if language = .cpp ∧ word ∈ rawMarks then (.string, dropRaw behind)
      else if word ∈ literalMarks then (.string, dropQuoted '"' .content behind)
      else (.word, rest)
    | '\'' :: behind =>
      if word ∈ literalMarks then (.char, dropQuoted '\'' .content behind) else (.word, rest)
    | _ => (.word, rest)
  else if Text.isDigit c || (c = '.' && cs.head?.any Text.isDigit) then
    (.number, dropNumber (c :: cs))
  else if c = '"' then (.string, dropQuoted '"' .content cs)
  else if c = '\'' then (.char, dropQuoted '\'' .content cs)
  else (.punct, dropPunct language c cs)

def tokensFrom (language : Language) : Nat → ScanPlace → List Char → List Token
  | 0, _, _ => []
  | _, p, [] => [⟨.finish, "", p.row, p.row, p.lastRow, p.tight, p.commented, 0⟩]
  | fuel + 1, p, c :: cs =>
    let rowBehind (rest : List Char) := p.row + countRows (takenBefore (c :: cs) rest)
    let pass (rest : List Char) :=
      tokensFrom language fuel { p with row := rowBehind rest, tight := false } rest
    let comment (rest : List Char) :=
      tokensFrom language fuel
        { p with row := rowBehind rest, tight := false, commented := true } rest
    match c, cs with
    | '/', '/' :: behind => comment (dropLineComment behind)
    | '/', '*' :: behind => comment (dropPast ['*', '/'] behind)
    | '\\', '\n' :: behind => pass behind
    | '\\', '\r' :: '\n' :: behind => pass behind
    | '#', _ =>
      let r := passDirective p.opened cs
      tokensFrom language fuel
        { p with row := rowBehind r.1, tight := false, opened := r.2 } r.1
    | _, _ =>
      if isSpace c then
        tokensFrom language fuel { p with row := if c = '\n' then p.row + 1 else p.row, tight := false } cs
      else
        let t := dropToken language c cs
        let endRow := rowBehind t.2
        ⟨t.1, String.ofList (takenBefore (c :: cs) t.2), p.row, endRow, p.lastRow, p.tight,
            p.commented, 0⟩ ::
          tokensFrom language fuel ⟨endRow, endRow, true, false, p.opened⟩ t.2

/-- The tokens of a source text, and the mark of its end. -/
def tokens (language : Language) (source : String) : List Token :=
  counted (tokensFrom language (source.toList.length + 1) ⟨0, 0, false, false, 0⟩ source.toList)

end Whittle.Grammar
