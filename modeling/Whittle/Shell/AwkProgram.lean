import Whittle.Disk.Basic
import Whittle.Shell.AwkText

/-!
# Programs of awk

A program is a list of rules, each with a pattern that says which records it is for, and functions.
Binary operators are read by levels, those that bind less tightly first.
-/

namespace Whittle.Shell.Awk

inductive Arithmetic where
  | add
  | subtract
  | multiply
  | divide
  | remainder
  | power
  deriving DecidableEq, Repr

inductive Comparison where
  | less
  | lessEqual
  | equal
  | different
  | greater
  | greaterEqual
  deriving DecidableEq, Repr

/-- Where a line is read from. -/
inductive Source where
  | records
  | file
  | program
  deriving DecidableEq, Repr

mutual

inductive Expr where
  | number (digits : Octets)
  | string (s : Octets)
  | regex (r : Regex)
  | place (p : Place)
  | assign (p : Place) (operator : Option Arithmetic) (e : Expr)
  /-- Change a number by one; the value is the number before or after the change. -/
  | change (p : Place) (up before : Bool)
  | choose (condition yes no : Expr)
  | and (a b : Expr)
  | or (a b : Expr)
  | not (e : Expr)
  | negate (e : Expr)
  | plus (e : Expr)
  | arithmetic (operator : Arithmetic) (a b : Expr)
  | concat (a b : Expr)
  | compare (operator : Comparison) (a b : Expr)
  | accepts (text pattern : Expr)
  | holds (key : List Expr) (array : String)
  | builtin (function : String) (arguments : List Expr)
  | call (function : String) (arguments : List Expr)
  /-- Read a line into a place, or as the record. -/
  | getline (source : Source) (from_ : Option Expr) (target : Option Place)

inductive Place where
  | named (name : String)
  | field (index : Expr)
  | element (array : String) (key : List Expr)

end

instance : Inhabited Expr := ⟨.string []⟩

/-- Where output goes. -/
inductive Sink where
  | output
  | file (append : Bool) (name : Expr)
  | program (command : Expr)

inductive Statement where
  | expr (e : Expr)
  | print (arguments : List Expr) (sink : Sink)
  | printf (arguments : List Expr) (sink : Sink)
  | choose (condition : Expr) (yes no : Statement)
  | loop (condition : Option Expr) (step : Statement) (body : Statement)
  /-- A loop whose condition is asked after its body. -/
  | loopBehind (body : Statement) (condition : Expr)
  | forKeys (index array : String) (body : Statement)
  | block (body : List Statement)
  | next
  | nextFile
  | exit (code : Option Expr)
  | back (value : Option Expr)
  | leave
  | again
  | delete (array : String) (key : Option (List Expr))

instance : Inhabited Statement := ⟨.block []⟩

inductive Pattern where
  | first
  | last
  | always
  | accepted (e : Expr)
  | between (start stop : Expr)

structure Rule where
  pattern : Pattern
  action : Statement

structure Function where
  name : String
  parameters : List String
  body : Statement

structure Program where
  rules : List Rule := []
  functions : List Function := []

/-! ### Expressions -/

/-- Reading takes tokens away from the front. -/
abbrev Reading := StateT (List Token) Option

def peek : Reading (Option Token) := do return (← get).head?

def advance : Reading Unit := modify fun ts => ts.drop 1

/-- Take a token away if it is the next one. -/
def take (t : Token) : Reading Bool := do
  if (← peek) = some t then
    advance
    return true
  else return false

def expect (s : String) : Reading Unit := do
  if !(← take (.mark s)) then failure

/-- Skip the ends of lines. -/
def skipLines : Reading Unit := modify fun ts => ts.dropWhile (· = .lineEnd)

/-- Skip the ends of lines and statements. -/
def skipEnds : Reading Unit := modify fun ts => ts.dropWhile fun t => t = .lineEnd || t = .mark ";"

/-- Which operators an expression may have. -/
structure Bounds where
  /-- Whether a greater-than sign compares. -/
  greater : Bool := true
  /-- Whether the word `in` asks about a key. -/
  membership : Bool := true

/-- What a regular expression in a program is written in. -/
def regexForm : RegexForm := { extended := true, controls := true, escapedBrackets := true, bare := true }

def comparisons : List (String × Comparison) :=
  [("<", .less), ("<=", .lessEqual), ("==", .equal), ("!=", .different), (">", .greater),
   (">=", .greaterEqual)]

/-- The operators of a level between two operands, each with what it makes of them. -/
def operators (b : Bounds) : Nat → List (String × (Expr → Expr → Expr))
  | 0 => [("||", .or)]
  | 1 => [("&&", .and)]
  | 3 => [("~", .accepts), ("!~", fun x y => .not (.accepts x y))]
  | 4 => (comparisons.filter fun c => b.greater || c.1 ≠ ">").map fun c => (c.1, .compare c.2)
  | 6 => [("+", .arithmetic .add), ("-", .arithmetic .subtract)]
  | 7 => [("*", .arithmetic .multiply), ("/", .arithmetic .divide), ("%", .arithmetic .remainder)]
  | _ => []

/-- The operators that set a place. -/
def assignments : List (String × Option Arithmetic) :=
  [("=", none), ("+=", some .add), ("-=", some .subtract), ("*=", some .multiply),
   ("/=", some .divide), ("%=", some .remainder), ("^=", some .power)]

/-- Whether a token starts an operand that may stand right behind another. -/
def Token.startsOperand : Token → Bool
  | .number _ => true
  | .string _ => true
  | .regex _ => true
  | .name _ => true
  | .called _ => true
  | .builtin _ => true
  | .mark s => ["$", "(", "!", "-", "+", "++", "--"].contains s
  | _ => false

mutual

/-- An expression. -/
def readExpr (fuel : Nat) (b : Bounds) : Reading Expr :=
  match fuel with
  | 0 => failure
  | fuel + 1 => do
    let e ← readLevel fuel b 0
    if ← take (.mark "?") then
      skipLines
      let yes ← readExpr fuel b
      skipLines
      expect ":"
      skipLines
      let no ← readExpr fuel b
      return .choose e yes no
    else return e

/-- Operands of a level with the operators between them. Behind the last level of binary operators
are the signs in front. -/
def readLevel (fuel : Nat) (b : Bounds) (level : Nat) : Reading Expr :=
  match fuel with
  | 0 => failure
  | fuel + 1 => do
    if level ≥ 8 then readSigned fuel b
    else
      let e ← readLevel fuel b (level + 1)
      readFurther fuel b level e

/-- The operators and operands of a level behind a first operand. -/
def readFurther (fuel : Nat) (b : Bounds) (level : Nat) (left : Expr) : Reading Expr :=
  match fuel with
  | 0 => failure
  | fuel + 1 => do
    match level, ← peek with
    | 2, some (.keyword "in") =>
      if !b.membership then return left
      else
        advance
        match ← peek with
        | some (.name array) =>
          advance
          readFurther fuel b level (.holds [left] array)
        | _ => failure
    | 5, some t =>
      if t.startsOperand then
        let right ← readLevel fuel b 6
        readFurther fuel b level (.concat left right)
      else return left
    | _, some (.mark s) =>
      match Disk.valueAt s (operators b level) with
      | some f =>
        advance
        if level < 2 then skipLines
        let right ← readLevel fuel b (level + 1)
        readFurther fuel b level (f left right)
      | none => return left
    | _, _ => return left

/-- An operand with signs in front, or a power. -/
def readSigned (fuel : Nat) (b : Bounds) : Reading Expr :=
  match fuel with
  | 0 => failure
  | fuel + 1 => do
    match ← peek with
    | some (.mark "!") =>
      advance
      return .not (← readSigned fuel b)
    | some (.mark "-") =>
      advance
      return .negate (← readSigned fuel b)
    | some (.mark "+") =>
      advance
      return .plus (← readSigned fuel b)
    | _ =>
      let e ← readOperand fuel b
      let e ← readPiped fuel b e
      if ← take (.mark "^") then return .arithmetic .power e (← readSigned fuel b) else return e

/-- An operand whose output lines may be read. -/
def readPiped (fuel : Nat) (b : Bounds) (e : Expr) : Reading Expr :=
  match fuel with
  | 0 => failure
  | fuel + 1 => do
    match ← get with
    | .mark "|" :: .keyword "getline" :: rest =>
      set rest
      let target ← readTarget fuel b
      readPiped fuel b (.getline .program (some e) target)
    | _ => return e

/-- A place that a line is to be read into, if one is named. -/
def readTarget (fuel : Nat) (b : Bounds) : Reading (Option Place) :=
  match fuel with
  | 0 => failure
  | fuel + 1 => do
    let named : Bool := match ← peek with
      | some (.name _) => true
      | some (.mark "$") => true
      | _ => false
    if !named then return none
    else
      match ← readPrimary fuel b with
      | .place p => return some p
      | _ => failure

/-- An operand with what changes it: a step before or behind it, or an assignment. -/
def readOperand (fuel : Nat) (b : Bounds) : Reading Expr :=
  match fuel with
  | 0 => failure
  | fuel + 1 => do
    match ← peek with
    | some (.mark s) =>
      if s = "++" || s = "--" then
        advance
        match ← readPrimary fuel b with
        | .place p => return .change p (s = "++") false
        | _ => failure
      else readChanged fuel b
    | _ => readChanged fuel b

def readChanged (fuel : Nat) (b : Bounds) : Reading Expr :=
  match fuel with
  | 0 => failure
  | fuel + 1 => do
    let e ← readPrimary fuel b
    match e, ← peek with
    | .place p, some (.mark s) =>
      if s = "++" || s = "--" then
        advance
        return .change p (s = "++") true
      else
        match Disk.valueAt s assignments with
        | some operator =>
          advance
          skipLines
          return .assign p operator (← readExpr fuel b)
        | none => return e
    | _, _ => return e

/-- Expressions with commas between them, up to a closing mark. -/
def readList (fuel : Nat) (close : String) : Reading (List Expr) :=
  match fuel with
  | 0 => failure
  | fuel + 1 => do
    skipLines
    if ← take (.mark close) then return []
    else
      let e ← readExpr fuel {}
      skipLines
      if ← take (.mark ",") then return e :: (← readList fuel close)
      else
        expect close
        return [e]

def readPrimary (fuel : Nat) (b : Bounds) : Reading Expr :=
  match fuel with
  | 0 => failure
  | fuel + 1 => do
    match ← peek with
    | none => failure
    | some t =>
      advance
      match t with
      | .number digits => return .number digits
      | .string o => return .string o
      | .regex o =>
        match Regex.read regexForm o with
        | some r => return .regex r
        | none => failure
      | .name s =>
        if ← take (.mark "[") then return .place (.element s (← readList fuel "]"))
        else return .place (.named s)
      | .called s =>
        expect "("
        return .call s (← readList fuel ")")
      | .builtin s =>
        if ← take (.mark "(") then return .builtin s (← readList fuel ")")
        else if s = "length" then return .builtin s []
        else failure
      | .mark "(" =>
        match ← readList fuel ")" with
        | [] => failure
        | [e] => return e
        | es =>
          match ← get with
          | .keyword "in" :: .name array :: rest =>
            set rest
            return .holds es array
          | _ => failure
      | .mark "$" =>
        match ← peek with
        | some (.mark s) =>
          if s = "++" || s = "--" then return .place (.field (← readOperand fuel b))
          else if s = "-" || s = "+" || s = "!" then return .place (.field (← readSigned fuel b))
          else return .place (.field (← readPrimary fuel b))
        | _ => return .place (.field (← readPrimary fuel b))
      | .keyword "getline" =>
        let target ← readTarget fuel b
        if ← take (.mark "<") then
          return .getline .file (some (← readPrimary fuel b)) target
        else return .getline .records none target
      | _ => failure

end

/-! ### Statements -/

/-- Whether a token may stand behind a simple statement. -/
def endsStatement : Option Token → Bool
  | none => true
  | some .lineEnd => true
  | some (.mark s) => s = ";" || s = "\x7d"
  | _ => false

/-- Whether a token may stand behind the arguments of an output statement. -/
def endsPrinted (t : Option Token) : Bool :=
  endsStatement t || t = some (.mark ">") || t = some (.mark ">>") || t = some (.mark "|")

/-- Take the end of a simple statement; a closing brace stays. -/
def readEnd : Reading Unit := do
  match ← peek with
  | none => return ()
  | some (.mark "\x7d") => return ()
  | some (.mark ";") => advance
  | some .lineEnd => advance
  | _ => failure

/-- Arguments without parentheses around them. -/
def readPrinted (fuel : Nat) : Nat → Reading (List Expr)
  | 0 => failure
  | n + 1 => do
    let e ← readExpr fuel { greater := false }
    if ← take (.mark ",") then
      skipLines
      return e :: (← readPrinted fuel n)
    else return [e]

/-- The arguments of an output statement. -/
def readArguments (fuel : Nat) : Reading (List Expr) := do
  if endsPrinted (← peek) then return []
  else
    let grouped : Reading (List Expr) := do
      expect "("
      let es ← readList fuel ")"
      if endsPrinted (← peek) then return es else failure
    grouped <|> readPrinted fuel fuel

def readSink (fuel : Nat) : Reading Sink := do
  if ← take (.mark ">") then return .file false (← readExpr fuel { greater := false })
  else if ← take (.mark ">>") then return .file true (← readExpr fuel { greater := false })
  else if ← take (.mark "|") then return .program (← readExpr fuel { greater := false })
  else return .output

/-- The head of a loop over the keys of an array. -/
def readKeysHead : Reading (String × String) := do
  expect "("
  match ← get with
  | .name index :: .keyword "in" :: .name array :: .mark ")" :: rest =>
    set rest
    return (index, array)
  | _ => failure

/-- A statement that is one expression or a command, without its end. -/
def readSimple (fuel : Nat) : Reading Statement := do
  let optional : Reading (Option Expr) := do
    if endsStatement (← peek) then return none else return some (← readExpr fuel {})
  match ← peek with
  | some (.keyword s) =>
    if s = "getline" then return .expr (← readExpr fuel {})
    else
      advance
      match s with
      | "print" =>
        let es ← readArguments fuel
        return .print es (← readSink fuel)
      | "printf" =>
        let es ← readArguments fuel
        if es.isEmpty then failure
        return .printf es (← readSink fuel)
      | "next" => return .next
      | "nextfile" => return .nextFile
      | "break" => return .leave
      | "continue" => return .again
      | "exit" => return .exit (← optional)
      | "return" => return .back (← optional)
      | "delete" =>
        match ← peek with
        | some (.name array) =>
          advance
          if ← take (.mark "[") then return .delete array (some (← readList fuel "]"))
          else return .delete array none
        | _ => failure
      | _ => failure
  | _ => return .expr (← readExpr fuel {})

/-- A condition in parentheses. -/
def readCondition (fuel : Nat) : Reading Expr := do
  expect "("
  let e ← readExpr fuel {}
  expect ")"
  return e

mutual

def readStatement (fuel : Nat) : Reading Statement :=
  match fuel with
  | 0 => failure
  | fuel + 1 => do
    match ← peek with
    | some (.mark "\x7b") =>
      advance
      return .block (← readBlock fuel)
    | some (.mark ";") =>
      advance
      return .block []
    | some (.keyword "if") =>
      advance
      let e ← readCondition fuel
      skipLines
      let yes ← readStatement fuel
      let before ← get
      skipEnds
      if ← take (.keyword "else") then
        skipLines
        return .choose e yes (← readStatement fuel)
      else
        set before
        return .choose e yes (.block [])
    | some (.keyword "while") =>
      advance
      let e ← readCondition fuel
      if ← take (.mark ";") then return .loop (some e) (.block []) (.block [])
      else
        skipLines
        return .loop (some e) (.block []) (← readStatement fuel)
    | some (.keyword "do") =>
      advance
      skipLines
      let body ← readStatement fuel
      skipEnds
      if !(← take (.keyword "while")) then failure
      let e ← readCondition fuel
      readEnd
      return .loopBehind body e
    | some (.keyword "for") =>
      advance
      readFor fuel
    | _ =>
      let s ← readSimple fuel
      readEnd
      return s

def readFor (fuel : Nat) : Reading Statement :=
  match fuel with
  | 0 => failure
  | fuel + 1 => do
    let keys : Reading Statement := do
      let (index, array) ← readKeysHead
      skipLines
      return .forKeys index array (← readStatement fuel)
    let counted : Reading Statement := do
      expect "("
      let start ← (if ← take (.mark ";") then return .block []
        else do
          let s ← readSimple fuel
          expect ";"
          return s)
      skipLines
      let e : Option Expr ← (if ← take (.mark ";") then return none
        else do
          let e ← readExpr fuel {}
          expect ";"
          return some e)
      skipLines
      let step ← (if ← take (.mark ")") then return .block []
        else do
          let s ← readSimple fuel
          expect ")"
          return s)
      if ← take (.mark ";") then return .block [start, .loop e step (.block [])]
      else
        skipLines
        return .block [start, .loop e step (← readStatement fuel)]
    keys <|> counted

/-- Statements up to a closing brace. -/
def readBlock (fuel : Nat) : Reading (List Statement) :=
  match fuel with
  | 0 => failure
  | fuel + 1 => do
    skipEnds
    if ← take (.mark "\x7d") then return []
    else
      let s ← readStatement fuel
      return s :: (← readBlock fuel)

end

/-! ### Rules -/

def readBody (fuel : Nat) : Reading Statement := do
  expect "\x7b"
  return .block (← readBlock fuel)

/-- Names with commas between them, up to a closing parenthesis. -/
def readParameters : Nat → Reading (List String)
  | 0 => failure
  | n + 1 => do
    skipLines
    if ← take (.mark ")") then return []
    else
      match ← peek with
      | some (.name s) =>
        advance
        if ← take (.mark ",") then return s :: (← readParameters n)
        else
          expect ")"
          return [s]
      | _ => failure

def readFunction (fuel : Nat) : Reading Function := do
  let name : String ← (match ← peek with
    | some (.name s) => return s
    | some (.called s) => return s
    | _ => failure)
  advance
  expect "("
  let parameters ← readParameters fuel
  skipLines
  return ⟨name, parameters, ← readBody fuel⟩

def readRule (fuel : Nat) : Reading Rule := do
  match ← peek with
  | some (.keyword "BEGIN") =>
    advance
    return ⟨.first, ← readBody fuel⟩
  | some (.keyword "END") =>
    advance
    return ⟨.last, ← readBody fuel⟩
  | some (.mark "\x7b") => return ⟨.always, ← readBody fuel⟩
  | _ =>
    let e ← readExpr fuel {}
    let pattern : Pattern ← (if ← take (.mark ",") then do
        skipLines
        return .between e (← readExpr fuel {})
      else return .accepted e)
    if (← peek) = some (.mark "\x7b") then return ⟨pattern, ← readBody fuel⟩
    else return ⟨pattern, .print [] .output⟩

/-- Functions and rules. One semicolon may stand behind each, on its line. -/
def readItems (fuel : Nat) : Nat → Reading Program
  | 0 => failure
  | n + 1 => do
    skipLines
    match ← peek with
    | none => return {}
    | some t =>
      if t = .keyword "function" || t = .keyword "func" then
        advance
        let f ← readFunction fuel
        let _ ← take (.mark ";")
        let p ← readItems fuel n
        return { p with functions := f :: p.functions }
      else
        let r ← readRule fuel
        let _ ← take (.mark ";")
        let p ← readItems fuel n
        return { p with rules := r :: p.rules }

/-- A program from its text. -/
def Program.read (cs : Octets) : Option Program := do
  let ts ← tokensOf cs
  let r ← (readItems (16 * ts.length + 32) (ts.length + 1)).run ts
  return r.1

end Whittle.Shell.Awk
