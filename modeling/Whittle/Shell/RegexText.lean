import Whittle.Shell.Format
import Whittle.Shell.Regex

/-!
# How regular expressions are written

Expressions are written in the basic or in the extended form, which differ in what a backslash takes
the meaning from and what it gives one to. Groups are numbered in the order of their opening
parentheses.
-/

namespace Whittle.Shell

/-- A form of writing regular expressions. -/
structure RegexForm where
  extended : Bool
  /-- Whether a backslash before a letter may stand for a control character. -/
  controls : Bool := false
  /-- Whether the letters of an expression stand for both cases. -/
  bothCases : Bool := false
  /-- Whether a backslash may stand before a quoted octet in brackets. -/
  escapedBrackets : Bool := false
  /-- Whether there are no groups to look back at, and no edges. -/
  bare : Bool := false
  /-- Whether it is a fault if there is nothing to repeat, or a count has no end. -/
  strict : Bool := false
  /-- Whether an operator that has nothing to repeat counts for nothing, not for itself. -/
  dropsRepeats : Bool := false
  /-- Whether a closing parenthesis alone stands for itself. -/
  loneClosing : Bool := true
  /-- Whether a range may end before it starts, and repetitions may follow one another. -/
  lenient : Bool := false
  /-- Whether a plus and a question mark repeat without a backslash. -/
  plainRepeats : Bool := false
  deriving DecidableEq, Repr

/-- What a regular expression is written with. -/
inductive RegexToken where
  | item (r : Regex)
  | opening (number : Nat)
  | closing
  | bar
  | times (text : Octets) (least : Nat) (most : Option Nat)
  | start
  | stop
  deriving DecidableEq, Repr

/-- A count of repetitions read behind its opening brace, and what follows the closing one. -/
def readCount (extended : Bool) (cs : Octets) : Option (RegexToken × Octets) := do
  let least := cs.takeWhile Text.isDigit
  let rest := cs.drop least.length
  let (most, rest) := match rest with
    | ',' :: rest =>
      let most := rest.takeWhile Text.isDigit
      (if most.isEmpty then none else some (numberOf most), rest.drop most.length)
    | _ => (some (numberOf least), rest)
  if least.isEmpty && most.isNone then none
  else
    match extended, rest with
    | true, '\x7d' :: rest => some (.times [] (numberOf least) most, rest)
    | false, '\\' :: '\x7d' :: rest => some (.times [] (numberOf least) most, rest)
    | _, _ => none

/-- What a backslash and a letter or digit stand for in both forms. -/
def readClassEscape (form : RegexForm) (c : Char) : Option RegexToken :=
  if form.bare then none
  else
    match c with
    | 'w' => some (.item (.one false .word))
    | 'W' => some (.item (.one true .word))
    | 's' => some (.item (.one false .space))
    | 'S' => some (.item (.one true .space))
    | 'b' => some (.item (.edge .boundary))
    | 'B' => some (.item (.edge .inside))
    | '<' => some (.item (.edge .wordStart))
    | '>' => some (.item (.edge .wordStop))
    | '\x60' => some (.item .start)
    | '\'' => some (.item .stop)
    | c =>
      if Text.isDigit c && c ≠ '0' then some (.item (.again (Text.digitValue c))) else none

/-- The control character that a letter behind a backslash stands for. -/
def controlOf (c : Char) : Option Char :=
  match c with
  | 'a' => some '\x07'
  | 'f' => some '\x0c'
  | 'n' => some '\n'
  | 'r' => some '\r'
  | 't' => some '\t'
  | 'v' => some '\x0b'
  | _ => none

/-- The marks of what stands between brackets. -/
def bracketMarks (form : RegexForm) : Nat → Octets → List Mark
  | 0, _ => []
  | fuel + 1, cs =>
    match cs with
    | [] => []
    | '\\' :: c :: rest =>
      match controlOf c with
      | some d =>
        if form.controls then ⟨'\\', true⟩ :: ⟨d, true⟩ :: bracketMarks form fuel rest
        else if form.escapedBrackets then ⟨'\\', true⟩ :: ⟨c, true⟩ :: bracketMarks form fuel rest
        else ⟨'\\', false⟩ :: bracketMarks form fuel (c :: rest)
      | none =>
        if form.escapedBrackets then ⟨'\\', true⟩ :: ⟨c, true⟩ :: bracketMarks form fuel rest
        else ⟨'\\', false⟩ :: bracketMarks form fuel (c :: rest)
    | c :: rest => ⟨c, false⟩ :: bracketMarks form fuel rest

/-- The marks without those of backslashes that only quote what follows. -/
def settleMarks : List Mark → List Mark
  | [] => []
  | m :: ms => if m.quoted && m.char = '\\' then
      match ms with
      | n :: rest => n :: settleMarks rest
      | [] => []
    else m :: settleMarks ms

/-- How many octets the first marks were written with. -/
def writtenLength : Nat → List Mark → Nat
  | 0, _ => 0
  | _, [] => 0
  | n + 1, m :: ms =>
    if m.quoted && m.char = '\\' then
      match ms with
      | _ :: rest => 2 + writtenLength n rest
      | [] => 1
    else 1 + writtenLength n ms

/-- A set in brackets read behind the opening one. -/
def readSet (form : RegexForm) (cs : Octets) : Option (RegexToken × Octets) :=
  let marks := bracketMarks form (cs.length + 1) cs
  (readBracket ['^'] (settleMarks marks)).bind fun r =>
    if form.lenient || r.2.1.all fun p => p.1 ≤ p.2 then
      some (.item (.one r.1 r.2.1), cs.drop (writtenLength r.2.2 marks))
    else none

/-- The token that an operator octet of the extended form stands for. -/
def readOperatorToken (form : RegexForm) (c : Char) (rest : Octets) :
    Option (RegexToken × Octets) :=
  match c with
  | '(' => some (.opening 0, rest)
  | ')' => some (.closing, rest)
  | '|' => some (.bar, rest)
  | '+' => some (.times [c] 1 none, rest)
  | '?' => some (.times [c] 0 (some 1), rest)
  | '\x7b' =>
    if form.extended then
      (readCount true rest).or (if form.strict then none else some (.item (.char c), rest))
    else readCount false rest
  | _ => none

def isOperator (c : Char) : Bool := ['(', ')', '|', '+', '?', '\x7b'].contains c

/-- The first token of an expression, and the rest. -/
def readRegexToken (form : RegexForm) (cs : Octets) : Option (RegexToken × Octets) :=
  match cs with
  | [] => none
  | ['\\'] => if form.bare then some (.item (.char '\\'), []) else none
  | '\\' :: c :: rest =>
    if isOperator c then
      if form.extended then some (.item (.char c), rest) else readOperatorToken form c rest
    else
      match (if form.controls then controlOf c else none) with
      | some d => some (.item (.char d), rest)
      | none => some ((readClassEscape form c).getD (.item (.char c)), rest)
  | '.' :: rest => some (.item .anyChar, rest)
  | '*' :: rest => some (.times ['*'] 0 none, rest)
  | '^' :: rest => some (.start, rest)
  | '$' :: rest => some (.stop, rest)
  | '[' :: rest => readSet form rest
  | c :: rest =>
    if (form.extended && isOperator c) || (form.plainRepeats && (c = '+' || c = '?')) then
      readOperatorToken form c rest
    else some (.item (.char c), rest)

/-- The tokens of an expression. -/
def regexTokens (form : RegexForm) : Nat → Octets → Option (List RegexToken)
  | 0, _ => none
  | fuel + 1, cs =>
    if cs.isEmpty then some []
    else do
      let (t, rest) ← readRegexToken form cs
      return t :: (← regexTokens form fuel rest)

/-- In the basic form an anchor is one only at the end of its side of a branch. `fresh` says that a
branch starts here. -/
def settleAnchors (fresh : Bool) : List RegexToken → List RegexToken
  | [] => []
  | t :: ts =>
    match t with
    | .start => (if fresh then .start else .item (.char '^')) :: settleAnchors false ts
    | .stop =>
      let last := match ts with
        | [] => true
        | .closing :: _ => true
        | .bar :: _ => true
        | _ => false
      (if last then .stop else .item (.char '$')) :: settleAnchors false ts
    | .opening _ => t :: settleAnchors true ts
    | .bar => t :: settleAnchors true ts
    | t => t :: settleAnchors false ts

/-- What becomes of repetitions with nothing in front of them. `fresh` says that there is nothing. In
the extended form they stand for themselves, count for nothing or are left as they are, which is a
fault; in the basic form only a count does not stand for itself. -/
def settleRepeats (form : RegexForm) (fresh : Bool) : List RegexToken → List RegexToken
  | [] => []
  | t :: ts =>
    match t with
    | .times text _ _ =>
      if !fresh then t :: settleRepeats form false ts
      else if form.extended && form.dropsRepeats then settleRepeats form true ts
      else if text.isEmpty || (form.extended && form.strict) then t :: settleRepeats form false ts
      else .item (.literal text) :: settleRepeats form false ts
    | .start => t :: settleRepeats form true ts
    | .opening _ => t :: settleRepeats form true ts
    | .bar => t :: settleRepeats form true ts
    | t => t :: settleRepeats form false ts

/-- How often something may be repeated at most. -/
def repeatLimit : Nat := 32767

/-- Whether a count of repetitions can be met. -/
def RegexToken.isPossible : RegexToken → Bool
  | .times _ least most => most.all (least ≤ ·) && max least (most.getD 0) ≤ repeatLimit
  | _ => true

/-- Whether a star or a count stands right behind a repetition. -/
def hasDoubleRepeats : List RegexToken → Bool
  | .times _ _ _ :: .times text least most :: ts =>
    text.isEmpty || text = ['*'] || hasDoubleRepeats (.times text least most :: ts)
  | _ :: ts => hasDoubleRepeats ts
  | [] => false

def numberGroups (n : Nat) : List RegexToken → List RegexToken
  | [] => []
  | .opening _ :: ts => .opening n :: numberGroups (n + 1) ts
  | t :: ts => t :: numberGroups n ts

mutual

/-- The branches up to a closing parenthesis or the end. -/
def readAlternatives (fuel : Nat) (ts : List RegexToken) : Option (Regex × List RegexToken) :=
  match fuel with
  | 0 => none
  | fuel + 1 => do
    let (first, rest) ← readBranch fuel .empty ts
    match rest with
    | .bar :: rest =>
      let (others, rest) ← readAlternatives fuel rest
      return (.alt first others, rest)
    | rest => return (first, rest)

/-- The items of a branch behind those in `sofar`. -/
def readBranch (fuel : Nat) (sofar : Regex) (ts : List RegexToken) :
    Option (Regex × List RegexToken) :=
  match fuel with
  | 0 => none
  | fuel + 1 =>
    match ts with
    | [] => some (sofar, [])
    | .bar :: _ => some (sofar, ts)
    | .closing :: _ => some (sofar, ts)
    | .opening n :: rest => do
      let (body, rest) ← readAlternatives fuel rest
      match rest with
      | .closing :: rest => readRepeats fuel sofar (.group n body) rest
      | _ => none
    | .item r :: rest => readRepeats fuel sofar r rest
    | .start :: rest => readBranch fuel (.seq sofar .start) rest
    | .stop :: rest => readBranch fuel (.seq sofar .stop) rest
    | .times _ _ _ :: _ => none

/-- The repetitions behind an item. -/
def readRepeats (fuel : Nat) (sofar item : Regex) (ts : List RegexToken) :
    Option (Regex × List RegexToken) :=
  match fuel with
  | 0 => none
  | fuel + 1 =>
    match ts with
    | .times _ least most :: rest => readRepeats fuel sofar (.times item least most) rest
    | _ => readBranch fuel (.seq sofar item) ts

end

/-- A closing parenthesis without an opening one stands for itself in the extended form. -/
def settleClosing (depth : Nat) : List RegexToken → List RegexToken
  | [] => []
  | t :: ts =>
    match t, depth with
    | .opening _, d => t :: settleClosing (d + 1) ts
    | .closing, d + 1 => t :: settleClosing d ts
    | .closing, 0 => .item (.char ')') :: settleClosing 0 ts
    | _, d => t :: settleClosing d ts

/-- An expression from its text. -/
def Regex.read (form : RegexForm) (cs : Octets) : Option Regex := do
  let ts ← regexTokens form (cs.length + 1) cs
  let ts := if !form.extended then settleAnchors true ts
    else if form.loneClosing then settleClosing 0 ts else ts
  let doubled := form.strict && !form.extended && hasDoubleRepeats ts
  if doubled || !(ts.all RegexToken.isPossible) then none
  else
    let ts := numberGroups 1 (settleRepeats form true ts)
    let (r, rest) ← readAlternatives (4 * ts.length + 4) ts
    if !rest.isEmpty || r.highestLookBack > r.groupCount then none
    else some (if form.bothCases then r.withBothCases else r)

end Whittle.Shell
