import Whittle.Shell.Regex

/-!
# Shell patterns

In a pattern a star stands for any text, a question mark for one octet, and brackets for one octet of
a set. Where groups are understood, a group of alternatives in parentheses has a mark in front that
says how often it may stand there. Octets that were quoted stand for themselves.
-/

namespace Whittle.Shell

namespace Glob

/-- What a group with a mark in front stands for. -/
def ofGroup (c : Char) (alternatives : Regex) : Regex :=
  match c with
  | '?' => .times alternatives 0 (some 1)
  | '*' => .times alternatives 0 none
  | '+' => .times alternatives 1 none
  | '!' => .except alternatives
  | _ => alternatives

def opensGroup (c : Char) : Bool := ['?', '*', '+', '@', '!'].contains c

/-- The marks up to the parenthesis that closes one already open, and those behind it. -/
def splitGroup (depth : Nat) : List Mark → Option (List Mark × List Mark)
  | [] => none
  | m :: ms =>
    if m.is ')' then
      match depth with
      | 0 => some ([], ms)
      | depth + 1 => (splitGroup depth ms).map fun r => (m :: r.1, r.2)
    else (splitGroup (if m.is '(' then depth + 1 else depth) ms).map fun r => (m :: r.1, r.2)

/-- The alternatives between bars that are not inside groups. -/
def splitBars (depth : Nat) (sofar : List Mark) : List Mark → List (List Mark)
  | [] => [sofar.reverse]
  | m :: ms =>
    if m.is '|' && depth = 0 then sofar.reverse :: splitBars depth [] ms
    else
      let depth := if m.is '(' then depth + 1 else if m.is ')' then depth - 1 else depth
      splitBars depth (m :: sofar) ms

/-- The expression of the marks of a pattern. -/
def readMarks (groups : Bool) : Nat → List Mark → Regex
  | 0, _ => .empty
  | fuel + 1, ms =>
    match ms with
    | [] => .empty
    | m :: rest =>
      let group : Option (List Mark × List Mark) :=
        match rest with
        | p :: inner =>
          if groups && !m.quoted && opensGroup m.char && p.is '(' then splitGroup 0 inner else none
        | [] => none
      match group with
      | some (inner, behind) =>
        let alternatives := (splitBars 0 [] inner).map (readMarks groups fuel)
        let body := match alternatives with
          | [] => .empty
          | a :: as => as.foldl .alt a
        .seq (ofGroup m.char body) (readMarks groups fuel behind)
      | none =>
        let here : Regex × List Mark :=
          if m.is '*' then (.anyText, rest)
          else if m.is '?' then (.anyChar, rest)
          else if m.is '[' then
            match readBracket ['!', '^'] rest with
            | some (negated, ranges, n) => (.one negated ranges, rest.drop n)
            | none => (.char '[', rest)
          else (.char m.char, rest)
        .seq here.1 (readMarks groups fuel here.2)

/-- The expression of a pattern. -/
def read (groups : Bool) (ms : List Mark) : Regex := readMarks groups (ms.length + 1) ms

/-- Whether marks are a pattern that is more than a text. -/
def isPattern (groups : Bool) (ms : List Mark) : Bool :=
  ms.any (fun m => m.is '*' || m.is '?' || m.is '[') ||
    (groups && (ms.zip (ms.drop 1)).any fun p => !p.1.quoted && opensGroup p.1.char && p.2.is '(')

/-- A text without the shortest or longest front of a pattern. -/
def dropFront (longest : Bool) (r : Regex) (cs : Octets) : Octets :=
  let s := r.stops cs.toArray 1
  let order := if longest then (List.range (cs.length + 1)).reverse else List.range (cs.length + 1)
  ((order.find? s.testBit).map fun n => cs.drop n).getD cs

/-- A text without the shortest or longest back of a pattern. -/
def dropBack (longest : Bool) (r : Regex) (cs : Octets) : Octets :=
  let t := cs.toArray
  let order := if longest then List.range (cs.length + 1) else (List.range (cs.length + 1)).reverse
  ((order.find? fun i => (r.stops t (Places.single i)).testBit t.size).map fun i => cs.take i).getD cs

end Glob

end Whittle.Shell
