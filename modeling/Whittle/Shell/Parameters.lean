import Whittle.Shell.Arithmetic
import Whittle.Shell.Expansion

/-!
# Parameters

A parameter is a variable, an element or all elements of an array, a positional parameter, or
something that the shell keeps count of. What it holds is one text or several.
-/

namespace Whittle.Shell

/-- What a parameter holds. -/
inductive Held where
  | one (o : Option Octets)
  /-- Several texts, and whether they are to be joined. -/
  | many (os : List Octets) (joined : Bool)
  deriving DecidableEq, Repr

namespace Held

/-- Whether there is nothing, or, if that counts, nothing but empty texts. -/
def isMissing (emptyToo : Bool) : Held → Bool
  | one none => true
  | one (some o) => emptyToo && o.isEmpty
  | many os _ => os.isEmpty || (emptyToo && os.all List.isEmpty)

def map (f : Octets → Octets) : Held → Held
  | one o => one (o.map f)
  | many os joined => many (os.map f) joined

/-- The texts, nothing being one that is empty. -/
def texts : Held → List Octets
  | one o => [o.getD []]
  | many os _ => os

end Held

/-- The options in the order in which they are shown. -/
def shownOptions (rich : Bool) : List String :=
  if rich then
    ["allexport", "braceexpand", "emacs", "errexit", "errtrace", "functrace", "hashall", "histexpand",
     "history", "ignoreeof", "interactive-comments", "keyword", "monitor", "noclobber", "noexec",
     "noglob", "nolog", "notify", "nounset", "onecmd", "physical", "pipefail", "posix", "privileged",
     "verbose", "vi", "xtrace"]
  else
    ["errexit", "noglob", "ignoreeof", "interactive", "monitor", "noexec", "stdin", "xtrace",
     "verbose", "vi", "emacs", "noclobber", "allexport", "notify", "nounset", "privileged", "nolog",
     "debug"]

/-- The options of the rich dialect that a script starts with. -/
def usualOptions : List String := ["braceexpand", "hashall", "interactive-comments"]

namespace Process

/-- The octets that separate fields. -/
def separators (p : Process) : Octets := (p.valueOf? "IFS").getD [' ', '\t', '\n']

/-- The letters of the options that are set. -/
def optionLetters (p : Process) : Octets :=
  let table : List (String × Char) :=
    [("allexport", 'a'), ("errexit", 'e'), ("noglob", 'f'), ("noexec", 'n'), ("nounset", 'u'),
     ("verbose", 'v'), ("xtrace", 'x'), ("noclobber", 'C')]
  let letters := (table.filter fun o => p.hasOption o.1).map Prod.snd
  if p.isRich then 'h' :: letters ++ ['B'] else letters

/-- The names of the options that are on, as the rich dialect shows them. -/
def optionNames (p : Process) : Octets :=
  let on (name : String) : Bool := p.hasOption name || usualOptions.contains name
  List.intercalate [':'] (((shownOptions true).filter on).map String.toList)

/-- The value of a parameter that is one text. -/
def parameter? (p : Process) (name : String) : Option Octets :=
  let i := p.shell
  match name with
  | "#" => some (naturalText i.parameters.length)
  | "?" => some (naturalText i.status)
  | "$" => some (naturalText i.id)
  | "-" => some p.optionLetters
  | "!" => i.lastJob.map naturalText
  | "0" => some i.name
  | "PPID" => (p.valueOf? name).or ((p.waiting.head?.map naturalText).or (some ['1']))
  | _ =>
    if !name.isEmpty && name.toList.all Text.isDigit then i.parameters[numberOf name.toList - 1]?
    else
      match p.valueOf? name with
      | some o => some o
      | none =>
        if !p.isRich then none
        else
          match name with
          | "BASHPID" => some (naturalText p.id)
          | "BASH_SUBSHELL" => some (naturalText i.nesting)
          | "SHELLOPTS" => some p.optionNames
          | "MACHTYPE" => some "x86_64-pc-linux-gnu".toList
          | "OPTERR" => some ['1']
          | "GROUPS" => some ['0']
          | "DIRSTACK" => p.valueOf? "PWD"
          | "UID" => some ['0']
          | "EUID" => some ['0']
          | "SECONDS" => some (naturalText (p.clock / 1000))
          | "_" => some i.lastWord
          | "LINENO" => some (naturalText i.line)
          | "RANDOM" => some (naturalText (i.random % 32768))
          | "FUNCNAME" => i.calls.head?.map String.toList
          | "BASH_SOURCE" => some (i.sources.headD i.name)
          | "BASH_VERSION" => some "5.2.15(1)-release".toList
          | _ => none

/-- The array that a name stands for. -/
def array? (p : Process) (name : String) : Option Value :=
  match (Disk.valueAt (p.bindings.meant name) p.bindings).bind Variable.value with
  | some v => some v
  | none =>
    if !p.isRich then none
    else
      match name with
      | "FUNCNAME" =>
        if p.shell.calls.isEmpty then none
        else some (.ofList ((p.shell.calls ++ ["main"]).map String.toList))
      | "BASH_SOURCE" => some (.ofList (p.shell.sources ++ [p.shell.name]))
      | "BASH_VERSINFO" => some (.ofList
          (["5", "2", "15", "1", "release", "x86_64-pc-linux-gnu"].map String.toList))
      | _ => (p.parameter? name).map .text

/-- What a parameter holds, an element of an array aside. -/
def held (p : Process) (name : String) (all : Option Bool) : Held :=
  match name, all with
  | "@", _ => .many p.shell.parameters false
  | "*", _ => .many p.shell.parameters true
  | name, some joined => .many (((p.array? name).map Value.elements).getD []) joined
  | name, none => .one (p.parameter? name)

/-- The atoms of what a parameter holds. -/
def atomsOfHeld (p : Process) (quoted : Bool) : Held → List Atom
  | .one o => atomsOf quoted (o.getD [])
  | .many os joined =>
    if joined && quoted then
      .present :: atomsOf true (List.intercalate (p.separators.take 1) os)
    else
      let joint := if p.isRich && !joined then some ' ' else p.separators.head?
      atomsOfAll quoted joint os

/-- An element of an array. -/
def elementOf (p : Process) (name : String) (index : Value) : Option Octets :=
  match index, p.array? name with
  | .list [(i, _)], some v => Disk.valueAt i v.numbered
  | .text k, some (.table es) => Disk.valueAt k es
  | _, _ => none

end Process

/-- A name and the subscript written behind it. -/
def splitSubscript (o : Octets) : String × Option Octets :=
  let name := o.takeWhile (· ≠ '[')
  if name.length < o.length ∧ o.getLast? = some ']' then
    (String.ofList name, some (o.drop (name.length + 1)).dropLast)
  else (String.ofList o, none)

/-- The part of a text or list from an offset on, of a length if there is one. -/
def partOf {α : Type} (offset : Int) (length : Option Int) (xs : List α) : List α :=
  let size : Int := xs.length
  let first := if offset < 0 then size + offset else offset
  if first < 0 ∨ first > size then []
  else
    let last := match length with
      | none => size
      | some n => if n < 0 then size + n else min size (first + n)
    (xs.drop first.toNat).take (last - first).toNat

/-- The text of a replacement: an unquoted ampersand stands for what is replaced. -/
def replacementFor (ms : List Mark) (matched : Octets) : Octets :=
  ms.flatMap fun m => if m.char = '&' && !m.quoted then matched else [m.char]

/-- Replace the first match in a text, or all of them. `anchor` says that it has to be at the front,
or at the back. -/
def replaceIn (r : Regex) (all : Bool) (anchor : Option Bool) (replacement : List Mark) :
    Nat → Octets → Octets
  | 0, cs => cs
  | fuel + 1, cs =>
    let t := cs.toArray
    let found : Option Found := match anchor with
      | some true => r.findAt t 0
      | some false => ((List.range (t.size + 1)).find? fun i =>
          (r.stops t (Places.single i)).testBit t.size).map fun i => ⟨i, t.size, []⟩
      | none => r.search t 0
    match found with
    | none => cs
    | some m =>
      let behind := cs.drop m.stop
      let matched := (cs.take m.stop).drop m.start
      let front := cs.take m.start ++ replacementFor replacement matched
      if !all then front ++ behind
      else if m.stop = m.start then
        match behind with
        | [] => cs.take m.start
        | c :: rest => cs.take m.start ++ c :: replaceIn r all anchor replacement fuel rest
      else if behind.isEmpty then front
      else front ++ replaceIn r all anchor replacement fuel behind

/-- Change the case of the letters that a pattern accepts. -/
def recaseText (kind : Char) (all : Bool) (accepts : Char → Bool) (cs : Octets) : Octets :=
  let change (c : Char) : Char :=
    if !accepts c then c
    else
      match kind with
      | '^' => c.toUpper
      | ',' => c.toLower
      | _ => if c.isUpper then c.toLower else c.toUpper
  if all then cs.map change
  else
    match cs with
    | [] => []
    | c :: cs => change c :: cs

/-- A text in single quotes. -/
def singleQuoted (o : Octets) : Octets :=
  '\'' :: o.flatMap (fun c => if c = '\'' then ['\'', '\\', '\'', '\''] else [c]) ++ ['\'']

/-- A text in single quotes, its own ones in double quotes. -/
def plainlyQuoted (o : Octets) : Octets :=
  let runs := o.splitBy fun a b => (a = '\'') == (b = '\'')
  let isQuotes (r : Octets) : Bool := r.head? = some '\''
  let shown := runs.flatMap fun r => if isQuotes r then '"' :: r ++ ['"'] else '\'' :: r ++ ['\'']
  if runs.head?.all isQuotes then '\'' :: '\'' :: shown else shown

/-- A text in quotes, with escapes if it needs them. -/
def reusable (o : Octets) : Octets := if needsEscapes o then escapeQuoted o else singleQuoted o

/-- A text in quotes, as a dialect writes it. -/
def quotedIn (d : Dialect) (o : Octets) : Octets :=
  if d = .rich then reusable o else plainlyQuoted o

def transformText (operator : Char) (cs : Octets) : Octets :=
  match operator with
  | 'Q' => reusable cs
  | 'U' => cs.map Char.toUpper
  | 'u' => recaseText '^' false (fun _ => true) cs
  | 'L' => cs.map Char.toLower
  | 'E' => (unescape { many := true, quotes := true } 0 cs).1
  | _ => cs

end Whittle.Shell
