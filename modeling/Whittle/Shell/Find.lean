import Whittle.Shell.FileTools
import Whittle.Shell.Glob
import Whittle.Shell.Launchers
import Whittle.Shell.RegexText

/-!
# Finding files

The paths below some directories are gone through, and an expression is evaluated for each of them.
It asks about the path, and acts on it.
-/

namespace Whittle.Shell

open Doing

namespace Find

/-- What is asked about a number: that it is greater, less, or the same. -/
structure Amounts where
  relation : Ordering
  amount : Nat
  deriving DecidableEq, Repr

inductive Expression where
  | truth (b : Bool)
  | name (pattern : Octets) (bothCases : Bool)
  | path (pattern : Octets) (bothCases : Bool)
  | regex (r : Regex)
  | type (letters : List Char)
  | size (n : Amounts) (unit : Nat)
  | empty
  | executable
  /-- Permissions: exactly these, all, or any of them. -/
  | mode (test : Char) (bits : Nat)
  /-- How many units of time ago something happened: no time passes. -/
  | age (n : Amounts)
  | links (n : Amounts)
  | link (pattern : Octets)
  | newer (other : Octets)
  | same (other : Octets)
  | print (stop : Octets)
  | printf (form : Octets)
  | prune
  | delete
  | quit
  /-- Run a program for each path; in its directory, if that is wanted. -/
  | exec (command : List Octets) (inside : Bool)
  /-- Run a program once for all paths. -/
  | gather (command : List Octets) (inside : Bool)
  | not (e : Expression)
  | and (a b : Expression)
  | or (a b : Expression)
  | last (a b : Expression)
  deriving Repr

namespace Expression

/-- Whether an expression does something to paths, so that they need not be printed as well. -/
def acts : Expression → Bool
  | print _ => true
  | printf _ => true
  | delete => true
  | quit => false
  | exec _ _ => true
  | gather _ _ => true
  | not e => e.acts
  | and a b => a.acts || b.acts
  | or a b => a.acts || b.acts
  | last a b => a.acts || b.acts
  | _ => false

def deletes : Expression → Bool
  | delete => true
  | not e => e.deletes
  | and a b => a.deletes || b.deletes
  | or a b => a.deletes || b.deletes
  | last a b => a.deletes || b.deletes
  | _ => false

/-- The files that paths are compared with. -/
def compared : Expression → List Octets
  | newer o => [o]
  | same o => [o]
  | not e => e.compared
  | and a b => a.compared ++ b.compared
  | or a b => a.compared ++ b.compared
  | last a b => a.compared ++ b.compared
  | _ => []

/-- The commands that are to be run once for all paths. -/
def gathered : Expression → List (List Octets × Bool)
  | gather c inside => [(c, inside)]
  | not e => e.gathered
  | and a b => a.gathered ++ b.gathered
  | or a b => a.gathered ++ b.gathered
  | last a b => a.gathered ++ b.gathered
  | _ => []

end Expression

/-! ### Reading -/

def readAmounts (o : Octets) : Option Amounts :=
  match o with
  | '+' :: ds => (Text.readNat ds).map fun n => ⟨.gt, n⟩
  | '-' :: ds => (Text.readNat ds).map fun n => ⟨.lt, n⟩
  | ds => (Text.readNat ds).map fun n => ⟨.eq, n⟩

/-- A size with the letter of its unit. -/
def readSize (o : Octets) : Option Expression :=
  let unit : Nat := match o.getLast? with
    | some 'c' => 1
    | some 'w' => 2
    | some 'k' => 1024
    | some 'M' => Nat.pow 1024 2
    | some 'G' => Nat.pow 1024 3
    | _ => 512
  let digits := if (o.getLast?).any Char.isAlpha then o.dropLast else o
  (readAmounts digits).map fun n => .size n unit

/-- The words of a command up to a semicolon, or to a plus behind the place of the path. -/
def readCommandWords (sofar : List Octets) : List Octets → Option (List Octets × Bool × List Octets)
  | [] => none
  | w :: ws =>
    if w = [';'] then some (sofar.reverse, false, ws)
    else if w = ['+'] && sofar.head? = some ['\x7b', '\x7d'] then some (sofar.reverse, true, ws)
    else readCommandWords (w :: sofar) ws

/-- Permissions in digits or as changes, and how they are to be compared. -/
def readMode (o : Octets) : Option Expression :=
  let test : Char := match o with
    | '-' :: _ => '-'
    | '/' :: _ => '/'
    | _ => '='
  let text := if test = '=' then o else o.drop 1
  if !text.isEmpty && text.all isOctal then some (.mode test (octalValue text))
  else ((text.splitOn ',').foldlM changedPermissions 0).map (.mode test)

/-- The form of regular expressions of a name. -/
def formOf? (name : String) : Option RegexForm :=
  if ["emacs", "findutils-default"].contains name then
    some { extended := false, plainRepeats := true }
  else if ["posix-extended", "egrep", "posix-egrep", "gnu-awk", "awk", "posix-awk"].contains name then
    some { extended := true }
  else if ["posix-basic", "posix-minimal-basic", "ed", "sed", "grep"].contains name then
    some { extended := false }
  else none

/-- Settings that hold for all paths. -/
structure Settings where
  least : Nat := 0
  most : Option Nat := none
  /-- Whether what a directory holds comes before it. -/
  depth : Bool := false
  follow : Bool := false
  /-- How the regular expressions that follow are written. -/
  form : RegexForm := { extended := false, plainRepeats := true }

/-- Tests that take a word and are not about anything kept here. -/
def idleTests : List String :=
  ["-inum", "-used", "-fstype"]

/-- Tests about the time since something happened. -/
def ageTests : List String := ["-mtime", "-atime", "-ctime", "-mmin", "-amin", "-cmin"]

mutual

/-- A single test or action, or an expression in parentheses. -/
def readPrimary (fuel : Nat) (s : Settings) (ws : List Octets) :
    Except String (Expression × Settings × List Octets) :=
  match fuel with
  | 0 => .error "expression too deep"
  | fuel + 1 =>
    match ws with
    | [] => .error "expected an expression"
    | w :: rest =>
      let test := String.ofList w
      let one (f : Octets → Except String Expression) :
          Except String (Expression × Settings × List Octets) :=
        match rest with
        | [] => .error ("missing argument to \x60" ++ test ++ "'")
        | v :: rest => (f v).map fun e => (e, s, rest)
      let plain (e : Expression) : Except String (Expression × Settings × List Octets) :=
        .ok (e, s, rest)
      match test with
      | "(" => do
        let (e, s, rest) ← readSequence fuel s rest
        match rest with
        | [')'] :: rest => return (e, s, rest)
        | _ => .error "invalid expression; I was expecting to find a ')' somewhere but did not see one."
      | "!" => do
        let (e, s, rest) ← readPrimary fuel s rest
        return (.not e, s, rest)
      | "-not" => do
        let (e, s, rest) ← readPrimary fuel s rest
        return (.not e, s, rest)
      | "-true" => plain (.truth true)
      | "-false" => plain (.truth false)
      | "-name" => one fun o => .ok (.name o false)
      | "-iname" => one fun o => .ok (.name o true)
      | "-path" => one fun o => .ok (.path o false)
      | "-wholename" => one fun o => .ok (.path o false)
      | "-ipath" => one fun o => .ok (.path o true)
      | "-lname" => one fun o => .ok (.link o)
      | "-regex" => one fun o => match Regex.read s.form o with
        | some r => .ok (.regex r)
        | none => .error "invalid regular expression"
      | "-iregex" => one fun o => match Regex.read { s.form with bothCases := true } o with
        | some r => .ok (.regex r)
        | none => .error "invalid regular expression"
      | "-regextype" =>
        match rest with
        | v :: rest =>
          match formOf? (String.ofList v) with
          | some form => .ok (.truth true, { s with form := form }, rest)
          | none => .error ("Unknown regular expression type " ++ quotedName v)
        | [] => .error "missing argument to \x60-regextype'"
      | "-perm" => one fun o => match readMode o with
        | some e => .ok e
        | none => .error ("invalid mode " ++ quotedName o)
      | "-links" => one fun o => match readAmounts o with
        | some n => .ok (.links n)
        | none => .error ("non-numeric argument to -links: " ++ quotedName o)
      | "-user" => one fun o => if o.all Text.isDigit || o = "root".toList then
          .ok (.truth (o = "root".toList || o = ['0']))
        else .error (quotedName o ++ " is not the name of a known user")
      | "-group" => one fun o => if o.all Text.isDigit || o = "root".toList then
          .ok (.truth (o = "root".toList || o = ['0']))
        else .error (quotedName o ++ " is not the name of an existing group")
      | "-uid" => one fun o => .ok (.truth (o = ['0'] || o.head? = some '-'))
      | "-gid" => one fun o => .ok (.truth (o = ['0'] || o.head? = some '-'))
      | "-nouser" => plain (.truth false)
      | "-nogroup" => plain (.truth false)
      | "-type" => one fun o => .ok (.type (o.filter (· ≠ ',')))
      | "-size" => one fun o => match readSize o with
        | some e => .ok e
        | none => .error ("invalid -size type")
      | "-empty" => plain .empty
      | "-executable" => plain .executable
      | "-readable" => plain (.truth true)
      | "-writable" => plain (.truth true)
      | "-newer" => one fun o => .ok (.newer o)
      | "-samefile" => one fun o => .ok (.same o)
      | "-print" => plain (.print ['\n'])
      | "-print0" => plain (.print ['\x00'])
      | "-printf" => one fun o => .ok (.printf o)
      | "-ls" => plain (.print ['\n'])
      | "-prune" => plain .prune
      | "-delete" => .ok (.delete, { s with depth := true }, rest)
      | "-quit" => plain .quit
      | "-depth" => .ok (.truth true, { s with depth := true }, rest)
      | "-d" => .ok (.truth true, { s with depth := true }, rest)
      | "-follow" => .ok (.truth true, { s with follow := true }, rest)
      | "-xdev" => plain (.truth true)
      | "-mount" => plain (.truth true)
      | "-noleaf" => plain (.truth true)
      | "-maxdepth" =>
        match rest with
        | v :: rest => .ok (.truth true, { s with most := some (numberOf v) }, rest)
        | [] => .error "missing argument to \x60-maxdepth'"
      | "-mindepth" =>
        match rest with
        | v :: rest => .ok (.truth true, { s with least := numberOf v }, rest)
        | [] => .error "missing argument to \x60-mindepth'"
      | _ =>
        if ["-exec", "-execdir", "-ok", "-okdir"].contains test then
          let inside := test = "-execdir" || test = "-okdir"
          match readCommandWords [] rest with
          | some (c, false, rest) =>
            if c.isEmpty then .error ("missing argument to \x60" ++ test ++ "'")
            else .ok (.exec c inside, s, rest)
          | some (c, true, rest) => .ok (.gather c.dropLast inside, s, rest)
          | none => .error ("missing argument to \x60" ++ test ++ "'")
        else if ageTests.contains test then one fun o => match readAmounts o with
          | some n => .ok (.age n)
          | none => .error ("invalid argument \x60" ++ Octets.text o ++ "' to \x60" ++ test ++ "'")
        else if idleTests.contains test then one fun _ => .ok (.truth true)
        else if w.head? = some '-' then .error ("unknown predicate \x60" ++ test ++ "'")
        else .error ("paths must precede expression: \x60" ++ test ++ "'")

/-- Tests side by side, all of which have to hold. -/
def readAll (fuel : Nat) (s : Settings) (ws : List Octets) :
    Except String (Expression × Settings × List Octets) :=
  match fuel with
  | 0 => .error "expression too deep"
  | fuel + 1 => do
    let (a, s, rest) ← readPrimary fuel s ws
    match rest with
    | [] => return (a, s, [])
    | w :: more =>
      let word := String.ofList w
      if word = "-o" || word = "-or" || word = ")" || word = "," then return (a, s, rest)
      else
        let rest := if word = "-a" || word = "-and" then more else rest
        let (b, s, rest) ← readAll fuel s rest
        return (.and a b, s, rest)

/-- Alternatives. -/
def readAny (fuel : Nat) (s : Settings) (ws : List Octets) :
    Except String (Expression × Settings × List Octets) :=
  match fuel with
  | 0 => .error "expression too deep"
  | fuel + 1 => do
    let (a, s, rest) ← readAll fuel s ws
    match rest with
    | w :: more =>
      let word := String.ofList w
      if word = "-o" || word = "-or" then
        let (b, s, rest) ← readAny fuel s more
        return (.or a b, s, rest)
      else return (a, s, rest)
    | [] => return (a, s, [])

/-- Expressions one after another, the last of which counts. -/
def readSequence (fuel : Nat) (s : Settings) (ws : List Octets) :
    Except String (Expression × Settings × List Octets) :=
  match fuel with
  | 0 => .error "expression too deep"
  | fuel + 1 => do
    let (a, s, rest) ← readAny fuel s ws
    match rest with
    | [','] :: more =>
      let (b, s, rest) ← readSequence fuel s more
      return (.last a b, s, rest)
    | rest => return (a, s, rest)

end

/-! ### Evaluating -/

/-- What is known when an expression is evaluated for a path. -/
structure Subject where
  path : Octets
  top : Octets
  depth : Nat

/-- What an expression leads to besides its truth. -/
structure Effects where
  pruned : Bool := false
  stopped : Bool := false
  failed : Bool := false
  /-- The paths for each command that is run once. -/
  waiting : List ((List Octets × Bool) × List Octets) := []

def typeLetter (p : Process) (follow : Bool) (path : Octets) : Char :=
  let place := p.fileOf path
  match (if follow && (p.disk.stat place).isOk then p.disk.stat place else p.disk.lstat place) with
  | .ok (_, .dir) => 'd'
  | .ok (_, .link _) => 'l'
  | .ok (_, .sink) => 'c'
  | _ => 'f'

/-- The name by which a path is matched. -/
def nameOf (path : Octets) : Octets := lastName path

/-- What a form for paths stands for. -/
def formText (p : Process) (s : Subject) : Octets → Octets
  | '%' :: c :: cs =>
    let part : Octets := match c with
      | '%' => ['%']
      | 'p' => s.path
      | 'f' => nameOf s.path
      | 'h' =>
        let front := withoutLastName s.path
        if s.path.contains '/' then front else ['.']
      | 'P' => (s.path.drop s.top.length).dropWhile (· = '/')
      | 'H' => s.top
      | 'd' => naturalText s.depth
      | 's' => statPart s.path p 's'
      | 'y' => [typeLetter p false s.path]
      | 'm' => statPart s.path p 'a'
      | 'u' => "root".toList
      | 'g' => "root".toList
      | 'l' => match p.disk.lstat (p.fileOf s.path) with
        | .ok (_, .link t) => Octets.ofString t
        | _ => []
      | _ => ['%', c]
    part ++ formText p s cs
  | c :: cs => c :: formText p s cs
  | [] => []

/-- A command with a path put in. -/
def commandFor (command : List Octets) (path : Octets) : List Octets :=
  command.map fun w => replaceMark ['\x7b', '\x7d'] path 0 w

/-- Run a command, perhaps in the directory of the path; whether it worked. -/
def runCommand (caller : Caller) (argv : List Octets) (dir : Option Octets) : Doing Bool := do
  let p ← get
  match dir with
  | some d =>
    match p.disk.stat (p.fileOf d) with
    | .ok (place, _) => set { p with cwd := Disk.pathOf place }
    | .error _ => pure ()
  | none => pure ()
  let r ← caller.run argv
  modify fun q => { q with cwd := p.cwd }
  match r with
  | .ok n => return n = 0
  | .error e =>
    complain ("find: " ++ quotedName (argv.headD []) ++ ": " ++ e.wording)
    return false

/-- Evaluate an expression for a path. -/
def evaluate (caller : Caller) (settings : Settings) (s : Subject) :
    Expression → Effects → Doing (Bool × Effects)
  | .truth b, fx => return (b, fx)
  | .name g both, fx =>
    let r := Glob.read false (plainMarks g)
    return ((if both then r.withBothCases else r).matchesAll (nameOf s.path), fx)
  | .path g both, fx =>
    let r := Glob.read false (plainMarks g)
    return ((if both then r.withBothCases else r).matchesAll s.path, fx)
  | .regex r, fx => return (r.matchesAll s.path, fx)
  | .type letters, fx => do
    return (letters.contains (typeLetter (← get) settings.follow s.path), fx)
  | .size n unit, fx => do
    let p ← get
    let bytes := numberOf (statPart s.path p 's')
    let units := (bytes + unit - 1) / unit
    return (compare units n.amount = n.relation, fx)
  | .empty, fx => do
    let p ← get
    let none_ := match p.disk.lstat (p.fileOf s.path) with
      | .ok (_, .file _ content _) => content.isEmpty
      | .ok (place, .dir) => !p.disk.hasChildren place
      | _ => false
    return (none_, fx)
  | .mode test bits, fx => do
    let own := octalValue (statPart s.path (← get) 'a')
    let met : Bool :=
      if test = '-' then own &&& bits = bits
      else if test = '/' then bits = 0 || own &&& bits ≠ 0
      else own = bits
    return (met, fx)
  | .age n, fx => return (compare 0 n.amount = n.relation, fx)
  | .links n, fx => do return (compare (linkCount (← get) s.path) n.amount = n.relation, fx)
  | .executable, fx => do return (Condition.askOne (← get) 'x' s.path, fx)
  | .link g, fx => do
    let p ← get
    let r := Glob.read false (plainMarks g)
    let found := match p.disk.lstat (p.fileOf s.path) with
      | .ok (_, .link t) => r.matchesAll (Octets.ofString t)
      | _ => false
    return (found, fx)
  | .newer o, fx => do return (Condition.newer false (← get) s.path o, fx)
  | .same o, fx => do return (Condition.samePlace (← get) s.path o, fx)
  | .print stop, fx => do
    write (s.path ++ stop)
    return (true, fx)
  | .printf form, fx => do
    write (formText (← get) s (unescape { many := true } 0 form).1)
    return (true, fx)
  | .prune, fx => return (true, { fx with pruned := true })
  | .delete, fx => do
    let p ← get
    let path := p.fileOf s.path
    let gone := if isDirectory p s.path then p.disk.removeDir path else p.disk.unlink path
    match gone with
    | .ok d =>
      set { p with disk := d }
      return (true, fx)
    | .error e =>
      if s.path = ['.'] then return (true, fx)
      else
        complain ("find: cannot delete " ++ quotedName s.path ++ ": " ++ wordingOf e)
        return (false, { fx with failed := true })
  | .quit, fx => return (true, { fx with stopped := true })
  | .exec command inside, fx => do
    let path := if inside then ['.', '/'] ++ nameOf s.path else s.path
    let dir := if inside then some (withoutLastName s.path) else none
    return (← runCommand caller (commandFor command path) dir, fx)
  | .gather command inside, fx =>
    let old := (Disk.valueAt (command, inside) fx.waiting).getD []
    return (true, { fx with waiting := Disk.assign (command, inside) (old ++ [s.path]) fx.waiting })
  | .not e, fx => do
    let (b, fx) ← evaluate caller settings s e fx
    return (!b, fx)
  | .and a b, fx => do
    let (x, fx) ← evaluate caller settings s a fx
    if x && !fx.stopped then evaluate caller settings s b fx else return (x, fx)
  | .or a b, fx => do
    let (x, fx) ← evaluate caller settings s a fx
    if x || fx.stopped then return (x, fx) else evaluate caller settings s b fx
  | .last a b, fx => do
    let (_, fx) ← evaluate caller settings s a fx
    if fx.stopped then return (true, fx) else evaluate caller settings s b fx

/-- Go through a path and what is below it; the number bounds the depth. -/
def visit (caller : Caller) (settings : Settings) (e : Expression) :
    Nat → Subject → Effects → Doing Effects
  | 0, _, fx => return fx
  | n + 1, s, fx => do
    let here (fx : Effects) : Doing Effects := do
      if s.depth < settings.least || settings.most.any (s.depth > ·) then return fx
      else return (← evaluate caller settings s e fx).2
    let p ← get
    let goesIn (p : Process) : Bool :=
      (isDirectory p s.path || (settings.follow && p.disk.isDir (p.fileOf s.path))) &&
        settings.most.all fun m => s.depth < m
    let inside (fx : Effects) : Doing Effects := do
      let p ← get
      let mut fx := fx
      for name in namesIn p.disk (p.fileOf s.path) do
        if fx.stopped then break
        fx ← visit caller settings e n ⟨below s.path name, s.top, s.depth + 1⟩ fx
      return fx
    if settings.depth then
      let fx ← (if goesIn p then inside fx else return fx)
      if fx.stopped then return fx
      else return { (← here fx) with pruned := false }
    else
      let fx ← here fx
      let pruned := fx.pruned
      let fx := { fx with pruned := false }
      if fx.stopped || pruned || !goesIn p then return fx
      else inside fx

end Find

def find : Utility := fun caller ws => do
  let fronts := ws.takeWhile fun w =>
    [['-', 'L'], ['-', 'H'], ['-', 'P']].contains w
  let ws := ws.drop fronts.length
  let paths := ws.takeWhile fun w =>
    !(w.head? = some '-' && w.length > 1) && w ≠ ['('] && w ≠ ['!']
  let words := ws.drop paths.length
  let start : Find.Settings := { follow := fronts.contains ['-', 'L'] }
  let read : Except String (Find.Expression × Find.Settings) :=
    if words.isEmpty then .ok (.print ['\n'], start)
    else
      match Find.readSequence (8 * words.length + 8) start words with
      | .error e => .error e
      | .ok (_, _, w :: _) => .error ("paths must precede expression: \x60" ++ Octets.text w ++ "'")
      | .ok (e, s, []) => .ok (if e.acts then e else .and e (.print ['\n']), s)
  let p ← get
  let missing : Option Octets := match read with
    | .ok (e, _) => e.compared.find? fun o => !p.disk.pathExists (p.fileOf o)
    | .error _ => none
  match read, missing with
  | .error e, _ => refuseTo "find" e 1
  | _, some o => refuseTo "find" (quotedName o ++ ": No such file or directory") 1
  | .ok (e, settings), none =>
    let tops := if paths.isEmpty then [['.']] else paths
    let mut fx : Find.Effects := {}
    for top in tops do
      let p ← get
      if fx.stopped then break
      else if !(p.disk.lstat (p.fileOf top)).isOk then
        complain ("find: " ++ quotedName top ++ ": No such file or directory")
        fx := { fx with failed := true }
      else
        fx ← Find.visit caller settings e treeDepth ⟨top, top, 0⟩ fx
    for (command, inside) in e.gathered.eraseDups do
      let waiting := (Disk.valueAt (command, inside) fx.waiting).getD []
      if !waiting.isEmpty then
        let named := if inside then waiting.map fun w => ['.', '/'] ++ Find.nameOf w else waiting
        let dir := if inside then waiting.head?.map withoutLastName else none
        if !(← Find.runCommand caller (command ++ named) dir) then fx := { fx with failed := true }
    return if fx.failed then 1 else 0

end Whittle.Shell
