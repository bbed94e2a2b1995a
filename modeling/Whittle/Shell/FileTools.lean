import Whittle.Shell.Filters

/-!
# Programs that ask about files and change them
-/

namespace Whittle.Shell

open Doing

/-! ### Parts of paths -/

/-- A path without the slashes at its end. -/
def withoutSlashes (name : Octets) : Octets := (name.reverse.dropWhile (· = '/')).reverse

/-- The last name of a path. -/
def lastName (name : Octets) : Octets :=
  let segments := (name.splitOn '/').filter (· ≠ [])
  segments.getLast?.getD (if name.isEmpty then [] else ['/'])

/-- A path without its last name. -/
def withoutLastName (name : Octets) : Octets :=
  let trimmed := withoutSlashes name
  let front := (trimmed.reverse.dropWhile (· ≠ '/')).reverse
  let kept := withoutSlashes front
  if front.isEmpty then (if trimmed.isEmpty && !name.isEmpty then ['/'] else ['.'])
  else if kept.isEmpty then ['/'] else kept

def dropSuffix (suffix name : Octets) : Octets :=
  if suffix.isSuffixOf name ∧ suffix ≠ name then name.take (name.length - suffix.length) else name

def missingOperand (program : String) : Doing Nat := do
  complain (program ++ ": missing operand")
  complain ("Try '" ++ program ++ " --help' for more information.")
  return 1

def basename (ws : List Octets) : Doing Nat :=
  withArguments "basename" 1
    { flags := "az", valued := "s", strict := true
      long := [("multiple", 'a'), ("suffix", 's'), ("zero", 'z')] } ws fun a => do
    let stop : Octets := if a.has 'z' then ['\x00'] else ['\n']
    if a.operands.isEmpty then missingOperand "basename"
    else if a.has 'a' || a.has 's' then
      for n in a.operands do
        write (dropSuffix ((a.value? 's').getD []) (lastName n) ++ stop)
      return 0
    else
      match a.operands with
      | _ :: _ :: extra :: _ => refuseTo "basename" ("extra operand " ++ quotedName extra) 1
      | ws =>
        write (dropSuffix (ws.getD 1 []) (lastName (ws.headD [])) ++ stop)
        return 0

def dirname (ws : List Octets) : Doing Nat :=
  withArguments "dirname" 1 { flags := "z", long := [("zero", 'z')] } ws fun a => do
    if a.operands.isEmpty then missingOperand "dirname"
    else
      for n in a.operands do
        write (withoutLastName n ++ (if a.has 'z' then ['\x00'] else ['\n']))
      return 0

/-! ### Copies and moves -/

/-- Where something goes that is to be put at a path: into it, if that is a directory. -/
def placeFor (p : Process) (source target : Octets) : Octets :=
  if p.disk.isDir (p.fileOf target) then below target (lastName source) else target

/-- Sources and target of a copy or a move; several sources need a directory. -/
def withTarget (program : String) (a : Arguments) (f : Octets → Octets → Doing Nat) : Doing Nat := do
  let p ← get
  match a.value? 't' with
  | some dir => forAll a.operands fun s => f s (below dir (lastName s))
  | none =>
    match a.operands.reverse with
    | target :: source :: more =>
      let sources := (source :: more).reverse
      if a.has 'T' then
        forAll sources fun s => f s target
      else if more ≠ [] ∧ !p.disk.isDir (p.fileOf target) then
        refuseTo program ("target " ++ quotedName target ++ ": No such file or directory") 1
      else forAll sources fun s => do f s (placeFor (← get) s target)
    | [source] =>
      refuseTo program ("missing destination file operand after " ++ quotedName source) 1
    | [] => refuseTo program "missing file operand" 1

/-- Copy everything below one location to below another. -/
def copyTree (d : Disk) (source target : Location) : Disk :=
  (d.below source).foldl (fun d e =>
    match e.2 with
    | .file _ content x =>
      { d.put (target ++ e.1) (.file d.nextId content x) with nextId := d.nextId + 1 }
    | n => d.put (target ++ e.1) n) d

/-- Copy a file, or a tree. `links` says that a link is copied itself. -/
def copyOne (recursive links : Bool) (source target : Octets) (p : Process) : Except IoError Disk :=
  let from_ := p.fileOf source
  let goal := p.fileOf target
  match (if links then p.disk.lstat from_ else p.disk.stat from_) with
  | .error e => .error (.system e)
  | .ok (place, .dir) =>
    if !recursive then .error (.system .isDirectory)
    else do
      let d ← if p.disk.isDir goal then .ok p.disk else p.disk.makeDir goal
      match d.stat goal with
      | .ok (there, _) =>
        if place.isPrefixOf there then .error (.system .invalidArgument)
        else .ok (copyTree d place there)
      | .error e => .error (.system e)
  | .ok (place, .file _ content x) =>
    match p.disk.stat goal with
    | .ok (there, _) =>
      if there = place then .error (.system .invalidArgument) else p.disk.write goal content x
    | .error _ => p.disk.write goal content x
  | .ok (_, .sink) => p.disk.write goal ByteArray.empty false
  | .ok (_, .link text) =>
    match p.disk.locate .file goal, p.disk.lstat goal with
    | .error e, _ => .error (.system e)
    | .ok _, .ok _ => .error (.system .alreadyExists)
    | .ok there, .error _ => .ok (p.disk.put there (.link text))

/-- What to say about a copy that failed. -/
def copyFault (source target : Octets) (p : Process) (e : IoError) : String :=
  let there := (p.disk.stat (p.fileOf source)).isOk
  match e with
  | .system .invalidArgument => quotedName source ++ " and " ++ quotedName target ++
      " are the same file"
  | .system .isDirectory =>
    if p.disk.isDir (p.fileOf source) then "-r not specified; omitting directory " ++
      quotedName source
    else "cannot create regular file " ++ quotedName target ++ ": " ++ wordingOf e
  | e =>
    if there then "cannot create regular file " ++ quotedName target ++ ": " ++ wordingOf e
    else "cannot stat " ++ quotedName source ++ ": " ++ wordingOf e

/-- Ask a question whose answer is a line of the input: whether it is yes. -/
def confirms (question : String) : Doing Bool := do
  let _ ← writeTo 2 (Octets.ofString question)
  match ← readStream 0 with
  | .error _ => return false
  | .ok o =>
    let answer := o.takeWhile (· ≠ '\n')
    leaveInput (o.drop (answer.length + 1))
    return answer.head? = some 'y' || answer.head? = some 'Y'

/-- Whether a program may write over a path, and if not the code it then ends with. -/
def mayOverwrite (program : String) (a : Arguments) (refusal : Nat) (target : Octets) :
    Doing (Except Nat Unit) := do
  let p ← get
  if !(p.disk.lstat (p.fileOf target)).isOk then return .ok ()
  else
    match a.lastOf ['i', 'f', 'n'] with
    | some 'n' => return .error refusal
    | some 'i' =>
      if ← confirms (program ++ ": overwrite " ++ quotedName target ++ "? ") then return .ok ()
      else return .error 1
    | _ => return .ok ()

/-- Make the directories that a path has in front of its last name. -/
def makeParents (name : Octets) : Doing Unit := do
  let front := withoutLastName name
  modify fun p => { p with disk := (p.disk.makeDirs (p.fileOf front)).2 }

def cp (ws : List Octets) : Doing Nat :=
  withArguments "cp" 1
    { flags := "rRafinpdPLHuvTxlsb", valued := "tS"
      long := [("recursive", 'r'), ("archive", 'a'), ("force", 'f'), ("no-clobber", 'n'),
        ("preserve", 'p'), ("verbose", 'v'), ("update", 'u'), ("target-directory", 't'),
        ("no-target-directory", 'T'), ("no-dereference", 'P'), ("dereference", 'L'),
        ("interactive", 'i'), ("parents", 'K')] } ws fun a => do
    let recursive := a.has 'r' || a.has 'R' || a.has 'a'
    let links := (recursive || a.has 'P' || a.has 'd') && !a.has 'L' && !a.has 'H'
    withTarget "cp" a fun source target => do
      let target := if a.has 'K' then below (withoutLastName target) source else target
      if a.has 'K' then makeParents target
      match ← mayOverwrite "cp" a 0 target with
      | .error n => return n
      | .ok () =>
        let p ← get
        match copyOne recursive links source target p with
        | .ok d =>
          set { p with disk := d }
          if a.has 'v' then writeText (quotedName source ++ " -> " ++ quotedName target ++ "\n")
          return 0
        | .error e => refuseTo "cp" (copyFault source target p e) 1

def mv (ws : List Octets) : Doing Nat :=
  withArguments "mv" 1
    { flags := "finuvTb", valued := "tS"
      long := [("force", 'f'), ("no-clobber", 'n'), ("verbose", 'v'), ("update", 'u'),
        ("target-directory", 't'), ("no-target-directory", 'T'), ("interactive", 'i')] } ws fun a =>
    withTarget "mv" a fun source target => do
      match ← mayOverwrite "mv" a 1 target with
      | .error n => return n
      | .ok () =>
        let p ← get
        let same : Bool := match p.disk.lstat (p.fileOf source), p.disk.lstat (p.fileOf target) with
          | .ok (x, _), .ok (y, _) => x = y
          | _, _ => false
        if same then
          refuseTo "mv" (quotedName source ++ " and " ++ quotedName target ++
            " are the same file") 1
        else
          match p.disk.rename (p.fileOf source) (p.fileOf target) with
          | .ok d =>
            set { p with disk := d }
            if a.has 'v' then
              writeText ("renamed " ++ quotedName source ++ " -> " ++ quotedName target ++ "\n")
            return 0
          | .error e =>
            refuseTo "mv" (if (p.disk.lstat (p.fileOf source)).isOk
              then "cannot move " ++ quotedName source ++ " to " ++ quotedName target ++ ": " ++
                wordingOf e
              else "cannot stat " ++ quotedName source ++ ": " ++ wordingOf e) 1

/-- Put files into place with the modes of programs. -/
def installFiles (ws : List Octets) : Doing Nat :=
  withArguments "install" 1 { flags := "dDcpvs", valued := "mogt" } ws fun a => do
    let runnable := ((a.value? 'm').bind List.getLast?).all fun c => (c.toNat - '0'.toNat) % 2 = 1
    if a.has 'd' then
      forAll a.operands fun name => do
        let p ← get
        let r := p.disk.makeDirs (p.fileOf name)
        set { p with disk := r.2 }
        return if r.1.isOk then 0 else 1
    else
      withTarget "install" a fun source target => do
        let p ← get
        let p := if a.has 'D' then
            { p with disk := (p.disk.makeDirs (p.fileOf (withoutLastName target))).2 } else p
        match p.disk.read (p.fileOf source) with
        | .error e =>
          refuseTo "install" ("cannot stat " ++ quotedName source ++ ": " ++ wordingOf e) 1
        | .ok content =>
          let d := match p.disk.unlink (p.fileOf target) with
            | .ok d => d
            | .error _ => p.disk
          match d.write (p.fileOf target) content runnable with
          | .ok d =>
            set { p with disk := d }
            return 0
          | .error e => refuseTo "install" (quotedName target ++ ": " ++ wordingOf e) 1

/-! ### Making and removing -/

def rm (ws : List Octets) : Doing Nat :=
  withArguments "rm" 1
    { flags := "rRfivdI"
      long := [("recursive", 'r'), ("force", 'f'), ("verbose", 'v'), ("dir", 'd')] } ws fun a => do
    if a.operands.isEmpty then
      if a.has 'f' then return 0 else missingOperand "rm"
    else
      let fail (name : Octets) (e : IoError) : Doing Nat :=
        refuseTo "rm" ("cannot remove " ++ quotedName name ++ ": " ++ wordingOf e) 1
      let tell (name : Octets) : Doing Unit := do
        if a.has 'v' then writeText ("removed " ++ quotedName name ++ "\n")
      forAll a.operands fun name => do
        let p ← get
        let path := p.fileOf name
        let last := (withoutSlashes name).splitOn '/' |>.getLast?
        let asks := a.lastOf ['i', 'f'] = some 'i' && (p.disk.lstat path).isOk
        if asks && !(← confirms ("rm: remove " ++ quotedName name ++ "? ")) then return 0
        match p.disk.lstat path with
        | .error e =>
          if a.has 'f' && (e = .notFound || e = .notDirectory) then return 0
          else fail name (.system e)
        | .ok (_, .dir) =>
          if a.has 'r' || a.has 'R' then
            if last = some ['.'] || last = some ['.', '.'] then
              refuseTo "rm" ("refusing to remove '.' or '..' directory: skipping " ++
                quotedName name) 1
            else
              let r := p.disk.removeTree path
              set { p with disk := r.2 }
              match r.1 with
              | .ok () =>
                tell name
                return 0
              | .error e => fail name e
          else if a.has 'd' then
            match p.disk.removeDir path with
            | .ok d =>
              set { p with disk := d }
              return 0
            | .error e => fail name e
          else fail name (.system .isDirectory)
        | .ok _ =>
          match p.disk.unlink path with
          | .ok d =>
            set { p with disk := d }
            tell name
            return 0
          | .error e => fail name e

def unlinkOne (ws : List Octets) : Doing Nat := do
  match ws with
  | [name] =>
    let p ← get
    match p.disk.unlink (p.fileOf name) with
    | .ok d =>
      set { p with disk := d }
      return 0
    | .error e => refuseTo "unlink" ("cannot unlink " ++ quotedName name ++ ": " ++ wordingOf e) 1
  | _ => missingOperand "unlink"

def mkdir (ws : List Octets) : Doing Nat :=
  withArguments "mkdir" 1
    { flags := "pv", valued := "m", long := [("parents", 'p'), ("mode", 'm'), ("verbose", 'v')] } ws
    fun a => do
      if a.operands.isEmpty then missingOperand "mkdir"
      else
        forAll a.operands fun name => do
          let p ← get
          let (r, d) : Except IoError Unit × Disk :=
            if a.has 'p' then p.disk.makeDirs (p.fileOf name)
            else
              match p.disk.makeDir (p.fileOf name) with
              | .ok d => (.ok (), d)
              | .error e => (.error e, p.disk)
          set { p with disk := d }
          match r with
          | .ok () =>
            if a.has 'v' && !p.disk.pathExists (p.fileOf name) then
              writeText ("mkdir: created directory " ++ quotedName name ++ "\n")
            return 0
          | .error e =>
            refuseTo "mkdir" ("cannot create directory " ++ quotedName name ++ ": " ++ wordingOf e) 1

/-- Remove a directory, and those above it that become empty; the number bounds them. -/
def removeDirs (ignoring parents : Bool) : Nat → Octets → Doing Nat
  | 0, _ => return 0
  | n + 1, name => do
    let p ← get
    match p.disk.removeDir (p.fileOf name) with
    | .ok d =>
      set { p with disk := d }
      let up := withoutLastName name
      if parents && up ≠ ['.'] && up ≠ ['/'] then removeDirs ignoring parents n up else return 0
    | .error e =>
      if ignoring && e = .system .notEmpty then return 0
      else refuseTo "rmdir" ("failed to remove " ++ quotedName name ++ ": " ++ wordingOf e) 1

def rmdir (ws : List Octets) : Doing Nat :=
  withArguments "rmdir" 1
    { flags := "piv"
      long := [("parents", 'p'), ("ignore-fail-on-non-empty", 'i'), ("verbose", 'v')] } ws fun a => do
    if a.operands.isEmpty then missingOperand "rmdir"
    else forAll a.operands fun name => removeDirs (a.has 'i') (a.has 'p') (name.length + 1) name

def touch (ws : List Octets) : Doing Nat :=
  withArguments "touch" 1
    { flags := "amcfh", valued := "drt"
      long := [("no-create", 'c'), ("date", 'd'), ("reference", 'r')] } ws fun a => do
    if a.operands.isEmpty then missingOperand "touch"
    else
      forAll a.operands fun name => do
        let p ← get
        if a.has 'c' || p.disk.pathExists (p.fileOf name) then return 0
        else
          match p.disk.write (p.fileOf name) ByteArray.empty false with
          | .ok d =>
            set { p with disk := d }
            return 0
          | .error e => refuseTo "touch" ("cannot touch " ++ quotedName name ++ ": " ++ wordingOf e) 1

/-- Change how long files are: by a difference, or to a size. -/
def truncate (ws : List Octets) : Doing Nat :=
  withArguments "truncate" 1
    { flags := "co", valued := "sr", long := [("size", 's'), ("reference", 'r'), ("no-create", 'c')] }
    ws fun a => do
      let p ← get
      let size : Option (Option Char × Nat) := match a.value? 's', a.value? 'r' with
        | some s, _ => signedCount s
        | none, some r => (p.disk.size (p.fileOf r)).toOption.map fun n => (none, n)
        | none, none => none
      match size with
      | none => refuseTo "truncate" "you must specify either '--size' or '--reference'" 1
      | some (sign, n) =>
        forAll a.operands fun name => do
          let p ← get
          let old := ((p.disk.read (p.fileOf name)).toOption).getD ByteArray.empty
          let wanted := match sign with
            | some '+' => old.size + n
            | some _ => old.size - n
            | none => n
          let content := old.extract 0 wanted ++
            ⟨(List.replicate (wanted - old.size) 0).toArray⟩
          if a.has 'c' && !p.disk.pathExists (p.fileOf name) then return 0
          else
            match p.disk.write (p.fileOf name) content false with
            | .ok d =>
              set { p with disk := d }
              return 0
            | .error e =>
              refuseTo "truncate" ("cannot open " ++ quotedName name ++ " for writing: " ++
                wordingOf e) 1

/-- Make links: symbolic ones, or second names of a file. -/
def ln (ws : List Octets) : Doing Nat :=
  withArguments "ln" 1
    { flags := "sfnrvTiLPb", valued := "t"
      long := [("symbolic", 's'), ("force", 'f'), ("no-dereference", 'n'), ("relative", 'r'),
        ("no-target-directory", 'T'), ("target-directory", 't'), ("verbose", 'v')] } ws fun a => do
    let a := match a.operands with
      | [source] => { a with operands := [source, ['.']] }
      | _ => a
    let one (source name : Octets) : Doing Nat := do
      let p ← get
      let path := p.fileOf name
      let there := (p.disk.lstat path).isOk
      let made : Except IoError Disk := do
        let d ← if a.has 'f' && there then p.disk.unlink path else .ok p.disk
        match d.locate .entry path with
        | .error e => .error (.system e)
        | .ok place =>
          if (d.get? place).isSome then .error (.system .alreadyExists)
          else if a.has 's' then .ok (d.put place (.link (Octets.text source)))
          else
            match d.lstat (p.fileOf source) with
            | .error e => .error (.system e)
            | .ok (_, .dir) => .error (.system .permissionDenied)
            | .ok (_, n) => .ok (d.put place n)
      match made with
      | .ok d =>
        set { p with disk := d }
        if a.has 'v' then
          writeText (quotedName name ++ (if a.has 's' then " -> " else " => ") ++
            quotedName source ++ "\n")
        return 0
      | .error e =>
        refuseTo "ln" ("failed to create " ++ (if a.has 's' then "symbolic" else "hard") ++
          " link " ++ quotedName name ++ ": " ++ wordingOf e) 1
    let isLink (name : Octets) (p : Process) : Bool := match p.disk.lstat (p.fileOf name) with
      | .ok (_, .link _) => true
      | _ => false
    match a.has 'n', a.operands with
    | true, [source, target] =>
      let p ← get
      if isLink target p then one source target else withTarget "ln" a one
    | _, _ => withTarget "ln" a one

/-- Whether a mode lets a file be run, `x` being what it was; there is none if the mode is not one. -/
def runnableBy (mode : Octets) (x : Bool) : Option Bool :=
  if mode.isEmpty then none
  else if mode.all isOctal then some (mode.any fun c => (c.toNat - '0'.toNat) % 2 = 1)
  else
    (mode.splitOn ',').foldl (fun known clause => known.bind fun x =>
      let who := clause.takeWhile fun c => ['u', 'g', 'o', 'a'].contains c
      let rest := clause.drop who.length
      let concerns := who.isEmpty || who.contains 'u' || who.contains 'a'
      match rest with
      | sign :: letters =>
        if !(['+', '-', '='].contains sign) ||
            !letters.all fun c => "rwxXstugo".toList.contains c then none
        else if !concerns then some x
        else
          let names := letters.contains 'x' || (letters.contains 'X' && x)
          match sign with
          | '+' => some (x || names)
          | '-' => some (x && !names)
          | _ => some names
      | [] => none) (some x)

def chmod (ws : List Octets) : Doing Nat := do
  let (flags, rest) := ws.span fun w =>
    [['-', 'R'], ['-', 'v'], ['-', 'f'], ['-', 'c'], ['-', '-']].contains w
  match rest with
  | mode :: names =>
    if (runnableBy mode false).isNone then
      refuseTo "chmod" ("invalid mode: " ++ quotedName mode) 1
    else if names.isEmpty then refuseTo "chmod" ("missing operand after " ++ quotedName mode) 1
    else
      let p ← get
      let all := if flags.contains ['-', 'R'] then names.flatMap (pathsBelow p treeDepth) else names
      forAll all fun name => do
        let p ← get
        match p.disk.stat (p.fileOf name) with
        | .error e => refuseTo "chmod" ("cannot access " ++ quotedName name ++ ": " ++ e.wording) 1
        | .ok (place, .file id content x) =>
          set { p with disk := p.disk.put place (.file id content ((runnableBy mode x).getD x)) }
          return 0
        | .ok _ => return 0
  | [] => missingOperand "chmod"

/-- Change what is not kept here: only whether the files are there matters. -/
def onlyLook (program : String) (ws : List Octets) : Doing Nat := do
  let operands := ws.filter fun w => w.head? ≠ some '-'
  forAll (operands.drop 1) fun name => do
    let p ← get
    if p.disk.pathExists (p.fileOf name) then return 0
    else refuseTo program ("cannot access " ++ quotedName name ++ ": No such file or directory") 1

/-- Make a file or a directory of a name that nothing has yet. -/
def mktemp (ws : List Octets) : Doing Nat :=
  withArguments "mktemp" 1
    { flags := "duqt", valued := "pS", long := [("directory", 'd'), ("tmpdir", 'p'),
        ("suffix", 'S'), ("dry-run", 'u'), ("quiet", 'q')] } ws fun a => do
    let p ← get
    let base := (a.value? 'p').getD ((p.valueOf? "TMPDIR").getD "/tmp".toList)
    let template := a.operands.headD "tmp.XXXXXXXXXX".toList
    let placed := a.operands.isEmpty || a.has 'p' || a.has 't'
    let behind := ((template.reverse.dropWhile (· ≠ 'X')).length)
    let front := template.take behind
    let marks := (front.reverse.takeWhile (· = 'X')).length
    if marks < 3 then refuseTo "mktemp" ("too few X's in template " ++ quotedName template) 1
    else
      let name (n : Nat) : Octets :=
        let id := padded false 'a' marks (naturalText n)
        let text := front.take (front.length - marks) ++ id.drop (id.length - marks) ++
          template.drop behind ++ (a.value? 'S').getD []
        if placed then below base text else text
      let free := ((List.range 100000).map fun n => name (n + p.lastId)).find? fun n =>
        !(p.disk.lstat (p.fileOf n)).isOk
      let chosen := free.getD (name 0)
      let made : Except IoError Disk :=
        if a.has 'u' then .ok p.disk
        else if a.has 'd' then p.disk.makeDir (p.fileOf chosen)
        else p.disk.write (p.fileOf chosen) ByteArray.empty false
      match made with
      | .ok d =>
        set { p with disk := d }
        write (chosen ++ ['\n'])
        return 0
      | .error e =>
        refuseTo "mktemp" ("failed to create " ++ (if a.has 'd' then "directory" else "file") ++
          " via template " ++ quotedName template ++ ": " ++ wordingOf e) 1

/-! ### Looking -/

/-- A path with all links and dots followed; a name may be missing at its end, or anywhere. -/
def settledPath (p : Process) (missing : Bool) : Nat → Octets → Option Octets
  | 0, _ => none
  | n + 1, name =>
    match p.disk.canonical (p.fileOf name) with
    | .ok path => some (Octets.ofString path.text)
    | .error _ =>
      let trimmed := withoutSlashes name
      let up := withoutLastName trimmed
      if trimmed.isEmpty || (up = trimmed) then none
      else
        match p.disk.lstat (p.fileOf trimmed), p.disk.isDir (p.fileOf up) || missing with
        | .ok (_, .link text), _ =>
          let text := Octets.ofString text
          settledPath p missing n (if text.head? = some '/' then text else below up text)
        | _, true => (settledPath p missing n up).map fun dir => below dir (lastName trimmed)
        | _, false => none

def readlink (ws : List Octets) : Doing Nat :=
  withArguments "readlink" 1
    { flags := "femnqszv"
      long := [("canonicalize", 'f'), ("canonicalize-existing", 'e'),
        ("canonicalize-missing", 'm'), ("no-newline", 'n')] } ws fun a => do
    if a.operands.isEmpty then missingOperand "readlink"
    else
      let stop : Octets := if a.has 'n' then [] else if a.has 'z' then ['\x00'] else ['\n']
      forAll a.operands fun name => do
        let p ← get
        let found : Option Octets :=
          if a.has 'e' then
            (p.disk.canonical (p.fileOf name)).toOption.map fun q => Octets.ofString q.text
          else if a.has 'f' || a.has 'm' then settledPath p (a.has 'm') 100 name
          else
            match p.disk.lstat (p.fileOf name) with
            | .ok (_, .link text) => some (Octets.ofString text)
            | _ => none
        match found with
        | some o =>
          write (o ++ stop)
          return 0
        | none => return 1

def realpath (ws : List Octets) : Doing Nat :=
  withArguments "realpath" 1
    { flags := "emsqzLP", valued := "R"
      long := [("canonicalize-existing", 'e'), ("canonicalize-missing", 'm'), ("strip", 's'),
        ("no-symlinks", 's'), ("relative-to", 'R')] } ws fun a => do
    if a.operands.isEmpty then missingOperand "realpath"
    else
      forAll a.operands fun name => do
        let p ← get
        let found : Option Octets :=
          if a.has 'e' then
            (p.disk.canonical (p.fileOf name)).toOption.map fun q => Octets.ofString q.text
          else if a.has 's' then some (settlePath (Octets.ofString (p.fileOf name).text))
          else settledPath p (a.has 'm') 100 name
        match found with
        | some o =>
          let shown := match a.value? 'R' with
            | none => o
            | some base => relativeTo ((settledPath p true 100 base).getD base) o
          write (shown ++ ['\n'])
          return 0
        | none =>
          refuseTo "realpath" (Octets.text name ++ ": No such file or directory") 1
where
  relativeTo (base o : Octets) : Octets :=
    let bs := (base.splitOn '/').filter (· ≠ [])
    let os := (o.splitOn '/').filter (· ≠ [])
    let shared := ((bs.zip os).takeWhile fun e => e.1 = e.2).length
    let parts := (List.replicate (bs.length - shared) ['.', '.']) ++ os.drop shared
    if parts.isEmpty then ['.'] else List.intercalate ['/'] parts

/-- How many links lead to a node. -/
def linkCount (p : Process) (name : Octets) : Nat :=
  match p.disk.lstat (p.fileOf name) with
  | .ok (place, .dir) =>
    2 + ((p.disk.below place).filter fun e => e.1.length = 1 && e.2.isDir).length
  | .ok (_, .file id _ _) =>
    (p.disk.entries.filter fun e => match e.2 with
      | .file i _ _ => i = id
      | _ => false).length
  | _ => 1

/-- What a letter of a format for files stands for. -/
def statPart (name : Octets) (p : Process) (c : Char) : Octets :=
  let node := (p.disk.lstat (p.fileOf name)).toOption.map Prod.snd
  match c with
  | 'n' => name
  | 's' => match node with
    | some (.file _ content _) => naturalText content.size
    | some (.link t) => naturalText t.utf8ByteSize
    | _ => naturalText 4096
  | 'F' => (match node with
    | some (.file _ content _) => if content.isEmpty then "regular empty file" else "regular file"
    | some .dir => "directory"
    | some (.link _) => "symbolic link"
    | _ => "character special file").toList
  | 'a' => (match node with
    | some (.file _ _ true) => "755"
    | some (.file _ _ false) => "644"
    | some .dir => "755"
    | some (.link _) => "777"
    | _ => "666").toList
  | 'A' => (match node with
    | some (.file _ _ true) => "-rwxr-xr-x"
    | some (.file _ _ false) => "-rw-r--r--"
    | some .dir => "drwxr-xr-x"
    | some (.link _) => "lrwxrwxrwx"
    | _ => "crw-rw-rw-").toList
  | 'U' => "root".toList
  | 'G' => "root".toList
  | 'h' => naturalText (linkCount p name)
  | 'u' => ['0']
  | 'N' => '\'' :: name ++ ['\'']
  | _ => ['0']


/-- How many thousands of octets a node takes. -/
def blocksOf (p : Process) (name : Octets) : Nat :=
  match p.disk.lstat (p.fileOf name) with
  | .ok (_, .file _ content _) => (content.size + 4095) / 4096 * 4
  | .ok (_, .dir) => 4
  | _ => 0

/-- Lines with all that is known about nodes, given by their paths and what is shown for them. -/
def longLines (p : Process) (a : Arguments) (nodes : List (Octets × Octets)) : List Octets :=
  let counts := nodes.map fun n => naturalText (linkCount p n.1)
  let sizes := nodes.map fun n => statPart n.1 p 's'
  let widest (os : List Octets) : Nat := (os.map List.length).foldl max 0
  let owner : Octets := if a.has 'n' then ['0'] else "root".toList
  let owners : Octets :=
    (if a.has 'g' then [] else owner ++ [' ']) ++ (if a.has 'o' || a.has 'G' then [] else owner ++ [' '])
  (nodes.zip (counts.zip sizes)).map fun (n, count, size) =>
    let target : Octets := match p.disk.lstat (p.fileOf n.1) with
      | .ok (_, .link t) => " -> ".toList ++ Octets.ofString t
      | _ => []
    statPart n.1 p 'A' ++ ' ' :: padded false ' ' (widest counts) count ++ ' ' :: owners ++
      padded false ' ' (widest sizes) size ++ " Jan  1 00:00 ".toList ++ n.2 ++ target

/-- List the operands that are files, then what each directory holds. Names that start with a dot
are left out unless an option asks for them; several operands need headings. -/
def ls (ws : List Octets) : Doing Nat :=
  withArguments "ls" 2
    { flags := "aAdl1rtRSFpihnoqsUXCxmkLHQGgcufBN", valued := "wIT"
      long := [("all", 'a'), ("almost-all", 'A'), ("directory", 'd'), ("reverse", 'r'),
        ("recursive", 'R'), ("color", 'N'), ("classify", 'F'), ("size", 's')] } ws fun a => do
    let turned (xs : List Octets) : List Octets := if a.has 'r' then xs.reverse else xs
    let subjects := turned ((if a.operands.isEmpty then [['.']] else a.operands).mergeSort
      Octets.isUpTo)
    let p ← get
    let missing := subjects.filter fun w => !(p.disk.stat (p.fileOf w)).isOk &&
      !(p.disk.lstat (p.fileOf w)).isOk
    let status ← forAll missing fun w => do
      let why := match p.disk.stat (p.fileOf w) with
        | .error e => e.wording
        | .ok _ => ""
      refuseTo "ls" ("cannot access " ++ quotedName w ++ ": " ++ why) 2
    let isDirectory (w : Octets) : Bool := p.disk.isDir (p.fileOf w) && !a.has 'd'
    let files := subjects.filter fun w => !missing.contains w && !isDirectory w
    let marked (dir w : Octets) : Octets :=
      let path := p.fileOf (if dir.isEmpty then w else below dir w)
      let mark : Octets := if !(a.has 'F' || a.has 'p') then []
        else
          match p.disk.lstat path with
          | .ok (_, .dir) => ['/']
          | .ok (_, .link _) => if a.has 'F' then ['@'] else []
          | .ok (_, .file _ _ x) => if x && a.has 'F' then ['*'] else []
          | _ => []
      w ++ mark
    let names (w : Octets) : List Octets :=
      let dots : List Octets := if a.has 'a' then [['.'], ['.', '.']] else []
      let names := dots ++ (namesIn p.disk (p.fileOf w)).filter fun name =>
        a.has 'a' || a.has 'A' || name.head? ≠ some '.'
      let size (n : Octets) : Nat := numberOf (statPart (below w n) p 's')
      turned (if a.has 'S' then names.mergeSort fun x y => decide (size y ≤ size x) else names)
    let dirs := subjects.filter isDirectory
    let deep (w : Octets) : List Octets :=
      if a.has 'R' then (pathsBelow p treeDepth w).filter fun n => Shell.isDirectory p n || n = w
      else [w]
    let dirs := dirs.flatMap deep
    let headed := subjects.length > 1 || a.has 'R'
    let isLong := ['l', 'n', 'o', 'g'].any a.has
    let lines (dir : Octets) (ws : List Octets) : Octets :=
      if isLong then
        Octets.unlines (longLines p a (ws.map fun w =>
          (if dir.isEmpty then w else below dir w, marked dir w)))
      else
        let ws := ws.map (marked dir)
        if a.has 'm' then (if ws.isEmpty then [] else List.intercalate [',', ' '] ws ++ ['\n'])
        else Octets.unlines ws
    let sections := dirs.map fun w =>
      let total := (names w).foldl (fun sum n => sum + blocksOf p (below w n)) 0
      (if headed then w ++ [':', '\n'] else []) ++
        (if isLong || a.has 's' then "total ".toList ++ naturalText total ++ ['\n'] else []) ++
        lines w (names w)
    write (List.intercalate ['\n']
      ((if files.isEmpty then [] else [lines [] files]) ++ sections))
    return status

def statText (name : Octets) (p : Process) : Octets → Octets
  | '%' :: '%' :: cs => '%' :: statText name p cs
  | '%' :: c :: cs => statPart name p c ++ statText name p cs
  | c :: cs => c :: statText name p cs
  | [] => []

def stat (ws : List Octets) : Doing Nat :=
  withArguments "stat" 1
    { flags := "Lft", valued := "cP", long := [("format", 'c'), ("printf", 'P'), ("dereference", 'L')] }
    ws fun a =>
      forAll a.operands fun name => do
        let p ← get
        match p.disk.lstat (p.fileOf name) with
        | .error e =>
          refuseTo "stat" ("cannot statx " ++ quotedName name ++ ": " ++ e.wording) 1
        | .ok _ =>
          match a.value? 'P' with
          | some f => write (unescape { many := true } 0 (statText name p f)).1
          | none => write (statText name p ((a.value? 'c').getD "%n".toList) ++ ['\n'])
          return 0

/-! ### Comparing -/

/-- The first place where two texts differ, or how long the shorter one is. -/
def firstDifference : Nat → Octets → Octets → Nat
  | n, a :: as, b :: bs => if a = b then firstDifference (n + 1) as bs else n
  | n, _, _ => n

def cmp (ws : List Octets) : Doing Nat :=
  withArguments "cmp" 2
    { flags := "slb", valued := "in", long := [("silent", 's'), ("quiet", 's'), ("bytes", 'n')] } ws
    fun a => do
      match a.operands with
      | x :: more =>
        let y := more.headD ['-']
        match ← readFor "cmp" x, ← readFor "cmp" y with
        | some s, some t =>
          let cut (o : Octets) : Octets := match a.value? 'n' with
            | some n => o.take (numberOf n)
            | none => o
          let s := cut s
          let t := cut t
          let i := firstDifference 0 s t
          if s = t then return 0
          else if a.has 's' then return 1
          else
            let line := (s.take i).count '\n' + 1
            if i = s.length ∨ i = t.length then
              let shorter := if i = s.length then x else y
              complain ("cmp: EOF on " ++ Octets.text shorter ++
                (if i = 0 then " which is empty"
                 else " after byte " ++ Text.natText i ++ ", " ++
                  (if (s.take i).getLast? = some '\n' then "line " ++ Text.natText (line - 1)
                   else "in line " ++ Text.natText line)))
            else if a.has 'l' then
              let pairs := (s.zip t).zipIdx.filter fun e => e.1.1 ≠ e.1.2
              let width := (naturalText (min s.length t.length)).length
              let octal (c : Char) : Octets := padded false ' ' 3 (Nat.toDigits 8 c.toNat)
              for e in pairs do
                write (padded false ' ' width (naturalText (e.2 + 1)) ++ ' ' :: octal e.1.1 ++
                  ' ' :: octal e.1.2 ++ ['\n'])
            else
              write (x ++ ' ' :: y ++ (" differ: char " ++ Text.natText (i + 1) ++ ", line " ++
                Text.natText line ++ "\n").toList)
            return 1
        | _, _ => return 2
      | [] => refuseTo "cmp" "missing operand after 'cmp'" 2

end Whittle.Shell
