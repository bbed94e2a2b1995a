import Whittle.Shell.Awk
import Whittle.Shell.Blocks
import Whittle.Shell.Calendar
import Whittle.Shell.Conditions
import Whittle.Shell.Difference
import Whittle.Shell.Digest
import Whittle.Shell.Editor
import Whittle.Shell.Find
import Whittle.Shell.Formula
import Whittle.Shell.Launchers
import Whittle.Shell.Letters
import Whittle.Shell.Search
import Whittle.Shell.Sorting

/-!
# The programs that come with the system

`utilities` has every program that is no shell under its name. `install` puts all of them into the
usual directories, together with a place for files of passing use and the device that takes
everything.
-/

namespace Whittle.Shell

open Doing

def succeed (_ : List Octets) : Doing Nat := return 0

def fail (_ : List Octets) : Doing Nat := return 1

/-- Write words by a format in which a quote or a code point may be escaped. -/
def printf (ws : List Octets) : Doing Nat := do
  let ws := if ws.head? = some ['-', '-'] then ws.drop 1 else ws
  match ws with
  | [] => missingOperand "printf"
  | spec :: arguments =>
    let r := format { many := true, quotes := true, stops := true, wide := true } spec arguments
    write r.text
    for o in r.bad do
      complain ("printf: " ++ quotedName o ++ (if o.head? = some '%' then ": invalid directive"
        else ": expected a numeric value"))
    return if r.bad.isEmpty then 0 else 1

/-- The directory as a program sees it. -/
def physicalDir (_ : List Octets) : Doing Nat := do
  let p ← get
  match p.disk.stat p.cwd with
  | .ok (place, _) =>
    write (Octets.ofString (Disk.pathOf place).text ++ ['\n'])
    return 0
  | .error e => refuseTo "pwd" ("error retrieving current directory: " ++ e.wording) 1

/-- Run a program with a lower priority, which makes no difference here. -/
def nice : Utility := fun caller ws => do
  if ws.isEmpty then saying "0" []
  else
    let digits (w : Octets) : Bool := match w with
      | '-' :: c :: _ => Text.isDigit c
      | _ => false
    let ws := if ws.head?.any digits then ws.drop 1 else ws
    runPlainly "nice" { valued := "n", long := [("adjustment", 'n')] } 0 125 caller ws

/-- Tell that the input is no terminal. -/
def noTerminal (_ : List Octets) : Doing Nat := do
  writeText "not a tty\n"
  return 1

/-- The programs that are no shells. -/
def utilities : List (String × Utility) :=
  [("[", alone (testBuiltin "[")), ("arch", alone (saying "x86_64")), ("awk", Awk.awk),
   ("base32", alone base32), ("base64", alone base64), ("basename", alone basename), ("cat", alone cat),
   ("chgrp", alone (onlyLook "chgrp")), ("chmod", alone chmod), ("chown", alone (onlyLook "chown")),
   ("cksum", alone Digest.checkSumTool), ("cmp", alone cmp), ("comm", alone comm),
   ("cp", alone cp), ("cut", alone cut),
   ("date", alone date), ("dd", alone dd), ("diff", alone diff), ("dir", alone ls),
   ("dirname", alone dirname), ("echo", alone echoPlain), ("egrep", alone egrep), ("env", env),
   ("expand", alone expand), ("expr", alone expr),
   ("factor", alone factor), ("false", alone fail), ("fgrep", alone fgrep),
   ("find", find), ("fold", alone fold), ("grep", alone grep), ("groups", alone (saying "root")),
   ("head", alone head), ("hostname", alone (saying "localhost")), ("id", alone idWords),
   ("install", alone installFiles), ("join", alone join), ("kill", alone kill), ("link", alone ln),
   ("ln", alone ln), ("logname", alone (saying "root")), ("ls", alone ls), ("mawk", Awk.awk),
   ("md5sum", alone (Digest.tool "md5sum" Digest.md5)), ("mkdir", alone mkdir),
   ("mktemp", alone mktemp), ("mv", alone mv), ("nice", nice),
   ("nl", alone nl), ("nohup", runPlainly "nohup" {} 0 125), ("nproc", alone (saying "1")),
   ("od", alone od), ("paste", alone paste), ("printenv", alone printenv), ("printf", alone printf),
   ("pwd", alone physicalDir), ("readlink", alone readlink), ("realpath", alone realpath),
   ("rev", alone rev), ("rm", alone rm), ("rmdir", alone rmdir), ("sed", Editor.sed),
   ("seq", alone seq), ("setsid", runPlainly "setsid" { flags := "cfw" } 0 1),
   ("sha1sum", alone (Digest.tool "sha1sum" Digest.sha1)),
   ("sha224sum", alone (Digest.tool "sha224sum" Digest.sha224)),
   ("sha256sum", alone (Digest.tool "sha256sum" Digest.sha256)),
   ("sha384sum", alone (Digest.tool "sha384sum" Digest.sha384)),
   ("sha512sum", alone (Digest.tool "sha512sum" Digest.sha512)), ("sleep", alone sleep),
   ("sort", alone sort), ("split", alone split), ("stat", alone stat),
   ("stdbuf", runPlainly "stdbuf" { valued := "ioe" } 0 125), ("sync", alone succeed),
   ("tac", alone tac), ("tail", alone tail), ("tee", alone tee), ("test", alone (testBuiltin "test")),
   ("timeout", timeout), ("touch", alone touch), ("tr", alone tr), ("true", alone succeed),
   ("truncate", alone truncate), ("tsort", alone tsort), ("tty", alone noTerminal),
   ("unexpand", alone unexpand), ("uname", alone uname), ("uniq", alone uniq),
   ("unlink", alone unlinkOne), ("wc", alone wc), ("which", alone which),
   ("whoami", alone (saying "root")), ("xargs", xargs), ("yes", alone yes)]

def shells : List (String × Dialect) := [("sh", .plain), ("dash", .plain), ("bash", .rich)]

/-- The directories that programs of the system stand in. -/
def systemDirs : List Location := [["bin"], ["usr", "bin"]]

/-- The disk with the programs of the system. -/
def install (d : Disk) : Disk :=
  let names := utilities.map Prod.fst ++ shells.map Prod.fst
  let d := [["bin"], ["dev"], ["tmp"], ["usr"], ["usr", "bin"]].foldl (fun d l => d.put l .dir) d
  let d := d.put ["dev", "null"] .sink
  systemDirs.foldl (fun d dir => names.foldl (fun d name =>
    let content := Octets.toBytes (systemMark ++ name.toList)
    { d.put (dir ++ [name]) (.file d.nextId content true) with nextId := d.nextId + 1 }) d) d

end Whittle.Shell
