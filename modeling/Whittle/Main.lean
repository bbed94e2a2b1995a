import Whittle.CommandLine.Run
import Whittle.Disk.Changes
import Whittle.Shell.Launch

/-!
# The program

The command line runs on a picture of the directory it is started in, and what the run has changed
there is then done to the directory itself. Tools are scripts of the shell below that directory.
-/

namespace Whittle.Program

open Whittle

/-- The names of a path from the root down. -/
def locationOf (text : String) : Location := Disk.namesOf text

/-- A picture of the directories on the way to a place. -/
def wayTo (place : Location) (d : Disk) : Disk :=
  ((List.range place.length).map fun n => place.take (n + 1)).foldl (fun d l => d.put l .dir) d

/-- Add what stands at a path, and below it, to a picture. Scripts count as programs. -/
partial def observe (d : Disk) (text : String) : IO Disk := do
  let path := (← IO.currentDir) / text
  let place := locationOf text
  match (← path.metadata).type with
  | .dir =>
    let mut d := d.put place .dir
    for e in ← path.readDir do
      d ← observe d (text ++ "/" ++ e.fileName)
    return d
  | .file =>
    let content ← IO.FS.readBinFile path
    let runnable := (content.extract 0 2).toList = [0x23, 0x21]
    return { d.put place (.file d.nextId content runnable) with nextId := d.nextId + 1 }
  | _ => return d

/-- Do to the file system what was done to a picture of it. -/
def apply (c : Change) : IO Unit := do
  let here ← IO.currentDir
  let path (place : Location) := here / (Disk.pathOf place).text
  match c with
  | .remove place true => IO.FS.removeDir (path place)
  | .remove place false => IO.FS.removeFile (path place)
  | .makeDir place => IO.FS.createDirAll (path place)
  | .write place content _ => IO.FS.writeBinFile (path place) content
  | .link place target =>
    IO.eprintln ("cannot link " ++ (Disk.pathOf place).text ++ " to " ++ target)

/-- An identifier made of random octets and a number. -/
def idText (random : ByteArray) (n : Nat) : String :=
  let digits := random.toList.flatMap fun b => [b.toNat / 16, b.toNat % 16]
  let hex := String.ofList (digits.map Json.hexDigit)
  let part (i j : Nat) : String := String.ofList ((hex.toList.drop i).take (j - i))
  let tail := Text.natText n
  part 0 8 ++ "-" ++ part 8 12 ++ "-4" ++ part 13 16 ++ "-8" ++ part 17 20 ++ "-" ++
    part 20 (32 - tail.length) ++ tail

def hostNow : IO Host := do
  let dirs := (← IO.getEnv "PATH").map fun p =>
    ((p.toList.splitOn ':').map fun cs => Path.mk (String.ofList cs))
  let random ← IO.getRandomBytes 16
  let time ← IO.monoNanosNow
  let id := (random.toList.take 2).foldl (fun n b => 256 * n + b.toNat) 0
  return {
    launch := Shell.launch dirs (id + 1)
    searchPath := dirs
    freshId := idText random
    processId := id
    now := (time / 1000000000, time % 1000000000) }

def noticeText (n : Notice) : String :=
  match n.severity with
  | .warning => "[WARN] " ++ n.text
  | .error => "[ERROR] " ++ n.text

/-- What a command line that leads to no request is answered with. -/
def answer (h : CommandLine.Halt) : IO Unit :=
  match h with
  | .help => IO.println CommandLine.usage
  | .version => IO.println (CommandLine.programName ++ " " ++ programVersion)
  | .refused r => IO.eprintln ("error: " ++ r.message ++ "\n\n" ++ CommandLine.usage)

end Whittle.Program

open Whittle in
def main (words : List String) : IO UInt32 := do
  match CommandLine.read words with
  | .error h =>
    Program.answer h
    return h.exitCode.toUInt32
  | .ok request =>
    let here := (← IO.currentDir).toString
    let place := Program.locationOf here
    let picture ← Program.observe (Program.wayTo place (Shell.install .empty)) here
    let picture := { picture with cwd := place }
    let (code, world) := request.run (← Program.hostNow) (.ofDisk picture)
    for c in picture.changes world.disk do
      Program.apply c
    for n in world.notices do
      IO.eprintln (Program.noticeText n)
    return code.toUInt32
