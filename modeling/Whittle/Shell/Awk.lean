import Whittle.Shell.AwkValue
import Whittle.Shell.Engine
import Whittle.Shell.Utility

/-!
# Running awk

The rules of a program see one record after the other. Variables and arrays are kept in cells; a cell
may stand for another one, so that a function can fill an array that it was given. Files and programs
that are written to or read from stay open until they are closed.
-/

namespace Whittle.Shell.Awk

open Doing

inductive Cell where
  | untouched
  | value (v : Value)
  /-- The elements, the newest first. -/
  | array (es : List (Octets × Value))
  /-- What an earlier cell is. -/
  | same (cell : Nat)
  deriving Inhabited

/-- Where output goes that stays open. -/
inductive Writer where
  | file (key : Nat)
  /-- What was written to a program that is yet to run, the last piece first. -/
  | program (pieces : List Octets)

structure State where
  program : Program := {}
  caller : Caller
  cells : Array Cell := #[]
  globals : List (String × Nat) := []
  locals : List (String × Nat) := []
  record : Octets := []
  fields : Array Value := #[]
  /-- The text of the current file that was not read yet. -/
  current : Option Octets := none
  /-- The number of the next operand. -/
  operand : Nat := 1
  /-- Whether a file was named by the operands so far. -/
  named : Bool := false
  /-- What is left of files and of the output of programs. -/
  inputs : List (Octets × Octets) := []
  writers : List (Octets × Writer) := []
  /-- The rules whose range of records is open. -/
  within : List Nat := []
  /-- What chance was started from, and where it stands. -/
  seed : Value := .number 1
  chance : Nat := 1

/-- A jump out of statements. -/
inductive Jump where
  | next
  | nextFile
  | leave
  | again
  | back (v : Value)
  | exit (code : Option Nat)
  /-- Something failed that ends the program at once. -/
  | fatal (code : Nat)

abbrev Acting := ExceptT Jump (StateT State Doing)

def liftDoing {α : Type} (d : Doing α) : Acting α := liftM (m := StateT State Doing) (liftM d)

/-- Complain, and end the program. -/
def refuse {α : Type} (why : String) : Acting α := do
  liftDoing (complain ("awk: " ++ why))
  throw (.fatal 2)

/-! ### Variables -/

/-- The cell that a cell stands for. -/
def rootOf (cells : Array Cell) : Nat → Nat → Nat
  | 0, i => i
  | n + 1, i =>
    match cells[i]? with
    | some (.same j) => rootOf cells n j
    | _ => i

/-- The cell of a name, which is made if it is new. -/
def cellOf (name : String) : Acting Nat := do
  let s ← get
  match (Disk.valueAt name s.locals).or (Disk.valueAt name s.globals) with
  | some i => return i
  | none =>
    set { s with cells := s.cells.push .untouched, globals := (name, s.cells.size) :: s.globals }
    return s.cells.size

def setCell (i : Nat) (c : Cell) : Acting Unit :=
  modify fun s => { s with cells := s.cells.set! i c }

/-- The value of a variable. -/
def valueNamed (name : String) : Acting Value := do
  let i ← cellOf name
  match (← get).cells[i]? with
  | some (.value v) => return v
  | _ => return .unset

def setVariable (name : String) (v : Value) : Acting Unit := do setCell (← cellOf name) (.value v)

/-- The format for numbers that become texts. -/
def conversion : Acting Octets := do
  match ← valueNamed "CONVFMT" with
  | .string o => return o
  | .given o => return o
  | _ => return usualFormat

def textOf (v : Value) : Acting Octets := do return v.text (← conversion)

def textVariable (name : String) : Acting Octets := do textOf (← valueNamed name)

/-- The elements of an array, and the cell that holds them. -/
def elementsOf (name : String) : Acting (Nat × List (Octets × Value)) := do
  let i ← cellOf name
  let cells := (← get).cells
  let i := rootOf cells cells.size i
  match cells[i]? with
  | some (.array es) => return (i, es)
  | some (.value _) => refuse ("scalar " ++ name ++ " used as an array")
  | _ =>
    setCell i (.array [])
    return (i, [])

def setElement (name : String) (key : Octets) (v : Value) : Acting Unit := do
  let (i, es) ← elementsOf name
  let known := es.any fun e => e.1 = key
  setCell i (.array (if known then Disk.assign key v es else (key, v) :: es))

/-! ### Records -/

/-- The fields of a text by the separators in force. -/
def splitFields (text : Octets) : Acting (List Octets) := do
  let separator ← textVariable "FS"
  let records ← textVariable "RS"
  if records.isEmpty ∧ separator ≠ [' '] then
    return (text.splitOn '\n').flatMap (fieldsOf separator)
  else return fieldsOf separator text

def setRecord (o : Octets) : Acting Unit := do
  let fields ← splitFields o
  modify fun s => { s with record := o, fields := (fields.map Value.given).toArray }

/-- Make the record anew from its fields. -/
def joinRecord : Acting Unit := do
  let separator ← textVariable "OFS"
  let format ← conversion
  modify fun s =>
    { s with record := List.intercalate separator (s.fields.toList.map (Value.text format)) }

def setFieldCount (n : Nat) : Acting Unit := do
  modify fun s =>
    let missing := Array.replicate (n - s.fields.size) (Value.given [])
    { s with fields := s.fields.extract 0 n ++ missing }
  joinRecord

def setField (n : Nat) (v : Value) : Acting Unit := do
  if n = 0 then setRecord (← textOf v)
  else
    if n > (← get).fields.size then setFieldCount n
    modify fun s => { s with fields := s.fields.set! (n - 1) v }
    joinRecord

/-- Count a record that was read. -/
def countRecord (files : Bool) : Acting Unit := do
  setVariable "NR" (.number ((← valueNamed "NR").float + 1))
  if files then setVariable "FNR" (.number ((← valueNamed "FNR").float + 1))

/-- An assignment among the operands. -/
def assignment? (o : Octets) : Option (String × Octets) :=
  let name := o.takeWhile (· ≠ '=')
  let isName := (name.head?.any isNameStart) && name.all isNamePart
  if isName && name.length < o.length then
    let value := o.drop (name.length + 1)
    let plain := (readString (value.length + 2) (value.flatMap (fun c =>
      if c = '"' then ['\\', '"'] else [c]) ++ ['"'])).map Prod.fst
    some (String.ofList name, plain.getD value)
  else none

/-- Go on to the next file among the operands; the number bounds them. -/
def openNext : Nat → Acting Bool
  | 0 => return false
  | n + 1 => do
    let s ← get
    let count := truncated (← valueNamed "ARGC").float
    if (s.operand : Int) ≥ count then
      if s.named then return false
      else
        set { s with named := true }
        match ← liftDoing (readStream 0) with
        | .ok o =>
          modify fun s => { s with current := some o }
          return true
        | .error _ => return false
    else
      set { s with operand := s.operand + 1 }
      let (_, es) ← elementsOf "ARGV"
      let o ← textOf ((Disk.valueAt (naturalText s.operand) es).getD .unset)
      if o.isEmpty then openNext n
      else
        match assignment? o with
        | some (name, value) =>
          setVariable name (.given value)
          openNext n
        | none =>
          match ← liftDoing (contentOf o) with
          | .ok text =>
            setVariable "FILENAME" (.string o)
            setVariable "FNR" (.number 0)
            modify fun s => { s with current := some text, named := true }
            return true
          | .error e =>
            refuse ("cannot open \"" ++ Octets.text o ++ "\" (" ++ wordingOf e ++ ")")

/-- The next record of the files. The number bounds how many of them are gone through. -/
def nextRecord : Nat → Acting (Option Octets)
  | 0 => return none
  | n + 1 => do
    match (← get).current with
    | none => if ← openNext 100000 then nextRecord n else return none
    | some text =>
      match cutRecord (← textVariable "RS") text with
      | some (r, rest) =>
        modify fun s => { s with current := some rest }
        countRecord true
        return some r
      | none =>
        modify fun s => { s with current := none }
        if ← openNext 100000 then nextRecord n else return none

/-- The next line of a text that is kept under a name, and whether it was there; nothing if it cannot
be had. -/
def nextLine (name : Octets) (start : Acting (Option Octets)) :
    Acting (Option (Option Octets)) := do
  let text : Option Octets ← (match Disk.valueAt name (← get).inputs with
    | some o => return some o
    | none => start)
  match text with
  | none => return none
  | some text =>
    let cut := cutRecord (← textVariable "RS") text
    let rest := (cut.map Prod.snd).getD []
    modify fun s => { s with inputs := Disk.assign name rest s.inputs }
    return some (cut.map Prod.fst)

/-! ### Output -/

/-- Do something with a text as its input. -/
def withInput (o : Octets) (act : Doing Nat) : Doing Nat :=
  keepingStreams do
    let p ← get
    let (key, p) := p.addChannel (.source o)
    set (p.setStream 0 key)
    act

def sendTo (key : Nat) (o : Octets) : Acting Unit := do
  match (← liftDoing get).send key o with
  | .ok p => liftDoing (set p)
  | .error e => liftDoing (throw e)

/-- Write to a file, which is opened if this is the first time. -/
def writeToFile (name : Octets) (append : Bool) (o : Octets) : Acting Unit := do
  match Disk.valueAt name (← get).writers with
  | some (.file key) => sendTo key o
  | _ =>
    let special := if name = ['-'] then "/dev/stdout".toList else name
    match (← liftDoing get).openForWriting special append with
    | .ok (key, p) =>
      liftDoing (set p)
      modify fun s => { s with writers := (name, .file key) :: s.writers }
      sendTo key o
    | .error e => refuse ("cannot open \"" ++ Octets.text name ++ "\" (" ++ wordingOf e ++ ")")

/-- Write to a program, which runs when it is closed. -/
def writeToProgram (command o : Octets) : Acting Unit := do
  let s ← get
  let sofar : List Octets := match Disk.valueAt command s.writers with
    | some (.program pieces) => pieces
    | _ => []
  set { s with writers := Disk.assign command (.program (o :: sofar)) s.writers }

/-- Close what was opened under a name: the code, and less than that if there is none. -/
def closeNamed (name : Octets) : Acting Int := do
  let s ← get
  let read := s.inputs.any fun i => i.1 = name
  set { s with inputs := s.inputs.filter fun i => i.1 ≠ name
               writers := s.writers.filter fun w => w.1 ≠ name }
  match Disk.valueAt name s.writers with
  | some (.program pieces) =>
    return (← liftDoing (withInput pieces.reverse.flatten (s.caller.script name)))
  | some (.file _) => return 0
  | none => return if read then 0 else -1

/-- Run the programs that were written to. -/
def closeAll : Acting Unit := do
  for (name, _) in (← get).writers.reverse do
    let _ ← closeNamed name

/-! ### Expressions -/

/-- The expression of a text. -/
def regexOf (o : Octets) : Acting Regex := do
  match Regex.read regexForm o with
  | some r => return r
  | none => refuse ("regular expression compile failed (" ++ Octets.text o ++ ")")

/-- A replacement in which an ampersand stands for what was found. -/
def fillReplacement (found : Octets) : Octets → Octets
  | [] => []
  | '\\' :: '&' :: cs => '&' :: fillReplacement found cs
  | '\\' :: '\\' :: cs => '\\' :: fillReplacement found cs
  | '&' :: cs => found ++ fillReplacement found cs
  | c :: cs => c :: fillReplacement found cs

/-- Where a text stands in another, counted from one. -/
def indexOf (needle : Octets) (n : Nat) : Octets → Nat
  | [] => if needle.isEmpty then n else 0
  | c :: cs => if needle.isPrefixOf (c :: cs) then n else indexOf needle (n + 1) cs

/-- A number as the nearest whole one. -/
def nearestWhole (x : Float) : Int := truncated (x + (if x < 0 then -0.5 else 0.5))

/-- A part of a text, from a place counted from one. -/
def partText (o : Octets) (first : Float) (count : Option Float) : Octets :=
  let size : Int := o.length
  let first := nearestWhole first
  let stop := match count with
    | some c => min (size + 1) (first + nearestWhole c)
    | none => size + 1
  let first := max first 1
  (o.drop (first - 1).toNat).take (stop - first).toNat

/-- The next of a sequence of numbers without order. -/
def nextSeed (n : Nat) : Nat := (n * 6364136223846793005 + 1442695040888963407) % Nat.pow 2 64

/-- A function of numbers alone. -/
def numericFunction? (name : String) (x y : Float) : Option Float :=
  match name with
  | "sin" => some x.sin
  | "cos" => some x.cos
  | "atan2" => some (x.atan2 y)
  | "exp" => some x.exp
  | "log" => some x.log
  | "sqrt" => some x.sqrt
  | "int" => some (if x < 0 then x.ceil else x.floor)
  | _ => none

mutual

def eval (fuel : Nat) (e : Expr) : Acting Value := do
  match fuel with
  | 0 => refuse "program limit exceeded"
  | fuel + 1 =>
    match e with
    | .number digits => return .number (splitNumber digits).1
    | .string s => return .string s
    | .regex r => return .ofBool (r.matchesIn (← get).record)
    | .place p => load fuel p
    | .assign p operator e =>
      match operator with
      | none =>
        let v ← eval fuel e
        store fuel p v
        return v
      | some o =>
        let new ← eval fuel e
        let old ← load fuel p
        let v := Value.number (combine o old.float new.float)
        store fuel p v
        return v
    | .change p up before =>
      let old := (← load fuel p).float
      let new := if up then old + 1 else old - 1
      store fuel p (.number new)
      return .number (if before then old else new)
    | .choose c yes no => if (← eval fuel c).isTrue then eval fuel yes else eval fuel no
    | .and a b =>
      if (← eval fuel a).isTrue then return .ofBool (← eval fuel b).isTrue else return .ofBool false
    | .or a b =>
      if (← eval fuel a).isTrue then return .ofBool true else return .ofBool (← eval fuel b).isTrue
    | .not e => return .ofBool !(← eval fuel e).isTrue
    | .negate e => return .number (-(← eval fuel e).float)
    | .plus e => return .number (← eval fuel e).float
    | .arithmetic o a b =>
      let a ← eval fuel a
      let b ← eval fuel b
      return .number (combine o a.float b.float)
    | .concat a b =>
      let a ← eval fuel a
      let b ← eval fuel b
      return .string ((← textOf a) ++ (← textOf b))
    | .compare o a b =>
      let a ← eval fuel a
      let b ← eval fuel b
      return .ofBool (Value.holds (← conversion) o a b)
    | .accepts t pattern =>
      let t ← eval fuel t
      let r ← regexFor fuel pattern
      return .ofBool (r.matchesIn (← textOf t))
    | .holds key array =>
      let key ← keyOf fuel key
      let (_, es) ← elementsOf array
      return .ofBool (Disk.valueAt key es).isSome
    | .builtin name arguments => evalBuiltin fuel name arguments
    | .call name arguments => evalCall fuel name arguments
    | .getline source from_ target => evalGetline fuel source from_ target

def evalAll (fuel : Nat) (es : List Expr) : Acting (List Value) := do
  match fuel with
  | 0 => refuse "program limit exceeded"
  | fuel + 1 =>
    match es with
    | [] => return []
    | e :: es =>
      let v ← eval fuel e
      return v :: (← evalAll fuel es)

/-- The key that expressions stand for. -/
def keyOf (fuel : Nat) (es : List Expr) : Acting Octets := do
  match fuel with
  | 0 => refuse "program limit exceeded"
  | fuel + 1 =>
    let format ← conversion
    let parts := (← evalAll fuel es).map (Value.text format)
    return List.intercalate (← textVariable "SUBSEP") parts

/-- The expression that a pattern stands for: a literal one, or the text of its value. -/
def regexFor (fuel : Nat) (e : Expr) : Acting Regex := do
  match fuel with
  | 0 => refuse "program limit exceeded"
  | fuel + 1 =>
    match e with
    | .regex r => return r
    | e =>
      let v ← eval fuel e
      regexOf (← textOf v)

/-- The number of a field. -/
def fieldNumber (fuel : Nat) (e : Expr) : Acting Nat := do
  match fuel with
  | 0 => refuse "program limit exceeded"
  | fuel + 1 =>
    let n := truncated (← eval fuel e).float
    if n < 0 then refuse ("negative field index $" ++ Text.intText n) else return n.toNat

def load (fuel : Nat) (p : Place) : Acting Value := do
  match fuel with
  | 0 => refuse "program limit exceeded"
  | fuel + 1 =>
    match p with
    | .named "NF" => return .ofNat (← get).fields.size
    | .named name => valueNamed name
    | .field e =>
      let n ← fieldNumber fuel e
      let s ← get
      if n = 0 then return .given s.record
      else return (s.fields[n - 1]?).getD .unset
    | .element array key =>
      let key ← keyOf fuel key
      let (i, es) ← elementsOf array
      match Disk.valueAt key es with
      | some v => return v
      | none =>
        setCell i (.array ((key, .unset) :: es))
        return .unset

def store (fuel : Nat) (p : Place) (v : Value) : Acting Unit := do
  match fuel with
  | 0 => refuse "program limit exceeded"
  | fuel + 1 =>
    match p with
    | .named "NF" => setFieldCount (truncated v.float).toNat
    | .named name => setVariable name v
    | .field e =>
      let n ← fieldNumber fuel e
      setField n v
    | .element array key =>
      let key ← keyOf fuel key
      setElement array key v

def evalGetline (fuel : Nat) (source : Source) (from_ : Option Expr) (target : Option Place) :
    Acting Value := do
  match fuel with
  | 0 => refuse "program limit exceeded"
  | fuel + 1 =>
    let name : Octets ← (match from_ with
      | some e => do
        let v ← eval fuel e
        textOf v
      | none => return [])
    let line : Option (Option Octets) ← (match source with
      | .records => return some (← nextRecord 100000)
      | .file => nextLine name do
        match ← liftDoing (contentOf name) with
        | .ok o => return some o
        | .error _ => return none
      | .program => nextLine name do
        let caller := (← get).caller
        let (o, _) ← liftDoing (capturing (caller.script name))
        return some o)
    match line with
    | none => return .number (-1)
    | some none => return .number 0
    | some (some l) =>
      if source = .program then countRecord false
      match target with
      | some p => store fuel p (.given l)
      | none => setRecord l
      return .number 1

/-- Replace matches in a place: how many. -/
def evalReplace (fuel : Nat) (all : Bool) (pattern replacement : Expr) (target : Place) :
    Acting Value := do
  match fuel with
  | 0 => refuse "program limit exceeded"
  | fuel + 1 =>
    let r ← regexFor fuel pattern
    let v ← eval fuel replacement
    let new ← textOf v
    let v ← load fuel target
    let old ← textOf v
    let t := old.toArray
    let found := r.occurrences t (if all then t.size + 1 else 1)
    if !found.isEmpty then
      let text := replaceFound t 0 (found.map fun m => (m, fillReplacement (m.text t) new))
      store fuel target (.string text)
    return .ofNat found.length

def evalBuiltin (fuel : Nat) (name : String) (arguments : List Expr) : Acting Value := do
  match fuel with
  | 0 => refuse "program limit exceeded"
  | fuel + 1 =>
    match name, arguments with
    | "length", [] => return .ofNat (← get).record.length
    | "length", [.place (.named a)] =>
      let i ← cellOf a
      let cells := (← get).cells
      match cells[rootOf cells cells.size i]? with
      | some (.array es) => return .ofNat es.length
      | _ =>
        let v ← load fuel (.named a)
        return .ofNat (← textOf v).length
    | "split", text :: .place (.named array) :: more =>
      let v ← eval fuel text
      let text ← textOf v
      let parts : List Octets ← (match more with
        | .regex r :: _ => return if text.isEmpty then [] else cutAt r text
        | e :: _ => do
          let v ← eval fuel e
          return fieldsOf (← textOf v) text
        | [] => splitFields text)
      let (i, _) ← elementsOf array
      let es := (parts.zipIdx 1).map fun p => (naturalText p.2, Value.given p.1)
      setCell i (.array es.reverse)
      return .ofNat parts.length
    | "sub", [p, r] => evalReplace fuel false p r (.field (.number ['0']))
    | "gsub", [p, r] => evalReplace fuel true p r (.field (.number ['0']))
    | "sub", [p, r, .place target] => evalReplace fuel false p r target
    | "gsub", [p, r, .place target] => evalReplace fuel true p r target
    | "match", [text, pattern] =>
      let v ← eval fuel text
      let t := (← textOf v).toArray
      let r ← regexFor fuel pattern
      match r.search t 0 with
      | some m =>
        setVariable "RSTART" (.ofNat (m.start + 1))
        setVariable "RLENGTH" (.ofNat (m.stop - m.start))
        return .ofNat (m.start + 1)
      | none =>
        setVariable "RSTART" (.number 0)
        setVariable "RLENGTH" (.number (-1))
        return .number 0
    | name, arguments =>
      let vs ← evalAll fuel arguments
      let format ← conversion
      let text (i : Nat) : Octets := (vs.getD i .unset).text format
      let number (i : Nat) : Float := (vs.getD i .unset).float
      match numericFunction? name (number 0) (number 1) with
      | some x => return .number x
      | none =>
        match name with
        | "length" => return .ofNat (text 0).length
        | "substr" => return .string (partText (text 0) (number 1) ((vs[2]?).map Value.float))
        | "index" => return .ofNat (indexOf (text 1) 1 (text 0))
        | "toupper" => return .string ((text 0).map Char.toUpper)
        | "tolower" => return .string ((text 0).map Char.toLower)
        | "sprintf" =>
          match printed format (text 0) (vs.drop 1) with
          | (o, true) => return .string o
          | _ => refuse ("run time error: not enough arguments passed to sprintf(\"" ++
              Octets.text (text 0) ++ "\")")
        | "rand" =>
          let chance := nextSeed (← get).chance
          modify fun s => { s with chance := chance }
          return .number ((chance / Nat.pow 2 11).toFloat / (Nat.pow 2 53 : Nat).toFloat)
        | "srand" =>
          let old := (← get).seed
          let new := if vs.isEmpty then Value.number 1700000000 else vs.headD .unset
          modify fun s => { s with seed := new, chance := (truncated new.float).natAbs }
          return old
        | "system" =>
          let caller := (← get).caller
          return .ofNat (← liftDoing (caller.script (text 0)))
        | "close" => return .number (Float.ofInt (← closeNamed (text 0)))
        | "systime" => return .number 1700000000
        | _ => return .number 0

/-- Call a function of the program. What has no value yet is given as the cell that it is, so that it
may become an array. -/
def evalCall (fuel : Nat) (name : String) (arguments : List Expr) : Acting Value := do
  match fuel with
  | 0 => refuse "program limit exceeded"
  | fuel + 1 =>
    match (← get).program.functions.find? fun f => f.name = name with
    | none => refuse ("function " ++ name ++ " never defined")
    | some f =>
      let given ← evalCells fuel arguments
      let s ← get
      let base := s.cells.size
      let missing := List.replicate (f.parameters.length - given.length) Cell.untouched
      let cells := (given ++ missing).take f.parameters.length
      let locals := f.parameters.zipIdx.map fun p => (p.1, base + p.2)
      set { s with cells := s.cells ++ cells.toArray, locals := locals }
      let leave : Acting Unit := modify fun t => { t with locals := s.locals }
      try
        exec fuel f.body
        leave
        return .unset
      catch j =>
        leave
        match j with
        | .back v => return v
        | j => throw j

/-- What arguments are for a function: values, or the cells of arrays. -/
def evalCells (fuel : Nat) (es : List Expr) : Acting (List Cell) := do
  match fuel with
  | 0 => refuse "program limit exceeded"
  | fuel + 1 =>
    match es with
    | [] => return []
    | e :: es =>
      let c : Cell ← (match e with
        | .place (.named "NF") => return .value (← load fuel (.named "NF"))
        | .place (.named name) => do
          let i ← cellOf name
          match (← get).cells[i]? with
          | some (.value v) => return .value v
          | _ => return .same i
        | e => return .value (← eval fuel e))
      return c :: (← evalCells fuel es)

def emit (fuel : Nat) (sink : Sink) (o : Octets) : Acting Unit := do
  match fuel with
  | 0 => refuse "program limit exceeded"
  | fuel + 1 =>
    match sink with
    | .output => liftDoing (write o)
    | .file append name =>
      let v ← eval fuel name
      writeToFile (← textOf v) append o
    | .program command =>
      let v ← eval fuel command
      writeToProgram (← textOf v) o

def exec (fuel : Nat) (s : Statement) : Acting Unit := do
  match fuel with
  | 0 => refuse "program limit exceeded"
  | fuel + 1 =>
    match s with
    | .expr e => let _ ← eval fuel e
    | .print arguments sink =>
      let vs ← evalAll fuel arguments
      let format ← (match ← valueNamed "OFMT" with
        | .string o => return o
        | _ => return usualFormat)
      let o : Octets ← (if arguments.isEmpty then return (← get).record
        else return List.intercalate (← textVariable "OFS") (vs.map (Value.text format)))
      let ending ← textVariable "ORS"
      emit fuel sink (o ++ ending)
    | .printf arguments sink =>
      let vs ← evalAll fuel arguments
      let format ← conversion
      let spec := (vs.headD .unset).text format
      let (o, enough) := printed format spec (vs.drop 1)
      emit fuel sink o
      if !enough then
        refuse ("run time error: not enough arguments passed to printf(\"" ++
          Octets.text spec ++ "\")")
    | .choose e yes no => if (← eval fuel e).isTrue then exec fuel yes else exec fuel no
    | .loop e step body => execLoop fuel e step body
    | .loopBehind body e =>
      if ← execBody fuel body then
        if (← eval fuel e).isTrue then exec fuel (.loopBehind body e)
    | .forKeys index array body =>
      let (_, es) ← elementsOf array
      execKeys fuel index body (keyOrder (es.map Prod.fst))
    | .block body => execAll fuel body
    | .next => throw .next
    | .nextFile => throw .nextFile
    | .exit none => throw (.exit none)
    | .exit (some e) => throw (.exit (some (truncated (← eval fuel e).float % 256).toNat))
    | .back none => throw (.back .unset)
    | .back (some e) => throw (.back (← eval fuel e))
    | .leave => throw .leave
    | .again => throw .again
    | .delete array none =>
      let (i, _) ← elementsOf array
      setCell i (.array [])
    | .delete array (some key) =>
      let key ← keyOf fuel key
      let (i, es) ← elementsOf array
      setCell i (.array (es.filter fun e => e.1 ≠ key))

def execAll (fuel : Nat) (ss : List Statement) : Acting Unit := do
  match fuel with
  | 0 => refuse "program limit exceeded"
  | fuel + 1 =>
    match ss with
    | [] => return ()
    | s :: ss =>
      exec fuel s
      execAll fuel ss

/-- Run the body of a loop once; the answer is whether the loop goes on. -/
def execBody (fuel : Nat) (body : Statement) : Acting Bool := do
  match fuel with
  | 0 => refuse "program limit exceeded"
  | fuel + 1 =>
    tryCatch (do exec fuel body; return true) fun j =>
      match j with
      | .leave => return false
      | .again => return true
      | j => throw j

def execLoop (fuel : Nat) (e : Option Expr) (step body : Statement) : Acting Unit := do
  match fuel with
  | 0 => refuse "program limit exceeded"
  | fuel + 1 =>
    let goes ← (match e with
      | some e => return (← eval fuel e).isTrue
      | none => return true)
    if goes then
      if ← execBody fuel body then
        exec fuel step
        execLoop fuel e step body

def execKeys (fuel : Nat) (index : String) (body : Statement) (keys : List Octets) :
    Acting Unit := do
  match fuel with
  | 0 => refuse "program limit exceeded"
  | fuel + 1 =>
    match keys with
    | [] => return ()
    | k :: ks =>
      setVariable index (.given k)
      if ← execBody fuel body then execKeys fuel index body ks

end

/-! ### Rules -/

def isTrueNow (e : Expr) : Acting Bool := do return (← eval roundLimit e).isTrue

/-- Whether a rule is for the current record. A range is open from the record that starts it to the
one that ends it. -/
def applies (i : Nat) : Pattern → Acting Bool
  | .first => return false
  | .last => return false
  | .always => return true
  | .accepted e => isTrueNow e
  | .between start stop => do
    if (← get).within.contains i then
      if ← isTrueNow stop then modify fun s => { s with within := s.within.filter (· ≠ i) }
      return true
    else if ← isTrueNow start then
      if !(← isTrueNow stop) then modify fun s => { s with within := i :: s.within }
      return true
    else return false

/-- Run the rules on the current record. -/
def runRecord : List (Rule × Nat) → Acting Unit
  | [] => return ()
  | (r, i) :: rs => do
    if ← applies i r.pattern then exec roundLimit r.action
    runRecord rs

def runRecords (rules : List (Rule × Nat)) : Nat → Acting Unit
  | 0 => return ()
  | fuel + 1 => do
    match ← nextRecord 100000 with
    | none => return ()
    | some r =>
      setRecord r
      tryCatch (runRecord rules) fun j =>
        match j with
        | .next => return ()
        | .nextFile => modify fun s => { s with current := none }
        | j => throw j
      runRecords rules fuel

def Rule.isFirst (r : Rule) : Bool := match r.pattern with
  | .first => true
  | _ => false

def Rule.isLast (r : Rule) : Bool := match r.pattern with
  | .last => true
  | _ => false

/-- Run the rules that stand apart from records. -/
def runApart (rules : List Rule) : Acting Unit := do
  for r in rules do
    exec roundLimit r.action

/-- How a part of a program ended: with a code, if it ended early, and whether it failed. -/
def endingOf (part : Acting Unit) : StateT State Doing (Option Nat × Bool) := do
  match ← part.run with
  | .ok () => return (none, false)
  | .error (.exit code) => return (some (code.getD 0), false)
  | .error (.fatal code) => return (some code, true)
  | .error _ => return (none, false)

/-- Run a program on its input: the code. -/
def run : StateT State Doing Nat := do
  let rules := (← get).program.rules
  let start ← endingOf (runApart (rules.filter Rule.isFirst))
  if start.2 then return start.1.getD 2
  let body ← (if start.1.isNone && rules.any fun r => !r.isFirst then
      endingOf (runRecords rules.zipIdx roundLimit)
    else return start)
  if body.2 then return body.1.getD 2
  let last : Acting Unit := do
    try
      runApart (rules.filter Rule.isLast)
    catch j =>
      match j with
      | .exit none => throw (.exit body.1)
      | j => throw j
  let ending ← endingOf last
  let closed ← endingOf closeAll
  return ((ending.1.or body.1).or closed.1).getD 0

/-- What every program starts with, and the assignments from the options. -/
def prepare (given : List (String × Octets)) (operands : List Octets) : Acting Unit := do
  setVariable "FS" (.string [' '])
  setVariable "OFS" (.string [' '])
  setVariable "ORS" (.string ['\n'])
  setVariable "RS" (.string ['\n'])
  setVariable "SUBSEP" (.string ['\x1c'])
  setVariable "CONVFMT" (.string usualFormat)
  setVariable "OFMT" (.string usualFormat)
  setVariable "NR" (.number 0)
  setVariable "FNR" (.number 0)
  setVariable "RSTART" (.number 0)
  setVariable "RLENGTH" (.number (-1))
  setVariable "ARGC" (.ofNat (operands.length + 1))
  setElement "ARGV" ['0'] (.string "awk".toList)
  for (o, i) in operands.zipIdx 1 do
    setElement "ARGV" (naturalText i) (.given o)
  for (name, v) in (← liftDoing get).bindings do
    match v.value.bind Whittle.Shell.Value.scalar? with
    | some o => if v.exported then setElement "ENVIRON" (Octets.ofString name) (.given o)
    | none => pure ()
  for (name, o) in given do
    setVariable name (.given o)

/-- The words of a call: assignments, the text of the program, and operands. -/
structure Call where
  given : List (String × Octets) := []
  files : List Octets := []
  operands : List Octets := []
  bad : Option Octets := none

/-- Undo the escapes of a separator given as an option. -/
def separatorValue (o : Octets) : Octets :=
  ((assignment? ("FS=".toList ++ o)).map Prod.snd).getD o

/-- Add an option and its value. -/
def Call.add (r : Call) (c : Char) (value : Octets) : Call :=
  if c = 'v' then
    match assignment? value with
    | some g => { r with given := g :: r.given }
    | none => { r with bad := some value }
  else if c = 'f' then { r with files := value :: r.files }
  else { r with given := ("FS", separatorValue value) :: r.given }

def Call.read : List Octets → Call
  | [] => {}
  | ['-', '-'] :: rest => { operands := rest }
  | ['-', c] :: rest =>
    if c = 'v' || c = 'f' || c = 'F' then
      match rest with
      | [] => { bad := some ['-', c] }
      | value :: rest => (Call.read rest).add c value
    else { bad := some ['-', c] }
  | ('-' :: c :: value) :: rest =>
    if c = 'v' || c = 'f' || c = 'F' then (Call.read rest).add c value
    else if c = 'W' then Call.read rest
    else { bad := some ('-' :: c :: value) }
  | rest => { operands := rest }

/-- The program awk by its words. -/
def awk : Utility := fun caller ws => do
  let c := Call.read ws
  match c.bad with
  | some o => refuseTo "awk" ("not an option: " ++ Octets.text o) 2
  | none =>
    let mut parts : List Octets := []
    let mut missing := false
    for name in c.files do
      match ← contentOf name with
      | .ok o => parts := o :: parts
      | .error e =>
        complain ("awk: cannot open \"" ++ Octets.text name ++ "\" (" ++ wordingOf e ++ ")")
        missing := true
    if missing then return 2
    let text? : Option Octets :=
      if c.files.isEmpty then c.operands.head? else some (List.intercalate ['\n'] parts.reverse)
    let operands := if c.files.isEmpty then c.operands.drop 1 else c.operands
    match text? with
    | none =>
      complain "Usage: mawk [Options] [Program] [file ...]"
      return 0
    | some text =>
      match Program.read text with
      | none => refuseTo "awk" "line 1: syntax error at or near end of file" 2
      | some program =>
        let p ← get
        let start : State := { program := program, caller := caller }
        let ((_, s) : Except Jump Unit × State) ← ((prepare c.given operands).run).run start
        let (code, _) ← run.run s
        modify fun q => q.forget p.nextChannel
        return code

end Whittle.Shell.Awk
