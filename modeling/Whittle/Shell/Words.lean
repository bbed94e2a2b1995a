import Whittle.Shell.Engine
import Whittle.Shell.Parameters

/-!
# Expanding words

Every piece of a word becomes atoms, which are cut into fields where a word may become several. What
a parameter is used for decides which of its texts are taken and how they are changed.
-/

namespace Whittle.Shell

open Doing

/-- Complain about an expansion that is none. -/
def badSubstitution {α : Type} (name : String) : Doing α := do
  if (← get).isRich then
    object ("$\x7b" ++ name ++ "\x7d: bad substitution")
    throw .discard
  else
    object "Bad substitution"
    throw (.exit 2)

/-- Complain about a parameter without a value. -/
def unbound {α : Type} (name : String) : Doing α := do
  if (← get).isRich then
    object (name ++ ": unbound variable")
    throw (.exit 1)
  else
    object (name ++ ": parameter not set")
    throw (.exit 2)

/-- A text as an expansion leaves it: it cannot hold the octet zero. -/
def cleanOutput (o : Octets) : Octets := Octets.trimLineFeeds (o.filter (· ≠ '\x00'))

/-- What commands write, and the code kept for the status of the whole command. -/
def outputOf (E : Engine) (body : List Command) : Doing Octets := do
  let p ← get
  let keep (n : Nat) : Doing Unit :=
    onShell fun i => { i with lastOutput := some n, status := if p.isRich then n else i.status }
  let file : Option Word := match body with
    | [.simple _ [] [] [.read none file]] => if p.isRich then some file else none
    | _ => none
  match file with
  | some file =>
    let name := plainText (← E.expand false file)
    match ← readFile name with
    | .ok o =>
      keep 0
      return cleanOutput o
    | .error e =>
      object (Octets.text name ++ ": " ++ wordingOf e)
      keep 1
      return []
  | none =>
    let within (q : Process) : Process :=
      let q := q.apart
      let deeper := { q.shell with level := q.shell.level + 1 }
      if q.isRich then { q with shell := setOption "errexit" false deeper } else q
    let (o, n) ← capturing (asChild within (closing E do
      for c in body do
        E.exec false c))
    keep n
    return cleanOutput o

/-- The highest number of a stream for commands that a word stands for. -/
def channelStream : Nat := 63

/-- A stream number that is not used yet. -/
def freeStream (p : Process) : Nat :=
  (((List.range channelStream).map (channelStream - ·)).find? fun n =>
    (Disk.valueAt n p.streams).isNone).getD channelStream

/-- A stream from which the output of commands can be read, or what goes to them be written. -/
def channelOf (E : Engine) (reads : Bool) (body : List Command) : Doing Octets := do
  let stream := freeStream (← get)
  if reads then
    let (o, _) ← capturing (runApart E false body)
    modify fun p =>
      let (key, p) := p.addChannel (.source o)
      p.setStream stream key
  else
    modify fun p =>
      let (key, p) := p.addChannel (.collector 0 [])
      (p.setStream stream key)
    onShell fun i => { i with pending := (stream, body) :: i.pending }
  return "/dev/fd/".toList ++ naturalText stream

/-- The home directory of a user, or the own one. -/
def homeOf (p : Process) (user : Octets) : Octets :=
  if user.isEmpty then
    (p.valueOf? "HOME").getD (if p.isRich then "/root".toList else ['~'])
  else if user = "root".toList then "/root".toList
  else if p.isRich && user = ['+'] then (p.valueOf? "PWD").getD ['~', '+']
  else if p.isRich && user = ['-'] then (p.valueOf? "OLDPWD").getD ['~', '-']
  else '~' :: user

/-! ### Parameters -/

/-- What a parameter named by a text holds. -/
def heldByText (o : Octets) : Doing Held := do
  let (name, subscript) := splitSubscript o
  match subscript with
  | none => return (← get).held name none
  | some ['@'] => return (← get).held name (some false)
  | some ['*'] => return (← get).held name (some true)
  | some i =>
    let index ← Arithmetic.indexOf name i
    return .one ((← get).elementOf name index)

/-- What a parameter holds. -/
def heldBy (E : Engine) (name : String) (subscript : Option Subscript) : Doing Held := do
  match subscript with
  | none =>
    let p ← get
    if name = "RANDOM" then
      onShell fun i => { i with random := (i.random * 1103515245 + 12345) % 2147483648 }
    return p.held name none
  | some (.all joined) => return (← get).held name (some joined)
  | some (.element i) =>
    let text := plainText (← E.expand false i)
    let index ← Arithmetic.indexOf name text
    return .one ((← get).elementOf name index)

/-- The name of a parameter with its subscript, as complaints show it. -/
def shownName (E : Engine) (name : String) : Option Subscript → Doing String
  | none => return name
  | some (.all joined) => return name ++ (if joined then "[*]" else "[@]")
  | some (.element i) => do return name ++ "[" ++ Octets.text (plainText (← E.expand false i)) ++ "]"

/-- Assign a text to a parameter or to an element of an array. -/
def assignTo (E : Engine) (name : String) (subscript : Option Subscript) (o : Octets) :
    Doing Unit := do
  if !isName name.toList then
    if (← get).isRich then
      object ("$" ++ name ++ ": cannot assign in this way")
      throw .discard
    else
      object (name ++ ": bad variable name")
      throw (.exit 2)
  else
    match subscript with
    | some (.element i) =>
      let text := plainText (← E.expand false i)
      Arithmetic.assignText name (some (← Arithmetic.indexOf name text)) o
    | _ => Arithmetic.assignText name none o

/-- The elements of an array from an offset on, which counts the numbers of the elements. Those of a
table are counted from one. -/
def elementsFrom (v : Value) (offset : Int) (length : Option Int) : List Octets :=
  let behind : List Octets := match v with
    | .table _ =>
      let all := v.elements
      if offset < 0 then (if all.length + offset < 0 then [] else all.drop (all.length + offset).toNat)
      else all.drop (offset - 1).toNat
    | v =>
      let first := if offset < 0 then v.nextIndex + offset else offset
      if first < 0 then []
      else (v.numbered.filter fun e => first.toNat ≤ e.1).map Prod.snd
  match length with
  | none => behind
  | some n => behind.take n.toNat

/-- The part of what a parameter holds from an offset on. The offsets of positional parameters count
from the name of the script. -/
def partOfHeld (p : Process) (name : String) (offset : Int) (length : Option Int) :
    Held → Option Held
  | .one o =>
    let cs := o.getD []
    let size : Int := cs.length
    let first := if offset < 0 then size + offset else offset
    let impossible : Bool := match length with
      | some n => decide (n < 0 ∧ 0 ≤ first ∧ first ≤ size ∧ size + n < first)
      | none => false
    if impossible then none else some (.one (some (partOf offset length cs)))
  | .many os joined =>
    if length.any (· < 0) then none
    else if name = "@" ∨ name = "*" then
      some (.many (partOf offset length (p.shell.name :: os)) joined)
    else
      match p.array? name with
      | some v => some (.many (elementsFrom v offset length) joined)
      | none => some (.many (partOf offset length os) joined)

/-- The pattern that a word is. -/
def patternOf (E : Engine) (w : Word) : Doing Regex := do
  let marks := marksOf (← E.expand false w)
  return Glob.read ((← get).hasOption "extglob") marks

/-- Whether a text matches a pattern; there are always groups in a conditional command. -/
def matchesPattern (always : Bool) (marks : List Mark) (o : Octets) : Doing Bool := do
  let p ← get
  let lower := p.hasOption "nocasematch"
  let marks := if lower then marks.map fun m => { m with char := m.char.toLower } else marks
  let o := if lower then o.map Char.toLower else o
  return (Glob.read (always || p.hasOption "extglob") marks).matchesAll o

/-- What a use makes of what a parameter holds. -/
def applyUse (E : Engine) (name : String) (subscript : Option Subscript) (use : Use)
    (quoted : Bool) (h : Held) : Doing (List Atom) := do
  let p ← get
  let whole : List Atom := p.atomsOfHeld quoted h
  let instead (w : Word) : Doing (List Atom) := E.expand (!quoted) w
  match use with
  | .orElse emptyToo w => if h.isMissing emptyToo then instead w else return whole
  | .ifSet emptyToo w => if h.isMissing emptyToo then return [] else instead w
  | .orAssign emptyToo w =>
    if h.isMissing emptyToo then
      let o := plainText (← instead w)
      assignTo E name subscript o
      return atomsOf quoted o
    else return whole
  | .orFail emptyToo w =>
    if h.isMissing emptyToo then
      let text := Octets.text (plainText (← instead w))
      let text := if !text.isEmpty || !w.isEmpty then text
        else if p.isRich then "parameter null or not set"
        else if emptyToo then "parameter not set or null"
        else "parameter not set"
      object (name ++ ": " ++ text)
      throw (.exit (if p.isRich then 1 else 2))
    else return whole
  | .length =>
    let n := match h with
      | .one o => (o.getD []).length
      | .many os _ =>
        if p.isRich then os.length else (List.intercalate (p.separators.take 1) os).length
    return atomsOf quoted (naturalText n)
  | .dropFront longest w =>
    let r ← patternOf E w
    return p.atomsOfHeld quoted (h.map (Glob.dropFront longest r))
  | .dropBack longest w =>
    let r ← patternOf E w
    return p.atomsOfHeld quoted (h.map (Glob.dropBack longest r))
  | .part offset length =>
    let offset ← Arithmetic.compute (plainText (← E.expand false offset))
    let length ← (match length with
      | none => return none
      | some w => do return some (← Arithmetic.compute (plainText (← E.expand false w))))
    match partOfHeld p name offset length h with
    | some part => return p.atomsOfHeld quoted part
    | none =>
      object (Text.intText (length.getD 0) ++ ": substring expression < 0")
      throw .discard
  | .replace all anchor w replacement =>
    let marks := marksOf (← E.expand false w)
    let by_ := marksOf (← E.expand false replacement)
    if marks.isEmpty && anchor.isNone then return whole
    else
      let r := Glob.read (p.hasOption "extglob") marks
      return p.atomsOfHeld quoted (h.map fun cs => replaceIn r all anchor by_ (cs.length + 1) cs)
  | .recase kind all w =>
    let marks := marksOf (← E.expand false w)
    let r := Glob.read true marks
    let accepts (c : Char) : Bool := marks.isEmpty || r.matchesAll [c]
    return p.atomsOfHeld quoted (h.map (recaseText kind all accepts))
  | .transform operator =>
    match operator, h with
    | 'a', .one _ =>
      let v := (Disk.valueAt name p.bindings).getD {}
      let letters := (match v.value with
        | some (.list _) => ['a']
        | some (.table _) => ['A']
        | _ => []) ++ (if v.integer then ['i'] else []) ++ (if v.readonly then ['r'] else []) ++
        (if v.exported then ['x'] else []) ++ (if v.reference then ['n'] else [])
      return atomsOf quoted letters
    | 'A', .one (some o) => return atomsOf quoted (name.toList ++ '=' :: reusable o)
    | _, _ => return p.atomsOfHeld quoted (h.map (transformText operator))
  | _ => return whole

/-- The atoms of a parameter and what is done with it. -/
def expandParameter (E : Engine) (name : String) (subscript : Option Subscript) (use : Use)
    (quoted : Bool) : Doing (List Atom) := do
  let p ← get
  match use with
  | .impossible => badSubstitution name
  | .named joined =>
    let names := ((p.bindings.map Prod.fst).filter fun n => name.isPrefixOf n).mergeSort
      fun a b => decide (a ≤ b)
    return p.atomsOfHeld quoted (.many (names.map String.toList) joined)
  | .keys =>
    let joined := match subscript with
      | some (.all joined) => joined
      | _ => false
    return p.atomsOfHeld quoted (.many (((p.array? name).map Value.keys).getD []) joined)
  | _ =>
    let h ← heldBy E name subscript
    let strict : Bool := match use with
      | .orElse _ _ => false
      | .orAssign _ _ => false
      | .orFail _ _ => false
      | .ifSet _ _ => false
      | _ => p.hasOption "nounset"
    if strict ∧ h = .one none ∧ !(p.isRich && name = "!") then
      unbound (← shownName E name subscript)
    match use with
    | .indirect use =>
      match p.bindings.referred? name, h with
      | some other, _ => return atomsOf quoted other.toList
      | none, .one none => badSubstitution ("!" ++ name)
      | none, h =>
        let text := h.texts.headD []
        let (name, index) := splitSubscript text
        let subscript : Option Subscript := index.map fun i =>
          if i = ['@'] then .all false else if i = ['*'] then .all true
          else .element (quoteAll i)
        applyUse E name subscript use quoted (← heldByText text)
    | use => applyUse E name subscript use quoted h

/-! ### Words and fields -/

/-- The atoms of a piece of a word. -/
def expandPiece (E : Engine) (operand : Bool) (piece : Piece) : Doing (List Atom) := do
  match piece with
  | .char c quoted => return [.mark ⟨c, quoted⟩ (operand && !quoted)]
  | .quotes => return [.present]
  | .home user => return atomsOf true (homeOf (← get) user)
  | .parameter name subscript use quoted => expandParameter E name subscript use quoted
  | .output body quoted => return atomsOf quoted (← outputOf E body)
  | .arithmetic e quoted =>
    let n ← Arithmetic.compute (plainText (← E.expand false e))
    return atomsOf quoted (integerText n)
  | .channel reads body => return atomsOf true (← channelOf E reads body)

def expandWord (E : Engine) (operand : Bool) (w : Word) : Doing (List Atom) := do
  return (← w.mapM (expandPiece E operand)).flatten

/-- The text of a word that is not cut into fields. -/
def textOf (E : Engine) (w : Word) : Doing Octets := do return plainText (← expandWord E false w)

/-- The texts that a word stands for. -/
def fieldsOf (E : Engine) (w : Word) : Doing (List Octets) := do
  let ws := if (← get).isRich then expandBraces (w.length + 1) w else [w]
  let mut texts : List Octets := []
  for w in ws do
    let atoms ← expandWord E false w
    let p ← get
    for f in fieldsFrom p.separators none false atoms do
      match textsOf? p f with
      | some os => texts := texts ++ os
      | none =>
        object ("no match: " ++ Octets.text (f.map Mark.char))
        throw .discard
  return texts

/-- The word behind the mark of an assignment: a tilde in front, and behind each colon of it, stands
for a home directory. -/
def withHomes (front : Bool) : Word → Word
  | [] => []
  | p :: ps =>
    match p with
    | .char '~' false =>
      if front && (match ps with
        | [] => true
        | .char c false :: _ => c = '/' || c = ':'
        | _ => false) then .home [] :: withHomes false ps
      else p :: withHomes false ps
    | .char c false => p :: withHomes (c = ':' || c = '=') ps
    | _ => p :: withHomes false ps

/-- Whether a word starts with an unquoted name and an assignment mark. -/
def assigns (w : Word) : Bool :=
  let bare := w.takeWhile fun p => match p with
    | .char c false => c ≠ '='
    | _ => false
  let name := plainOf bare
  let name := if name.getLast? = some '+' then name.dropLast else name
  isName name && match w.drop bare.length with
    | .char '=' false :: _ => true
    | _ => false

/-- The texts that the words of a command stand for. The words of some commands are not cut where
they are assignments. -/
def fieldsOfAll (E : Engine) (ws : List Word) : Doing (List Octets) := do
  let mut texts : List Octets := []
  for w in ws do
    let dialect := (← get).shell.dialect
    let assigner := match texts with
      | name :: _ => (assigners dialect).contains (String.ofList name)
      | [] => false
    if assigner && assigns w then
      texts := texts ++ [← textOf E (withHomes false w)]
    else texts := texts ++ (← fieldsOf E w)
  return texts

end Whittle.Shell
