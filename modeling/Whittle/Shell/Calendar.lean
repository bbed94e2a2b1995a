import Whittle.Shell.Utility

/-!
# Dates

Days are counted from the first one of 1970, and years begin with January. `momentOf?` reads a text
that names a moment: a date, a time of day, a zone, and steps away from there. `momentText` writes one
by a format in which a percent sign introduces a part of the date.
-/

namespace Whittle.Shell

open Doing

/-! ### Days -/

def isLeap (year : Int) : Bool := year % 4 = 0 && (year % 100 ≠ 0 || year % 400 = 0)

/-- The lengths of the months of a year. -/
def monthLengths (year : Int) : List Nat :=
  [31, if isLeap year then 29 else 28, 31, 30, 31, 30, 31, 31, 30, 31, 30, 31]

/-- The days before the first one of a year. -/
def daysBefore (year : Int) : Int :=
  let y := year - 1
  365 * (year - 1970) + (y / 4 - 1969 / 4) - (y / 100 - 1969 / 100) + (y / 400 - 1969 / 400)

/-- The days before the first one of a month, of those of its year. -/
def daysBeforeMonth (year : Int) (month : Nat) : Nat :=
  ((monthLengths year).take (month - 1)).foldl (· + ·) 0

/-- The number of a day. Months below the first and above the last are those of other years. -/
def dayNumber (year month day : Int) : Int :=
  let y := year + (month - 1) / 12
  let m := (month - 1) % 12 + 1
  daysBefore y + daysBeforeMonth y m.toNat + day - 1

structure CalendarDay where
  year : Int
  month : Nat
  day : Nat
  deriving DecidableEq, Repr

/-- The month and day at an offset from the first day of a year. -/
def monthDay (month : Nat) : List Nat → Nat → Nat × Nat
  | [], n => (month, n + 1)
  | l :: ls, n => if n < l then (month, n + 1) else monthDay (month + 1) ls (n - l)

/-- The day of a number. -/
def calendarDay (n : Int) : CalendarDay :=
  let guess := 1970 + n * 400 / 146097
  let year := if n < daysBefore guess then guess - 1
    else if n ≥ daysBefore (guess + 1) then guess + 1 else guess
  let m := monthDay 1 (monthLengths year) (n - daysBefore year).toNat
  ⟨year, m.1, m.2⟩

/-- The day of the week, Sunday being zero. -/
def weekday (n : Int) : Nat := ((n + 4) % 7).toNat

/-! ### Moments -/

/-- A moment, by seconds since 1970 and billionths of one. -/
structure Moment where
  seconds : Int
  parts : Nat := 0
  deriving DecidableEq, Repr

namespace Moment

def dayNumber (m : Moment) : Int := m.seconds / 86400

def date (m : Moment) : CalendarDay := calendarDay m.dayNumber

def secondOfDay (m : Moment) : Nat := (m.seconds % 86400).toNat

def hour (m : Moment) : Nat := m.secondOfDay / 3600

def minute (m : Moment) : Nat := m.secondOfDay / 60 % 60

def second (m : Moment) : Nat := m.secondOfDay % 60

/-- The number of the day in its year, the first one being zero. -/
def dayOfYear (m : Moment) : Nat := (m.dayNumber - daysBefore m.date.year).toNat

/-- The year and week of a day, where weeks begin on Monday and belong to the year of their
Thursday. -/
def yearAndWeek (m : Moment) : Int × Nat :=
  let monday := m.dayNumber - ((weekday m.dayNumber + 6) % 7 : Nat)
  let year := (calendarDay (monday + 3)).year
  (year, ((monday + 3 - daysBefore year) / 7).toNat + 1)

end Moment

def monthNames : List String :=
  ["January", "February", "March", "April", "May", "June", "July", "August", "September", "October",
   "November", "December"]

def dayNames : List String :=
  ["Sunday", "Monday", "Tuesday", "Wednesday", "Thursday", "Friday", "Saturday"]

/-! ### Writing -/

/-- What stands between a percent sign and its letter. -/
structure MomentSpec where
  flags : List Char
  width : Nat

/-- A number as a part of a date, filled up as its flags say. -/
def MomentSpec.number (s : MomentSpec) (fill : Char) (width : Nat) (n : Int) : Octets :=
  let fill := s.flags.foldl (fun f c => if c = '_' then ' ' else if c = '0' then '0' else f) fill
  let digits := naturalText n.natAbs
  let sign : Octets := if n < 0 then ['-'] else []
  if s.flags.getLast? = some '-' then sign ++ digits
  else if fill = ' ' then padded false ' ' (max width s.width) (sign ++ digits)
  else sign ++ padded false '0' (max width s.width - sign.length) digits

/-- A word as a part of a date. -/
def MomentSpec.word (s : MomentSpec) (o : Octets) : Octets :=
  let o := if s.flags.contains '^' then o.map Char.toUpper
    else if s.flags.contains '#' then
      (if o.all fun c => !c.isLower then o.map Char.toLower else o.map Char.toUpper)
    else o
  padded false (if s.flags.contains '0' then '0' else ' ') s.width o

/-- The parts that are put together from others. -/
def combined : List (Char × String) :=
  [('c', "%a %b %e %H:%M:%S %Y"), ('D', "%m/%d/%y"), ('F', "%Y-%m-%d"), ('r', "%I:%M:%S %p"),
   ('R', "%H:%M"), ('T', "%H:%M:%S"), ('x', "%m/%d/%y"), ('X', "%H:%M:%S")]

/-- A part of a date that is not put together from others. -/
def momentPart (m : Moment) (s : MomentSpec) (c : Char) : Option Octets :=
  let d := m.date
  let n := m.dayNumber
  let monthName := (monthNames.getD (d.month - 1) "").toList
  let dayName := (dayNames.getD (weekday n) "").toList
  let hour12 : Nat := (m.hour + 11) % 12 + 1
  let half := if m.hour < 12 then "AM".toList else "PM".toList
  let two (k : Int) : Option Octets := some (s.number '0' 2 k)
  match c with
  | 'a' => some (s.word (dayName.take 3))
  | 'A' => some (s.word dayName)
  | 'b' => some (s.word (monthName.take 3))
  | 'h' => some (s.word (monthName.take 3))
  | 'B' => some (s.word monthName)
  | 'C' => two (d.year / 100)
  | 'd' => two d.day
  | 'e' => some (s.number ' ' 2 d.day)
  | 'g' => two (m.yearAndWeek.1 % 100)
  | 'G' => some (s.number '0' 1 m.yearAndWeek.1)
  | 'H' => two m.hour
  | 'I' => two hour12
  | 'j' => some (s.number '0' 3 (m.dayOfYear + 1))
  | 'k' => some (s.number ' ' 2 m.hour)
  | 'l' => some (s.number ' ' 2 hour12)
  | 'm' => two d.month
  | 'M' => two m.minute
  | 'N' =>
    let digits := padded false '0' 9 (naturalText m.parts)
    some (if s.width = 0 then digits else (digits ++ List.replicate (s.width - 9) '0').take s.width)
  | 'p' => some (s.word half)
  | 'P' => some (s.word (half.map Char.toLower))
  | 'q' => some (s.number '0' 1 ((d.month + 2) / 3))
  | 's' => some (s.number '0' 1 m.seconds)
  | 'S' => two m.second
  | 'u' => some (s.number '0' 1 ((weekday n + 6) % 7 + 1))
  | 'U' => two ((m.dayOfYear + 7 - weekday n) / 7)
  | 'V' => two m.yearAndWeek.2
  | 'w' => some (s.number '0' 1 (weekday n))
  | 'W' => two ((m.dayOfYear + 7 - (weekday n + 6) % 7) / 7)
  | 'y' => two (d.year % 100)
  | 'Y' => some (s.number '0' (if d.year < 1000 then 4 else 1) d.year)
  | 'z' => some "+0000".toList
  | 'Z' => some (s.word "UTC".toList)
  | 'n' => some ['\n']
  | 't' => some ['\t']
  | '%' => some ['%']
  | _ => none

/-- A moment in a format; the number bounds the formats that are put together from others. -/
def momentText (m : Moment) : Nat → Nat → Octets → Octets
  | 0, _, cs => cs
  | _, _, [] => []
  | fuel + 1, skip + 1, _ :: cs => momentText m (fuel + 1) skip cs
  | fuel + 1, 0, c :: cs =>
    if c ≠ '%' then c :: momentText m (fuel + 1) 0 cs
    else
      let flags := cs.takeWhile fun c => ['-', '_', '0', '+', '^', '#'].contains c
      let digits := (cs.drop flags.length).takeWhile Text.isDigit
      let behind := cs.drop (flags.length + digits.length)
      let marks := behind.takeWhile fun c => c = 'E' || c = 'O' || c = ':'
      let size := flags.length + digits.length + marks.length + 1
      let s : MomentSpec := ⟨flags, numberOf digits⟩
      match behind.drop marks.length with
      | [] => c :: momentText m (fuel + 1) 0 cs
      | letter :: _ =>
        let rest := momentText m (fuel + 1) size cs
        let colons := marks.filter (· = ':')
        if letter = 'z' && !colons.isEmpty then
          (match colons.length with
            | 1 => "+00:00"
            | 2 => "+00:00:00"
            | _ => "+00").toList ++ rest
        else
          match Disk.valueAt letter combined with
          | some f => s.word (momentText m fuel 0 f.toList) ++ rest
          | none =>
            match momentPart m s letter with
            | some o => o ++ rest
            | none => c :: momentText m (fuel + 1) 0 cs

/-! ### Reading -/

/-- What a text says about a moment. -/
structure MomentReading where
  date : Option (Int × Nat × Nat) := none
  /-- The second of the day, and billionths. -/
  time : Option (Nat × Nat) := none
  zone : Option Int := none
  weekday : Option Nat := none
  months : Int := 0
  days : Int := 0
  seconds : Int := 0

/-- What units count: months, days or seconds. -/
def unitOf? (name : String) : Option (Int × Int × Int) :=
  let name := if name.endsWith "s" && name.length > 1 then String.ofList name.toList.dropLast else name
  match name with
  | "year" => some (12, 0, 0)
  | "month" => some (1, 0, 0)
  | "fortnight" => some (0, 14, 0)
  | "week" => some (0, 7, 0)
  | "day" => some (0, 1, 0)
  | "hour" => some (0, 0, 3600)
  | "minute" => some (0, 0, 60)
  | "min" => some (0, 0, 60)
  | "second" => some (0, 0, 1)
  | "sec" => some (0, 0, 1)
  | _ => none

def MomentReading.step (r : MomentReading) (n : Int) (u : Int × Int × Int) : MomentReading :=
  { r with months := r.months + n * u.1, days := r.days + n * u.2.1
           seconds := r.seconds + n * u.2.2 }

/-- The place of a name, which may be cut to three letters, in a list of names. -/
def placeOfName (names : List String) (w : Octets) : Option Nat :=
  let text := String.ofList (if w.getLast? = some '.' then w.dropLast else w)
  names.findIdx? fun n =>
    n.toLower = text || (text.length = 3 && text.isPrefixOf n.toLower)

/-- A time of day such as `10:30`, `10:30:15.5` or `10:30pm`. -/
def timeOfDay? (w : Octets) : Option (Nat × Nat) :=
  let half : Option Nat :=
    if "am".toList.isSuffixOf w then some 0 else if "pm".toList.isSuffixOf w then some 12 else none
  let w := if half.isSome then w.take (w.length - 2) else w
  let hourOf (h : Nat) : Option Nat := match half with
    | none => if h < 24 then some h else none
    | some n => if 1 ≤ h ∧ h ≤ 12 then some (h % 12 + n) else none
  let fits (o : Octets) : Bool := !o.isEmpty && o.length ≤ 2 && o.all Text.isDigit
  match w.splitOn ':' with
  | [h] => if half.isSome && fits h then (hourOf (numberOf h)).map fun n => (n * 3600, 0) else none
  | [h, m] =>
    if fits h && fits m && numberOf m < 60 then
      (hourOf (numberOf h)).map fun n => (n * 3600 + numberOf m * 60, 0)
    else none
  | [h, m, s] =>
    let whole := s.takeWhile Text.isDigit
    let fraction := (s.drop whole.length).drop 1
    let pointed := (s.drop whole.length).head?.all fun c => c = '.' || c = ','
    if fits h && fits m && fits whole && pointed && fraction.all Text.isDigit && numberOf m < 60 &&
        numberOf whole ≤ 60 then
      (hourOf (numberOf h)).map fun n =>
        (n * 3600 + numberOf m * 60 + numberOf whole,
          numberOf ((fraction ++ List.replicate 9 '0').take 9))
    else none
  | _ => none

/-- A zone such as `+02:00` or `-0500`, in seconds. -/
def zoneOf? (w : Octets) : Option Int :=
  match w with
  | c :: cs =>
    let digits := cs.filter (· ≠ ':')
    if (c = '+' || c = '-') && digits.all Text.isDigit && (digits.length = 4 || digits.length = 2) then
      let hours := numberOf (digits.take 2)
      let minutes := numberOf (digits.drop 2)
      let n : Int := hours * 3600 + minutes * 60
      some (if c = '-' then -n else n)
    else none
  | [] => none

/-- A date in digits. -/
def dateOf? (w : Octets) : Option (Int × Nat × Nat) :=
  let numbers (parts : List Octets) : Option (List Nat) :=
    if parts.all fun p => !p.isEmpty && p.all Text.isDigit then some (parts.map numberOf) else none
  let full (y : Octets) : Int :=
    let n := numberOf y
    if y.length > 2 then n else if n < 69 then 2000 + n else 1900 + n
  match w.splitOn '-', w.splitOn '/' with
  | [y, m, d], _ => (numbers [y, m, d]).map fun _ => (full y, numberOf m, numberOf d)
  | _, [a, b, c] =>
    (numbers [a, b, c]).map fun _ =>
      if a.length > 2 then (full a, numberOf b, numberOf c) else (full c, numberOf a, numberOf b)
  | _, _ =>
    if w.length = 8 && w.all Text.isDigit then
      some (numberOf (w.take 4), numberOf ((w.take 6).drop 4), numberOf (w.drop 6))
    else none

def isNumberWord (w : Octets) : Bool := !w.isEmpty && w.all Text.isDigit

/-- Read the words of a text one after another; `today` is the date that parts are taken from. -/
def readMoment (today : CalendarDay) : Nat → List Octets → MomentReading → Option MomentReading
  | 0, _, _ => none
  | fuel + 1, ws, r =>
    let go := readMoment today fuel
    match ws with
    | [] => some r
    | w :: rest =>
      let text := String.ofList w
      let digits := match w with
        | '+' :: cs => cs
        | '-' :: cs => cs
        | cs => cs
      let signed : Option Int :=
        if isNumberWord digits then some (if w.head? = some '-' then -(numberOf digits) else numberOf digits)
        else none
      let stepsBy (n : Int) (ws : List Octets) : Option MomentReading :=
        match ws with
        | u :: rest =>
          (unitOf? (String.ofList u)).bind fun unit =>
            if rest.head? = some "ago".toList then go (rest.drop 1) (r.step (-n) unit)
            else go rest (r.step n unit)
        | [] => none
      if ["now", "today", "utc", "gmt", "z", "ut", "at", "and", ","].contains text then
        go rest (if ["utc", "gmt", "z", "ut"].contains text then { r with zone := some 0 } else r)
      else if text = "tomorrow" then go rest (r.step 1 (0, 1, 0))
      else if text = "yesterday" then go rest (r.step (-1) (0, 1, 0))
      else if text = "midnight" then go rest { r with time := some (0, 0) }
      else if text = "noon" then go rest { r with time := some (43200, 0) }
      else if text = "next" then stepsBy 1 rest
      else if text = "last" then stepsBy (-1) rest
      else if text = "+" || text = "-" then
        match rest with
        | n :: rest => if isNumberWord n then go ((w ++ n) :: rest) r else none
        | [] => none
      else if let some d := dateOf? w then go rest { r with date := some d }
      else if let some t := timeOfDay? w then
        match rest with
        | half :: more =>
          if half = "am".toList || half = "pm".toList then
            (timeOfDay? (w ++ half)).bind fun t => go more { r with time := some t }
          else
            match zoneOf? half with
            | some z => go more { r with time := some t, zone := some z }
            | none => go rest { r with time := some t }
        | [] => some { r with time := some t }
      else if let some m := placeOfName monthNames w then
        let year := (r.date.map Prod.fst).getD today.year
        match rest with
        | d :: more =>
          let bare := d.filter (· ≠ ',')
          if isNumberWord bare && bare.length ≤ 2 then
            match more with
            | y :: more' =>
              if isNumberWord y && y.length = 4 then
                go more' { r with date := some (numberOf y, m + 1, numberOf bare) }
              else go more { r with date := some (year, m + 1, numberOf bare) }
            | [] => some { r with date := some (year, m + 1, numberOf bare) }
          else none
        | [] => none
      else if let some d := placeOfName dayNames (w.filter (· ≠ ',')) then
        go rest { r with weekday := some d }
      else if let some n := signed then
        match rest with
        | u :: more =>
          match placeOfName monthNames u with
          | some m =>
            if w.length ≤ 2 then
              match more with
              | y :: more' =>
                if isNumberWord y && y.length = 4 then
                  go more' { r with date := some (numberOf y, m + 1, numberOf w) }
                else go more { r with date := some (today.year, m + 1, numberOf w) }
              | [] => some { r with date := some (today.year, m + 1, numberOf w) }
            else none
          | none => stepsBy n rest
        | [] => none
      else
        let number := (if w.head? = some '+' || w.head? = some '-' then w.take 1 else []) ++
          digits.takeWhile Text.isDigit
        if number.length < w.length && number.any Text.isDigit then
          go (number :: w.drop number.length :: rest) r
        else if (unitOf? text).isSome then stepsBy 1 (w :: rest)
        else none

/-- The moment that a text names, seen from another one. -/
def momentOf? (now : Moment) (o : Octets) : Option Moment :=
  match o with
  | '@' :: n =>
    let s := Decimal.splitSign n
    let whole := s.2.takeWhile Text.isDigit
    let fraction := (s.2.drop whole.length).drop 1
    let pointed := (s.2.drop whole.length).head?.all (· = '.')
    if whole.isEmpty || !pointed || !fraction.all Text.isDigit then none
    else
      let parts := numberOf ((fraction ++ List.replicate 9 '0').take 9)
      let seconds : Int := if s.1 then -(numberOf whole) else numberOf whole
      some (if s.1 && parts > 0 then ⟨seconds - 1, Nat.pow 10 9 - parts⟩ else ⟨seconds, parts⟩)
  | _ =>
    let lower := o.map Char.toLower
    let joined : Bool := Text.isDigit (o.headD ' ') && (o.drop 10).head? = some 'T'
    let spaced := if joined then lower.set 10 ' ' else lower
    let spaced := if joined && spaced.getLast? = some 'z' then spaced.dropLast ++ [' ', 'z'] else spaced
    let cut := match (spaced.drop 11).findIdx? fun c => joined && (c = '+' || c = '-') with
      | some i => spaced.take (11 + i) ++ ' ' :: spaced.drop (11 + i)
      | none => spaced
    let ws := (cut.splitOnP fun c => c = ' ' || c = '\t').filter (· ≠ [])
    (readMoment now.date (4 * ws.length + 8) ws {}).bind fun r =>
      let today := now.date
      let date := r.date.getD (today.year, today.month, today.day)
      let fits : Bool := 1 ≤ date.2.1 && date.2.1 ≤ 12 && 1 ≤ date.2.2 &&
        date.2.2 ≤ (monthLengths date.1).getD (date.2.1 - 1) 0
      if !fits then none
      else
        let stays := r.date.isNone && r.time.isNone && r.weekday.isNone && !ws.isEmpty
        let time := r.time.getD (if stays then (now.secondOfDay, now.parts) else (0, 0))
        let day := dayNumber date.1 (date.2.1 + r.months) date.2.2 + r.days
        let day := match r.weekday with
          | some d => if r.date.isSome then day else day + ((d + 7 - weekday day) % 7 : Nat)
          | none => day
        some ⟨day * 86400 + time.1 + r.seconds - r.zone.getD 0, time.2⟩

/-! ### The program -/

/-- The moment a script starts at; only sleeping moves it on. -/
def momentOfStart : Moment := ⟨1704067200, 0⟩

def Process.now (p : Process) : Moment :=
  ⟨momentOfStart.seconds + p.clock / 1000, p.clock % 1000 * Nat.pow 10 6⟩

/-- The format that an option for standard dates stands for. -/
def standardFormat (spaced : Bool) (detail : Octets) : Option String :=
  let mark := if spaced then " " else "T"
  let forms : List (String × String) :=
    [("date", "%Y-%m-%d"), ("hours", "%Y-%m-%d" ++ mark ++ "%H%:z"),
     ("minutes", "%Y-%m-%d" ++ mark ++ "%H:%M%:z"), ("seconds", "%Y-%m-%d" ++ mark ++ "%H:%M:%S%:z"),
     ("ns", "%Y-%m-%d" ++ mark ++ "%H:%M:%S" ++ (if spaced then "." else ",") ++ "%N%:z")]
  Disk.valueAt (if detail.isEmpty then "date" else String.ofList detail) forms

/-- The words of a call in which options with a value that may be missing stand for their formats. -/
def dateWord (w : Octets) : Octets :=
  match w with
  | '-' :: 'I' :: detail => "--iso-8601=".toList ++ (if detail.isEmpty then "date".toList else detail)
  | w => if w = "--iso-8601".toList then "--iso-8601=date".toList else w

def date (ws : List Octets) : Doing Nat :=
  withArguments "date" 1
    { flags := "uR", valued := "dfrsi3"
      long := [("date", 'd'), ("file", 'f'), ("reference", 'r'), ("set", 's'), ("utc", 'u'),
        ("universal", 'u'), ("rfc-email", 'R'), ("rfc-2822", 'R'), ("iso-8601", 'i'),
        ("rfc-3339", '3')] } (ws.map dateWord) fun a => do
    let now := (← get).now
    let forms := a.operands.filter fun w => w.head? = some '+'
    let others := a.operands.filter fun w => w.head? ≠ some '+'
    let fail (why : String) : Doing Nat := do
      complain ("date: " ++ why)
      return 1
    let form : Option Octets :=
      if let some f := forms.head? then some (f.drop 1)
      else if a.has 'R' then some "%a, %d %b %Y %H:%M:%S %z".toList
      else if let some detail := a.value? 'i' then (standardFormat false detail).map String.toList
      else if let some detail := a.value? '3' then (standardFormat true detail).map String.toList
      else some "%a %b %e %H:%M:%S %Z %Y".toList
    match form, others with
    | none, _ => fail "invalid argument"
    | _, w :: _ => fail ("invalid date " ++ quotedName w)
    | some form, [] =>
      if forms.length > 1 then fail ("extra operand " ++ quotedName (forms.getD 1 []))
      else
        let show_ (m : Moment) : Doing Unit := write (momentText m 4 0 form ++ ['\n'])
        match a.value? 'd', a.value? 'f', a.value? 'r' with
        | some o, _, _ =>
          match momentOf? now o with
          | some m =>
            show_ m
            return 0
          | none => fail ("invalid date " ++ quotedName o)
        | none, some file, _ =>
          match ← contentOf file with
          | .error e => fail (Octets.text file ++ ": " ++ wordingOf e)
          | .ok o =>
            forAll (Octets.lines o) fun l => do
              match momentOf? now l with
              | some m =>
                show_ m
                return 0
              | none => fail ("invalid date " ++ quotedName l)
        | none, none, some file =>
          let p ← get
          match p.disk.stat (p.fileOf file) with
          | .error e => fail (Octets.text file ++ ": " ++ e.wording)
          | .ok _ =>
            show_ momentOfStart
            return 0
        | none, none, none =>
          show_ now
          return 0

end Whittle.Shell
