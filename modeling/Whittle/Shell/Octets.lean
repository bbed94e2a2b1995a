/-!
# Texts as octets

Programs that a shell starts see octets, not characters: a length, a pattern or a column counts the
octets of the UTF-8 form of a text. Inside the shell a text is therefore a list of characters below
256, one for each octet.
-/

namespace Whittle.Shell

abbrev Octets := List Char

namespace Octets

def ofBytes (bytes : ByteArray) : Octets := bytes.toList.map fun b => Char.ofNat b.toNat

def toBytes (o : Octets) : ByteArray := ⟨(o.map fun c => c.toNat.toUInt8).toArray⟩

def ofString (s : String) : Octets := ofBytes s.toUTF8

/-- The text of octets; octets that are no UTF-8 are shown one by one. -/
def text (o : Octets) : String := (String.fromUTF8? (toBytes o)).getD (String.ofList o)

/-- The order of texts, octet by octet: whether the first does not come behind the second. -/
def isUpTo (a b : Octets) : Bool := !decide (b < a)

/-- The lines, each without its line feed; an empty rest after the last line feed is none. -/
def lines (o : Octets) : List Octets :=
  let parts := o.splitOn '\n'
  if parts.getLast? = some [] then parts.dropLast else parts

/-- Every line with a line feed behind it. -/
def unlines (ls : List Octets) : Octets := ls.flatMap (· ++ ['\n'])

/-- Without the line feeds at the end. -/
def trimLineFeeds (o : Octets) : Octets := (o.reverse.dropWhile (· = '\n')).reverse

end Octets

end Whittle.Shell
