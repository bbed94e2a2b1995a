import Whittle.Disk.Path

/-!
# The two languages of programs under reduction
-/

namespace Whittle

inductive Language where
  | c
  | cpp
  deriving DecidableEq, Repr, Inhabited

namespace Language

/-- Extensions are told apart by case: an upper case `C` is an old suffix of C++. -/
def ofExtension (ext : String) : Option Language :=
  if ext = "c" then some .c
  else if ext ∈ ["cpp", "cc", "cxx", "c++", "C"] then some .cpp
  else none

def ofPath (p : Path) : Option Language := p.extension.bind ofExtension

/-- The extension of files that tools produce. -/
def extension : Language → String
  | c => "c"
  | cpp => "cpp"

def title : Language → String
  | c => "C"
  | cpp => "C++"

/-- The line that declares the call below. -/
def exitHeader : Language → String
  | c => "#include <stdlib.h>"
  | cpp => "#include <cstdlib>"

/-- The statement that ends a program normally. -/
def exitCall : Language → String
  | c => "exit(0);"
  | cpp => "std::exit(0);"

end Language

end Whittle
