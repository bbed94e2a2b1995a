/-!
# Names agreed on with the tools

Every file a stage or a tool leaves in the work directory has one of these names, or one built
from them and the extension of the language.
-/

namespace Whittle.Artifacts

/-- Criteria, from the variable extractor. -/
def criteriaFile : String := "criteria.txt"

/-- The lines kept by one call of a slicer. -/
def sliceLinesFile : String := "slice_lines.txt"

/-- The union of the slices of a pass, for the slice extractor. -/
def unionFile : String := "unification.txt"

/-- The extracted slice, without extension. -/
def sliceStem : String := "slice"

/-- The failure line in the text a tool produced. -/
def adjustedLineFile : String := "adjustedLineNumber.txt"

/-- Where reducers write, and the name of their product without extension. -/
def reducedDir : String := "temp"
def reducedStem : String := "autoPieOut"

/-- The lock of a work directory. -/
def lockFile : String := ".autopie.lock"

/-- The array that replaces the argument vector of a program. -/
def argumentArray : String := "autopie_argv"

/-- The front of the name of every container. -/
def containerFront : String := "autopie-"

end Whittle.Artifacts
