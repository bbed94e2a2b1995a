import Whittle.Language

/-!
# Words with a meaning

C and C++ reserve few words everywhere: a word has its meaning where that meaning could stand, and
is a name elsewhere. The lists here say which words have a meaning where.
-/

namespace Whittle.Grammar

/-- The words that name a type by themselves. -/
def primitiveWords : List String :=
  ["bool", "char", "int", "float", "double", "void", "size_t", "ssize_t", "ptrdiff_t", "intptr_t",
   "uintptr_t", "charptr_t", "nullptr_t", "max_align_t", "int8_t", "int16_t", "int32_t", "int64_t",
   "uint8_t", "uint16_t", "uint32_t", "uint64_t", "char8_t", "char16_t", "char32_t", "char64_t"]

/-- The words that make the size or the sign of a type. -/
def sizeWords : List String := ["signed", "unsigned", "long", "short"]

def storageWords (language : Language) : List String :=
  ["extern", "static", "register", "inline", "__inline", "__inline__", "__forceinline",
   "thread_local", "__thread"] ++ (if language = .c then ["auto"] else ["virtual"])

def qualifierWords (language : Language) : List String :=
  ["const", "constexpr", "volatile", "restrict", "__restrict__", "__extension__", "_Atomic",
   "_Noreturn", "noreturn", "_Nonnull"] ++
  (if language = .c then [] else ["mutable", "constinit", "consteval"])

def attributeWords : List String := ["__attribute__", "__attribute"]

def alignmentWords : List String := ["alignas", "_Alignas"]

def tagWords (language : Language) : List String :=
  ["struct", "union", "enum"] ++ (if language = .c then [] else ["class"])

/-- The words before which a type may still stand open. -/
def modifierWords (language : Language) : List String :=
  storageWords language ++ qualifierWords language ++ attributeWords ++ alignmentWords ++
    ["__declspec"]

/-- The words that cannot name a type where one is expected. -/
def typeWords (language : Language) : List String :=
  modifierWords language ++ sizeWords ++ primitiveWords ++ tagWords language ++
    (if language = .c then [] else ["typename", "auto", "decltype"])

/-- Words that say how a function is called. -/
def callWords : List String :=
  ["__cdecl", "__clrcall", "__stdcall", "__fastcall", "__thiscall", "__vectorcall"]

/-- Words that say how a pointer is used. -/
def pointerWords : List String :=
  ["_unaligned", "__unaligned", "__restrict", "__uptr", "__sptr"]

def alignmentOfWords : List String :=
  ["__alignof__", "__alignof", "_alignof", "alignof", "_Alignof"]

def assemblyWords : List String := ["asm", "__asm__", "__asm"]

/-- Words that are values by themselves. -/
def valueWords (language : Language) : List String :=
  ["NULL", "nullptr", "TRUE", "true", "FALSE", "false"] ++
    (if language = .c then [] else ["this"])

/-- The words that stand for operators between two operands. -/
def operatorWords (language : Language) : List String :=
  if language = .c then []
  else ["or", "and", "bitor", "xor", "bitand", "not_eq", "or_eq", "xor_eq", "and_eq"]

/-- The words that cannot be names where an operand is expected. -/
def operandWords (language : Language) : List String :=
  ["sizeof", "offsetof", "_Generic", "__extension__"] ++ alignmentOfWords ++ assemblyWords ++
    valueWords language ++
    (if language = .c then []
     else ["not", "compl", "co_await", "requires", "new", "delete", "decltype"] ++ primitiveWords)

/-- The words with which statements start that are no declarations. -/
def statementWords (language : Language) : List String :=
  ["if", "switch", "case", "default", "while", "do", "for", "return", "break", "continue", "goto"] ++
  (if language = .c then ["__try", "__leave"]
   else ["try", "throw", "co_return", "co_yield", "__try", "__leave"])

/-- What stands before the first word of a declarator. -/
inductive DeclaratorPlace where
  | type
  | star
  | ampersand
  | parenthesis
  deriving DecidableEq, Repr

/-- The words that cannot be declared at a place. -/
def reservedAt (language : Language) : DeclaratorPlace → List String
  | .type =>
    modifierWords language ++ ["__based"] ++
      (if language = .c then [] else ["auto", "decltype", "operator"])
  | .star =>
    qualifierWords language ++ pointerWords ++ ["__based"] ++
      (if language = .c then [] else ["operator"])
  | .ampersand => ["__based", "operator"]
  | .parenthesis =>
    typeWords language ++ callWords ++ ["__based"] ++
      (if language = .c then [] else ["operator"])

end Whittle.Grammar
