/-!
# Names with a meaning of their own

`print` is supplied by the language, and `main` is where a program starts.
-/

namespace Primer

/-- The function that writes formatted text. -/
def printName : String := "print"

/-- The function that a run calls. -/
def mainName : String := "main"

/-- The functions that the language supplies. -/
def builtinNames : List String := [printName]

/-- Whether the language supplies a function of this name. -/
def isBuiltin (name : String) : Bool :=
  builtinNames.contains name

end Primer
