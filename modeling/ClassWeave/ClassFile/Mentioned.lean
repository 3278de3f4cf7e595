/-
# ClassWeave.ClassFile.Mentioned -- the classes a rewrite may ask for

Frames type values by class names, and every class name in a frame stands in the class
file: as a class of its own, in a descriptor, or as the class of a kind of constant.
Whoever has to fetch classes before a class file is rewritten fetches these, and the
supertypes of what was found.  A name that is no class does no harm, it is found
nowhere.
-/
import ClassWeave.ClassFile.Basic

set_option autoImplicit false

namespace ClassWeave

/-- What follows each letter `L` of a text. -/
def afterLetterL : List Char → List (List Char)
  | [] => []
  | 'L' :: rest => rest :: afterLetterL rest
  | _ :: rest => afterLetterL rest

/-- The class names in a descriptor: each starts behind a letter `L` and ends before a
semicolon. -/
def describedNames (descriptor : String) : List String :=
  (afterLetterL descriptor.toList).map fun name =>
    String.ofList (name.takeWhile (· != ';'))

/-- The classes of constants and of what is thrown, and those that printing deals with. -/
def wellKnownClasses : List String :=
  [ClassName.object, ClassName.throwable, "java/lang/String", "java/lang/Class",
    "java/lang/invoke/MethodType", "java/lang/invoke/MethodHandle", "java/lang/System",
    "java/io/PrintStream"]

def Entry.texts : Entry → List String
  | .utf8 text => text :: describedNames text
  | _ => []

def ClassFile.mentioned (file : ClassFile) : List String :=
  wellKnownClasses ++ file.entries.toList.flatMap Entry.texts

end ClassWeave
