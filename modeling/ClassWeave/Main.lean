/-
# ClassWeave.Main -- the program

Reads a class file, puts a printing probe into it, and writes the result; a class that
nothing in matches is written as it was.  Classes that the input may ask for are read
beforehand, from the first directory of the class path that has them.
-/
import ClassWeave.ClassFile.Mentioned
import ClassWeave.CommandLine
import Std.Data.HashSet

set_option autoImplicit false

namespace ClassWeave

/-- The class file of the given name, from the first directory that has it. -/
def findClass (name : ClassName) : List String → IO (Option Bytes)
  | [] => return none
  | directory :: rest => do
    match ← (IO.FS.readBinFile (directory ++ "/" ++ name.resourcePath)).toBaseIO with
    | .ok bytes => return some bytes.toList
    | .error _ => findClass name rest

/-- The classes named, and all supertypes of those that can be found and read. -/
partial def fetchClasses (directories : List String) :
    List String → Std.HashSet String → ClassTable → IO ClassTable
  | [], _, classes => return classes
  | name :: rest, seen, classes => do
    let name := ClassName.ofString name
    if seen.contains name.internal then fetchClasses directories rest seen classes
    else
      let seen := seen.insert name.internal
      match ← findClass name directories with
      | none => fetchClasses directories rest seen classes
      | some bytes =>
        let more := match ClassInfo.ofBytes bytes none with
          | .ok info => info.supertypes
          | .error _ => []
        fetchClasses directories (more ++ rest) seen (classes.insert name.internal bytes)

def fulfil (request : Request) : IO UInt32 := do
  let bytes := (← IO.FS.readBinFile request.input).toList
  let mentioned := match ClassFile.read bytes with
    | .ok file => file.mentioned
    | .error _ => []
  let classes ← fetchClasses request.directories mentioned ∅ ∅
  match request.answer classes bytes with
  | .ok rewritten =>
    IO.FS.writeBinFile request.output ⟨rewritten.toArray⟩
    return 0
  | .error cause =>
    IO.eprintln ("Error: " ++ cause.message)
    return 1

end ClassWeave

def main (arguments : List String) : IO UInt32 := do
  match ClassWeave.Request.parse arguments with
  | .error cause =>
    IO.eprintln ("error: " ++ cause.message)
    return 2
  | .ok request =>
    match ← (ClassWeave.fulfil request).toBaseIO with
    | .ok code => return code
    | .error cause =>
      IO.eprintln ("Error: " ++ toString cause)
      return 1
