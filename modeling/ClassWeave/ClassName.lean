/-
# ClassWeave.ClassName -- one name in two spellings

The class file format separates packages by slashes, source programs by dots.
A `ClassName` is the slash form, so two names that differ only in the separator
are one name.
-/

set_option autoImplicit false

namespace ClassWeave

/-- A text with slashes for its dots. -/
def slashed (name : String) : String := name.map fun c => if c = '.' then '/' else c

structure ClassName where
  ofSlashed ::
  internal : String
deriving DecidableEq, Repr

namespace ClassName

def ofString (name : String) : ClassName := ⟨slashed name⟩

def java (name : ClassName) : String := name.internal.map fun c => if c = '/' then '.' else c

/-- Where a directory of classes holds the file of this class. -/
def resourcePath (name : ClassName) : String := name.internal ++ ".class"

def object : String := "java/lang/Object"

def throwable : String := "java/lang/Throwable"

end ClassName

/-- The name under which constructors are declared. -/
def constructorName : String := "<init>"

end ClassWeave
