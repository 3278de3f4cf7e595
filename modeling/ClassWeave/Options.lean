/-
# ClassWeave.Options -- what a rewrite leaves alone

Options skip constructors, skip methods that a compiler made up, drop the variable
tables of rewritten methods, and set the class file version from which stack maps are
written.
-/
import ClassWeave.ClassFile.Basic

set_option autoImplicit false

namespace ClassWeave

structure Options where
  skipConstructors : Bool
  skipSynthetic : Bool
  dropDebugTables : Bool
  /-- Classes of an older version get no stack maps. -/
  minFrameVersion : UInt16
deriving DecidableEq, Repr

namespace Options

def standard : Options := ⟨false, false, false, 50⟩

/-- The standard options with the switches that are set in a bit mask. -/
def ofBits (bits : UInt32) : Options :=
  { standard with
    skipConstructors := bits &&& 1 != 0
    skipSynthetic := bits &&& 2 != 0
    dropDebugTables := bits &&& 4 != 0 }

def emitsFrames (options : Options) (major : UInt16) : Bool := options.minFrameVersion ≤ major

def skips (options : Options) (access : UInt16) (name : String) : Bool :=
  (options.skipConstructors && name == constructorName)
    || (options.skipSynthetic
      && (AccessFlag.synthetic.isIn access || AccessFlag.bridge.isIn access))

end Options

end ClassWeave
