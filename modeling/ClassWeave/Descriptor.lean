/-
# ClassWeave.Descriptor -- types of values and methods, and the text that describes them

A value type is a primitive, a class or an array; an array type keeps its whole
descriptor.  `null` is the type of the null reference, which has no descriptor of
its own and borrows that of the root class.  `void` stands only where a method
returns nothing.

`ValueType.parse?` reads a descriptor of a value or `V`, `MethodType.parse?` that
of a method.  Both take the whole text or nothing, and a class name runs to the
first semicolon, whatever it is made of.
-/
import ClassWeave.ClassName
import ClassWeave.Opcode

set_option autoImplicit false

namespace ClassWeave

inductive ValueType
  | boolean | byte | char | short | int | float | long | double
  | object (name : String)
  | array (descriptor : String)
  | null
  | void
deriving DecidableEq, Repr

namespace ValueType

/-- The type of a class constant, whose text is a class name or an array descriptor. -/
def ofReference (name : String) : ValueType :=
  if name.toList.head? = some '[' then array name else object name

def throwable : ValueType := object ClassName.throwable

/-- Slots that a value takes, among the locals and on the operand stack alike. -/
def size : ValueType → Nat
  | long | double => 2
  | void => 0
  | _ => 1

def descriptor : ValueType → String
  | boolean => "Z"
  | byte => "B"
  | char => "C"
  | short => "S"
  | int => "I"
  | float => "F"
  | long => "J"
  | double => "D"
  | object name => "L" ++ name ++ ";"
  | array text => text
  | null => "L" ++ ClassName.object ++ ";"
  | void => "V"

def display : ValueType → String
  | null => "null"
  | type => type.descriptor

def loadOpcode : ValueType → Opcode
  | long => Opcode.lload
  | float => Opcode.fload
  | double => Opcode.dload
  | object _ | array _ | null => Opcode.aload
  | _ => Opcode.iload

def storeOpcode : ValueType → Opcode
  | long => Opcode.lstore
  | float => Opcode.fstore
  | double => Opcode.dstore
  | object _ | array _ | null => Opcode.astore
  | _ => Opcode.istore

/-- A type that is no array, at the start of a text, and the text after it. -/
def readElement : List Char → Option (ValueType × List Char)
  | 'Z' :: rest => some (boolean, rest)
  | 'B' :: rest => some (byte, rest)
  | 'C' :: rest => some (char, rest)
  | 'S' :: rest => some (short, rest)
  | 'I' :: rest => some (int, rest)
  | 'F' :: rest => some (float, rest)
  | 'J' :: rest => some (long, rest)
  | 'D' :: rest => some (double, rest)
  | 'L' :: rest =>
    match rest.dropWhile (· != ';') with
    | [] => none
    | _ :: after => some (object (String.ofList (rest.takeWhile (· != ';'))), after)
  | _ => none

/-- The type of a field or parameter at the start of a text, and the text after it. -/
def readField (text : List Char) : Option (ValueType × List Char) :=
  match text.takeWhile (· == '['), readElement (text.dropWhile (· == '[')) with
  | _, none => none
  | [], some (element, rest) => some (element, rest)
  | brackets, some (element, rest) =>
    some (array (String.ofList brackets ++ element.descriptor), rest)

/-- The type of a result at the start of a text, and the text after it. -/
def readResult : List Char → Option (ValueType × List Char)
  | 'V' :: rest => some (void, rest)
  | text => readField text

def parse? (text : String) : Option ValueType :=
  match readResult text.toList with
  | some (type, []) => some type
  | _ => none

theorem readElement_length {text rest : List Char} {type : ValueType}
    (h : readElement text = some (type, rest)) : rest.length < text.length := by
  have drop (cs : List Char) : (cs.dropWhile (· != ';')).length ≤ cs.length :=
    (List.dropWhile_suffix _).length_le
  unfold readElement at h
  split at h <;> try (simp only [Option.some.injEq, Prod.mk.injEq] at h; simp [← h.2])
  · rename_i cs
    split at h
    · simp at h
    · rename_i after heq
      have := drop cs
      simp only [Option.some.injEq, Prod.mk.injEq] at h
      simp only [heq, List.length_cons] at this
      simp only [List.length_cons, ← h.2]
      omega
  · simp at h

theorem readField_length {text rest : List Char} {type : ValueType}
    (h : readField text = some (type, rest)) : rest.length < text.length := by
  have drop : (text.dropWhile (· == '[')).length ≤ text.length :=
    (List.dropWhile_suffix _).length_le
  unfold readField at h
  split at h
  · simp at h
  all_goals
    have := readElement_length ‹_›
    simp only [Option.some.injEq, Prod.mk.injEq] at h
    rw [← h.2]
    omega

end ValueType

structure MethodType where
  params : List ValueType
  result : ValueType
deriving DecidableEq, Repr

namespace MethodType

/-- The parameter types of `found`, which holds the last one first, and the text after the
parenthesis that closes them. -/
def closeParams (found : List ValueType) : List Char → Option (List ValueType × List Char)
  | ')' :: rest => some (found.reverse, rest)
  | _ => none

/-- The parameter types up to the closing parenthesis, after those of `found`, and the text after
the parenthesis. -/
def readParams (found : List ValueType) (text : List Char) :
    Option (List ValueType × List Char) :=
  match _h : ValueType.readField text with
  | some (type, rest) => readParams (type :: found) rest
  | none => closeParams found text
termination_by text.length
decreasing_by exact ValueType.readField_length _h

def read : List Char → Option (MethodType × List Char)
  | '(' :: text =>
    match readParams [] text with
    | none => none
    | some (params, rest) =>
      match ValueType.readResult rest with
      | none => none
      | some (result, rest) => some (⟨params, result⟩, rest)
  | _ => none

def parse? (text : String) : Option MethodType :=
  match read text.toList with
  | some (type, []) => some type
  | _ => none

def descriptor (type : MethodType) : String :=
  "(" ++ String.join (type.params.map ValueType.descriptor) ++ ")" ++ type.result.descriptor

/-- Slots that the arguments of a call take, with one for the receiver of an instance method. -/
def argumentSlots (type : MethodType) (isStatic : Bool) : Nat :=
  type.params.foldr (·.size + ·) (if isStatic then 0 else 1)

end MethodType

end ClassWeave
