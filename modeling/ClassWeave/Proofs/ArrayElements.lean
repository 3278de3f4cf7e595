/-
# ClassWeave.Proofs.ArrayElements -- what is loaded from an array of references

The type of an array is its descriptor, and the type of an element is read back out of it.
An element that is an array itself is read back as it is.  A class name stands between a
letter `L` and a semicolon there, but all letters `L` at its start and all semicolons at its
end are taken off (`bareName`), so a name that begins with that letter comes back as
another one (`Frame.aaload_loads`, `Frame.anewarray_list_loads_ist`).
-/
import ClassWeave.Frame.Execute
import ClassWeave.Frame.Merge
import Mathlib.Data.List.DropRight

set_option autoImplicit false

namespace ClassWeave

/-- A name without the letters `L` that it begins with and the semicolons that it ends with. -/
def bareName (name : String) : String :=
  String.ofList ((name.toList.dropWhile (· == 'L')).rdropWhile (· == ';'))

/-- A name keeps all its letters if it does not begin or end with one of those. -/
theorem bareName_eq_iff {name : String} :
    bareName name = name ↔ name.toList.head? ≠ some 'L' ∧ name.toList.getLast? ≠ some ';' := by
  rw [← String.toList_inj, bareName, String.toList_ofList]
  generalize name.toList = chars
  have first : chars.dropWhile (· == 'L') = chars ↔ chars.head? ≠ some 'L' := by
    rw [List.dropWhile_eq_self_iff]
    cases chars <;> simp
  have last : chars.rdropWhile (· == ';') = chars ↔ chars.getLast? ≠ some ';' := by
    rw [List.rdropWhile_eq_self_iff]
    rcases List.eq_nil_or_concat chars with rfl | ⟨others, last, rfl⟩ <;> simp
  rw [← first, ← last]
  constructor
  · intro whole
    -- Nothing can have been taken off at the start, since nothing is missing.
    have short := (List.rdropWhile_prefix (· == ';') (chars.dropWhile (· == 'L'))).length_le
    rw [whole] at short
    have kept := (List.dropWhile_suffix (l := chars) (· == 'L')).eq_of_length_le short
    rw [kept] at whole
    exact ⟨kept, whole⟩
  · rintro ⟨start, stop⟩
    rw [start, stop]

namespace ValueType

/-- A class, or an array under its descriptor. -/
def IsReference : ValueType → Prop
  | object _ => True
  | array descriptor => isArray descriptor = true
  | _ => False

theorem isReference_ofReference (name : String) : (ofReference name).IsReference := by
  unfold ofReference
  split
  · exact beq_iff_eq.2 ‹_›
  · trivial

/-- What an element is taken for when it is loaded from an array. -/
def loadedAs : ValueType → FrameType
  | object name => .object (bareName name)
  | type => .object type.descriptor

/-- Whether an element is taken for what it is. -/
def Plain : ValueType → Prop
  | object name => name.toList.head? ≠ some 'L' ∧ name.toList.getLast? ≠ some ';'
  | _ => True

instance : DecidablePred Plain
  | object _ => inferInstanceAs (Decidable (_ ∧ _))
  | .boolean | .byte | .char | .short | .int | .float | .long | .double | .array _ | .null
  | .void => .isTrue trivial

theorem ofValue_eq_loadedAs_iff {type : ValueType} (reference : type.IsReference) :
    FrameType.ofValue type = .ok type.loadedAs ↔ type.Plain := by
  cases type <;> first | exact reference.elim | skip
  case object name =>
    rw [Plain, ← bareName_eq_iff]
    simp [FrameType.ofValue, loadedAs, eq_comm]
  case array descriptor =>
    exact ⟨fun _ => trivial, fun _ => rfl⟩

theorem elementOf_descriptor {type : ValueType} (reference : type.IsReference) :
    elementOf (.object ("[" ++ type.descriptor)) = type.loadedAs := by
  cases type <;> first | exact reference.elim | skip
  case object name =>
    have chars : ("[" ++ (object name).descriptor).toList =
        '[' :: 'L' :: (name.toList ++ [';']) := by
      simp [descriptor]
    -- The letter before the name is no different from those that the name begins with.
    have first : ('L' :: (name.toList ++ [';'])).dropWhile (· == 'L') =
        name.toList.dropWhile (· == 'L') ++ [';'] := by
      rw [List.dropWhile_cons_of_pos rfl, List.dropWhile_append]
      split
      next none => rw [List.isEmpty_iff.1 none]; rfl
      next => rfl
    simp only [elementOf, arrayElement?, chars, first, List.reverse_append, loadedAs, bareName]
    rfl
  case array descriptor =>
    obtain ⟨rest, chars⟩ : ∃ rest, descriptor.toList = '[' :: rest := by
      cases whole : descriptor.toList <;> simp_all [IsReference, isArray]
    have chars' : ("[" ++ (array descriptor).descriptor).toList = '[' :: '[' :: rest := by
      simp [ValueType.descriptor, chars]
    have whole : String.ofList ('[' :: rest) = descriptor := by
      rw [← chars, String.ofList_toList]
    simp only [elementOf, arrayElement?, chars', whole, loadedAs]
    rfl

end ValueType

theorem arrayOf_eq (name : String) :
    arrayOf name = .object ("[" ++ (ValueType.ofReference name).descriptor) := by
  unfold arrayOf ValueType.ofReference
  split
  · rfl
  · exact congrArg FrameType.object
      (String.toList_injective (by simp [ValueType.descriptor, String.toList_append]))

namespace Frame

variable (locals stack : List FrameType) (index : FrameType) (position : Label) (className : String)

theorem execute_aaload (array : FrameType) :
    execute ⟨locals, index :: array :: stack⟩ (.simple Opcode.aaload) position className =
      .ok ⟨locals, elementOf array :: stack⟩ := rfl

theorem execute_anewarray (count : FrameType) (name : String) :
    execute ⟨locals, count :: stack⟩ (.type Opcode.anewarray name) position className =
      .ok ⟨locals, arrayOf name :: stack⟩ := rfl

/-- **An element loaded from an array of references is taken for what `ValueType.loadedAs` says.**
That is the type which the array has been made for, unless this is a class whose name begins with
a letter `L` or ends with a semicolon. -/
theorem aaload_loads :
    (∀ type : ValueType, type.IsReference →
      execute ⟨locals, index :: .object ("[" ++ type.descriptor) :: stack⟩
          (.simple Opcode.aaload) position className =
        .ok ⟨locals, type.loadedAs :: stack⟩ ∧
      (FrameType.ofValue type = .ok type.loadedAs ↔ type.Plain)) ∧
    ∀ (count : FrameType) (name : String), ∃ array,
      execute ⟨locals, count :: stack⟩ (.type Opcode.anewarray name) position className =
        .ok ⟨locals, array :: stack⟩ ∧
      execute ⟨locals, index :: array :: stack⟩ (.simple Opcode.aaload) position className =
        .ok ⟨locals, (ValueType.ofReference name).loadedAs :: stack⟩ ∧
      ((ValueType.ofReference name).loadedAs = .object name ↔
        (ValueType.ofReference name).Plain) := by
  refine ⟨fun type reference => ⟨?_, ValueType.ofValue_eq_loadedAs_iff reference⟩,
    fun count name => ⟨arrayOf name, execute_anewarray .., ?_, ?_⟩⟩
  · rw [execute_aaload, ValueType.elementOf_descriptor reference]
  · rw [execute_aaload, arrayOf_eq,
      ValueType.elementOf_descriptor (ValueType.isReference_ofReference name)]
  · rw [← ValueType.ofValue_eq_loadedAs_iff (ValueType.isReference_ofReference name)]
    unfold ValueType.ofReference
    split <;> simp [FrameType.ofValue, ValueType.descriptor, eq_comm, ValueType.loadedAs]

/-- An element of an array of strings, which is loaded as a string. -/
theorem aaload_loads_string :
    (ValueType.object "java/lang/String").IsReference ∧
    execute ⟨[], .int :: .object ("[" ++ (ValueType.object "java/lang/String").descriptor) :: []⟩
        (.simple Opcode.aaload) ⟨0⟩ "demo/C" =
      .ok ⟨[], [.object "java/lang/String"]⟩ := by
  have reference : (ValueType.object "java/lang/String").IsReference := trivial
  obtain ⟨loads, plain⟩ :=
    (aaload_loads [] [] .int ⟨0⟩ "demo/C").1 (.object "java/lang/String") reference
  have same := plain.2 (by decide)
  rw [FrameType.ofValue, Except.ok.injEq] at same
  rw [← same] at loads
  exact ⟨reference, loads⟩

/-- An array made for elements of a class `List`, whose elements are loaded as an `ist`. -/
theorem anewarray_list_loads_ist :
    execute ⟨[], [.int]⟩ (.type Opcode.anewarray "List") ⟨0⟩ "demo/C" =
        .ok ⟨[], [.object "[LList;"]⟩ ∧
      execute ⟨[], [.int, .object "[LList;"]⟩ (.simple Opcode.aaload) ⟨0⟩ "demo/C" =
        .ok ⟨[], [.object "ist"]⟩ ∧
      FrameType.object "ist" ≠ .object "List" := by
  decide

end Frame

end ClassWeave
