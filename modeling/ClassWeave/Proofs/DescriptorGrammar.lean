/-
# ClassWeave.Proofs.DescriptorGrammar -- descriptors are read by their grammar

`FieldDescriptor`, `ResultDescriptor` and `MethodDescriptor` are the grammar of descriptors,
over texts and without a reader.  A reader takes a descriptor off the front of a text in one
way only: what it reads describes what it took (`ValueType.of_readField`,
`MethodType.of_readParams`), and a type that is described in front of a text is read from it
(`ValueType.IsField.readField`, `MethodType.readParams_of_fields`).  So a whole text is read
exactly if it is a descriptor, and describing the type that was read gives the text back
(`ValueType.parse?_eq_some`, `MethodType.parse?_eq_some`).

Not every type is read back from its description.  The type of the null reference borrows
the descriptor of the root class, and no parameter is `void`.
-/
import ClassWeave.Descriptor

set_option autoImplicit false

namespace ClassWeave

/-! ## The grammar -/

/-- The text of a value: the letter of a primitive, a class name between `L` and a semicolon, or a
bracket and the text of the elements. -/
inductive FieldDescriptor : List Char → Prop
  | primitive {c : Char} (letter : c ∈ ['B', 'C', 'D', 'F', 'I', 'J', 'S', 'Z']) :
      FieldDescriptor [c]
  | object {name : List Char} (plain : ';' ∉ name) : FieldDescriptor ('L' :: (name ++ [';']))
  | array {element : List Char} (described : FieldDescriptor element) :
      FieldDescriptor ('[' :: element)

/-- The text of a result. -/
inductive ResultDescriptor : List Char → Prop
  | void : ResultDescriptor ['V']
  | value {text : List Char} (described : FieldDescriptor text) : ResultDescriptor text

/-- The text of a method: the texts of its parameters in parentheses, and that of its result. -/
inductive MethodDescriptor : List Char → Prop
  | method {params : List (List Char)} {result : List Char}
      (each : ∀ param ∈ params, FieldDescriptor param) (last : ResultDescriptor result) :
      MethodDescriptor ('(' :: (params.flatten ++ ')' :: result))

namespace ValueType

variable {type : ValueType} {text rest : List Char}

/-- Class names are free of semicolons, and an array type keeps the descriptor of an array. -/
def WellSpelt : ValueType → Prop
  | object name => ';' ∉ name.toList
  | array text => ∃ element, FieldDescriptor element ∧ text.toList = '[' :: element
  | _ => True

/-- What a field or a parameter can be. -/
structure IsField (type : ValueType) : Prop where
  wellSpelt : type.WellSpelt
  ne_null : type ≠ null
  ne_void : type ≠ void

/-! ## One value -/

/-- The text of an array is read behind its first bracket. -/
theorem readField_bracket (text : List Char) : readField ('[' :: text) =
    (readField text).map fun (type, rest) => (array ("[" ++ type.descriptor), rest) := by
  have brackets : ('[' :: text).takeWhile (· == '[') = '[' :: text.takeWhile (· == '[') := rfl
  have behind : ('[' :: text).dropWhile (· == '[') = text.dropWhile (· == '[') := rfl
  rw [readField, brackets, behind, readField]
  cases readElement (text.dropWhile (· == '[')) with
  | none => rfl
  | some read =>
    cases text.takeWhile (· == '[') with
    | nil => rfl
    | cons bracket brackets =>
      simp only [Option.map_some, descriptor, Option.some.injEq, Prod.mk.injEq, array.injEq, and_true]
      apply String.toList_injective
      simp

theorem readField_of_ne {c : Char} (other : c ≠ '[') (text : List Char) :
    readField (c :: text) = readElement (c :: text) := by
  have none_ : (c :: text).takeWhile (· == '[') = [] := List.takeWhile_cons_of_neg (by simpa using other)
  have all : (c :: text).dropWhile (· == '[') = c :: text :=
    List.dropWhile_cons_of_neg (by simpa using other)
  rw [readField, none_, all]
  cases readElement (c :: text) <;> rfl

theorem readElement_of_plain (name : List Char) (plain : ';' ∉ name) (rest : List Char) :
    readElement ('L' :: (name ++ ';' :: rest)) = some (object (String.ofList name), rest) := by
  have inside : ∀ c ∈ name, (c != ';') = true := fun c among => by
    simpa using fun same : c = ';' => plain (same ▸ among)
  have behind : (name ++ ';' :: rest).dropWhile (· != ';') = ';' :: rest := by
    rw [List.dropWhile_append_of_pos inside]
    rfl
  have front : (name ++ ';' :: rest).takeWhile (· != ';') = name := by
    rw [List.takeWhile_append_of_pos inside]
    simp
  rw [readElement, behind, front]

/-- A type that is read without brackets is described by what was read. -/
theorem of_readElement (read : readElement text = some (type, rest)) :
    type.IsField ∧ text = type.descriptor.toList ++ rest := by
  unfold readElement at read
  split at read
  -- Only a class name takes more than its letter: it goes up to the first semicolon.
  case h_9 inside =>
    cases behind : inside.dropWhile (· != ';') with
    | nil =>
      rw [behind] at read
      cases read
    | cons stop after =>
      rw [behind] at read
      cases read
      have plain : ';' ∉ inside.takeWhile (· != ';') := fun among => by
        simpa using List.all_eq_true.1 List.all_takeWhile _ among
      obtain rfl : stop = ';' := by
        have some_ : inside.dropWhile (· != ';') ≠ [] := by simp [behind]
        simpa [behind] using List.head_dropWhile_not (· != ';') some_
      have whole : inside = inside.takeWhile (· != ';') ++ ';' :: rest := by
        rw [← behind, List.takeWhile_append_dropWhile]
      refine ⟨⟨?_, nofun, nofun⟩, ?_⟩
      · rw [WellSpelt, String.toList_ofList]
        exact plain
      · simpa [descriptor] using whole
  case h_10 => cases read
  all_goals
    cases read
    exact ⟨⟨trivial, nofun, nofun⟩, by simp [descriptor]⟩

/-- What describes a field is the text of one. -/
theorem IsField.described (field : type.IsField) : FieldDescriptor type.descriptor.toList := by
  obtain ⟨spelt, notNull, notVoid⟩ := field
  cases type with
  | object name => simpa [descriptor] using FieldDescriptor.object spelt
  | array text =>
    obtain ⟨element, described, same⟩ := spelt
    rw [descriptor, same]
    exact .array described
  | null => exact absurd rfl notNull
  | void => exact absurd rfl notVoid
  | _ => exact .primitive (by decide)

/-- What a value is read from is what describes it, and is the text of a field. -/
theorem of_readField : ∀ {text : List Char} {type : ValueType},
    readField text = some (type, rest) → type.IsField ∧ text = type.descriptor.toList ++ rest
  | [], _, read => by cases read
  | c :: text, type, read => by
    by_cases bracket : c = '['
    · subst bracket
      rw [readField_bracket] at read
      obtain ⟨⟨element, after⟩, inside, same⟩ := Option.map_eq_some_iff.1 read
      cases same
      obtain ⟨field, rfl⟩ := of_readField inside
      have whole : ("[" ++ element.descriptor).toList = '[' :: element.descriptor.toList := by simp
      refine ⟨⟨⟨_, field.described, whole⟩, nofun, nofun⟩, ?_⟩
      rw [descriptor, whole, List.cons_append]
    · rw [readField_of_ne bracket] at read
      exact of_readElement read

/-- **The text of a field is read whatever stands behind it.** -/
theorem readField_of_described (described : FieldDescriptor text) :
    ∃ type : ValueType, ∀ rest, readField (text ++ rest) = some (type, rest) := by
  induction described with
  | @primitive c letter =>
    have read : c ≠ '[' ∧ ∃ type : ValueType, ∀ rest, readElement (c :: rest) = some (type, rest) := by
      simp only [List.mem_cons, List.not_mem_nil, or_false] at letter
      rcases letter with rfl | rfl | rfl | rfl | rfl | rfl | rfl | rfl
      all_goals exact ⟨by decide, _, fun _ => rfl⟩
    obtain ⟨other, type, read⟩ := read
    exact ⟨type, fun rest => (readField_of_ne other rest).trans (read rest)⟩
  | @object name plain =>
    refine ⟨object (String.ofList name), fun rest => ?_⟩
    simp only [List.cons_append, List.append_assoc, List.nil_append]
    rw [readField_of_ne (by decide), readElement_of_plain name plain]
  | @array element described ih =>
    obtain ⟨type, read⟩ := ih
    refine ⟨array ("[" ++ type.descriptor), fun rest => ?_⟩
    rw [List.cons_append, readField_bracket, read]
    rfl

/-- A field is read back from what describes it. -/
theorem IsField.readField (field : type.IsField) (rest : List Char) :
    readField (type.descriptor.toList ++ rest) = some (type, rest) := by
  obtain ⟨spelt, notNull, notVoid⟩ := field
  cases type with
  | object name =>
    have read := readElement_of_plain name.toList spelt rest
    rw [String.ofList_toList] at read
    simpa [descriptor] using (readField_of_ne (by decide) _).trans read
  | array text =>
    obtain ⟨element, described, whole⟩ := spelt
    obtain ⟨type, read⟩ := readField_of_described described
    obtain ⟨_, same⟩ := of_readField (read [])
    rw [List.append_nil, List.append_nil] at same
    have inner : "[" ++ type.descriptor = text := by
      apply String.toList_injective
      simp [whole, same]
    rw [descriptor, whole, List.cons_append, readField_bracket, read]
    exact congrArg (fun text => some (array text, rest)) inner
  | null => exact absurd rfl notNull
  | void => exact absurd rfl notVoid
  | _ => rfl

/-- The texts of fields are the texts that describe one. -/
theorem fieldDescriptor_iff :
    FieldDescriptor text ↔ ∃ type : ValueType, type.IsField ∧ type.descriptor.toList = text := by
  constructor
  · intro described
    obtain ⟨type, read⟩ := readField_of_described described
    obtain ⟨field, same⟩ := of_readField (read [])
    rw [List.append_nil, List.append_nil] at same
    exact ⟨type, field, same.symm⟩
  · rintro ⟨type, field, rfl⟩
    exact field.described

/-! ## Results -/

/-- What a method can return. -/
structure IsResult (type : ValueType) : Prop where
  wellSpelt : type.WellSpelt
  ne_null : type ≠ null

theorem IsField.isResult (field : type.IsField) : type.IsResult := ⟨field.wellSpelt, field.ne_null⟩

theorem isResult_void : void.IsResult := ⟨trivial, nofun⟩

theorem IsResult.isField_or (result : type.IsResult) : type.IsField ∨ type = void := by
  by_cases same : type = void
  · exact .inr same
  · exact .inl ⟨result.wellSpelt, result.ne_null, same⟩

theorem readResult_of_readField {read : ValueType × List Char}
    (field : readField text = some read) : readResult text = some read := by
  unfold readResult
  split
  · rw [readField_of_ne (by decide)] at field
    cases field
  · exact field

theorem of_readResult (read : readResult text = some (type, rest)) :
    type.IsResult ∧ text = type.descriptor.toList ++ rest := by
  unfold readResult at read
  split at read
  · cases read
    exact ⟨isResult_void, by simp [descriptor]⟩
  · obtain ⟨field, same⟩ := of_readField read
    exact ⟨field.isResult, same⟩

/-- A result is read back from what describes it. -/
theorem IsResult.readResult (result : type.IsResult) (rest : List Char) :
    readResult (type.descriptor.toList ++ rest) = some (type, rest) := by
  rcases result.isField_or with field | rfl
  · exact readResult_of_readField (field.readField rest)
  · rfl

theorem resultDescriptor_iff :
    ResultDescriptor text ↔ ∃ type : ValueType, type.IsResult ∧ type.descriptor.toList = text := by
  constructor
  · rintro (_ | described)
    · exact ⟨void, isResult_void, by simp [descriptor]⟩
    · obtain ⟨type, field, same⟩ := fieldDescriptor_iff.1 described
      exact ⟨type, field.isResult, same⟩
  · rintro ⟨type, result, rfl⟩
    rcases result.isField_or with field | rfl
    · exact .value field.described
    · exact .void

/-- **A result is read from a whole text exactly if the text describes it.** -/
theorem parse?_eq_some {text : String} :
    parse? text = some type ↔ type.IsResult ∧ type.descriptor = text := by
  constructor
  · intro told
    unfold parse? at told
    split at told <;> cases told
    obtain ⟨result, whole⟩ := of_readResult ‹_›
    rw [List.append_nil] at whole
    exact ⟨result, String.toList_injective whole.symm⟩
  · rintro ⟨result, rfl⟩
    have whole := result.readResult []
    rw [List.append_nil] at whole
    simp [parse?, whole]

end ValueType

/-! ## Methods -/

namespace MethodType

variable {type : MethodType} {text rest : List Char}

/-- What a method can be: its parameters are fields, and its result is one or `void`. -/
structure Valid (type : MethodType) : Prop where
  params : ∀ param ∈ type.params, param.IsField
  result : type.result.IsResult

theorem toList_descriptor (type : MethodType) : type.descriptor.toList =
    '(' :: (type.params.flatMap (·.descriptor.toList) ++ ')' :: type.result.descriptor.toList) := by
  simp [descriptor, List.flatMap_map]

theorem readParams_of_some {found : List ValueType} {param : ValueType}
    (front : ValueType.readField text = some (param, rest)) :
    readParams found text = readParams (param :: found) rest := by
  rw [readParams]
  split
  · rename_i known
    rw [front] at known
    cases known
    rfl
  · rename_i known
    rw [front] at known
    cases known

theorem readParams_close (found : List ValueType) (rest : List Char) :
    readParams found (')' :: rest) = some (found.reverse, rest) := by
  have none_ : ValueType.readField (')' :: rest) = none := ValueType.readField_of_ne (by decide) rest
  rw [readParams]
  split
  · rename_i known
    rw [none_] at known
    cases known
  · rfl

/-- Parameters are read back from the texts that describe them and the parenthesis behind. -/
theorem readParams_of_fields {params : List ValueType} (fields : ∀ param ∈ params, param.IsField)
    (found : List ValueType) (rest : List Char) :
    readParams found (params.flatMap (·.descriptor.toList) ++ ')' :: rest) =
      some (found.reverse ++ params, rest) := by
  induction params generalizing found with
  | nil => simpa using readParams_close found rest
  | cons param params ih =>
    obtain ⟨field, others⟩ := List.forall_mem_cons.1 fields
    rw [List.flatMap_cons, List.append_assoc, readParams_of_some (field.readField _), ih others]
    simp

theorem of_readParams {found params : List ValueType}
    (read : readParams found text = some (params, rest)) :
    ∃ own, (∀ param ∈ own, param.IsField) ∧ params = found.reverse ++ own ∧
      text = own.flatMap (·.descriptor.toList) ++ ')' :: rest := by
  fun_induction readParams found text with
  | case1 found text type after known ih =>
    obtain ⟨field, rfl⟩ := ValueType.of_readField known
    obtain ⟨own, fields, rfl, rfl⟩ := ih read
    exact ⟨type :: own, List.forall_mem_cons.2 ⟨field, fields⟩, by simp, by simp⟩
  | case2 found text known =>
    unfold closeParams at read
    split at read <;> cases read
    exact ⟨[], List.forall_mem_nil _, by simp, rfl⟩

theorem of_read (told : read text = some (type, rest)) :
    type.Valid ∧ text = type.descriptor.toList ++ rest := by
  unfold read at told
  split at told
  · split at told
    · cases told
    · rename_i inside
      split at told <;> cases told
      obtain ⟨own, fields, rfl, rfl⟩ := of_readParams inside
      obtain ⟨result, rfl⟩ := ValueType.of_readResult ‹_›
      refine ⟨⟨by simpa using fields, result⟩, ?_⟩
      simp [toList_descriptor]
  · cases told

/-- **A method is read from a whole text exactly if the text describes it.** -/
theorem parse?_eq_some {text : String} :
    parse? text = some type ↔ type.Valid ∧ type.descriptor = text := by
  constructor
  · intro told
    unfold parse? at told
    split at told <;> cases told
    obtain ⟨valid, whole⟩ := of_read ‹_›
    rw [List.append_nil] at whole
    exact ⟨valid, String.toList_injective whole.symm⟩
  · rintro ⟨⟨fields, result⟩, rfl⟩
    have behind := result.readResult []
    rw [List.append_nil] at behind
    simp [parse?, toList_descriptor, read, readParams_of_fields fields, behind]

theorem exists_fields {texts : List (List Char)} (each : ∀ text ∈ texts, FieldDescriptor text) :
    ∃ params : List ValueType, (∀ param ∈ params, param.IsField) ∧
      params.flatMap (·.descriptor.toList) = texts.flatten := by
  induction texts with
  | nil => exact ⟨[], List.forall_mem_nil _, rfl⟩
  | cons text texts ih =>
    obtain ⟨described, others⟩ := List.forall_mem_cons.1 each
    obtain ⟨param, field, rfl⟩ := ValueType.fieldDescriptor_iff.1 described
    obtain ⟨params, fields, whole⟩ := ih others
    exact ⟨param :: params, List.forall_mem_cons.2 ⟨field, fields⟩, by simp [whole]⟩

/-- The texts of methods are the texts that describe one. -/
theorem methodDescriptor_iff :
    MethodDescriptor text ↔ ∃ type : MethodType, type.Valid ∧ type.descriptor.toList = text := by
  constructor
  · rintro ⟨each, last⟩
    obtain ⟨params, fields, whole⟩ := exists_fields each
    obtain ⟨result, valid, rfl⟩ := ValueType.resultDescriptor_iff.1 last
    exact ⟨⟨params, result⟩, ⟨fields, valid⟩, by rw [toList_descriptor, whole]⟩
  · rintro ⟨type, ⟨fields, result⟩, rfl⟩
    rw [toList_descriptor, List.flatMap]
    refine .method ?_ (ValueType.resultDescriptor_iff.2 ⟨_, result, rfl⟩)
    intro param among
    obtain ⟨type, known, rfl⟩ := List.mem_map.1 among
    exact (fields type known).described

end MethodType

/-! ## Whole texts -/

/-- **Descriptors are read by their grammar**, those of methods and those of results.  Nothing else is
read, and what a type is read from is what describes it.  A result is read back from its
description exactly if it is well spelt and not the type of the null reference, a method exactly if
its parameters and its result are so and no parameter is `void`. -/
theorem parse?_follows_grammar :
    (∀ text, (∃ type, MethodType.parse? text = some type) ↔ MethodDescriptor text.toList) ∧
    (∀ text type, MethodType.parse? text = some type →
      "(" ++ String.join (type.params.map ValueType.descriptor) ++ ")" ++ type.result.descriptor =
        text) ∧
    (∀ text, (∃ type, ValueType.parse? text = some type) ↔ ResultDescriptor text.toList) ∧
    (∀ text type, ValueType.parse? text = some type → type.descriptor = text) ∧
    (∀ type : ValueType,
      ValueType.parse? type.descriptor = some type ↔ type.WellSpelt ∧ type ≠ .null) ∧
    (∀ type : MethodType, MethodType.parse? type.descriptor = some type ↔
      (∀ param ∈ type.params, param.WellSpelt ∧ param ≠ .null ∧ param ≠ .void) ∧
        type.result.WellSpelt ∧ type.result ≠ .null) := by
  have method (text : String) :
      (∃ type, MethodType.parse? text = some type) ↔ MethodDescriptor text.toList := by
    simp only [MethodType.parse?_eq_some, MethodType.methodDescriptor_iff, String.toList_inj]
  have result (text : String) :
      (∃ type, ValueType.parse? text = some type) ↔ ResultDescriptor text.toList := by
    simp only [ValueType.parse?_eq_some, ValueType.resultDescriptor_iff, String.toList_inj]
  refine ⟨method, fun text type told => (MethodType.parse?_eq_some.1 told).2, result,
    fun text type told => (ValueType.parse?_eq_some.1 told).2, fun type => ?_, fun type => ?_⟩
  · rw [ValueType.parse?_eq_some, and_iff_left rfl]
    exact ⟨fun known => ⟨known.wellSpelt, known.ne_null⟩, fun ⟨spelt, other⟩ => ⟨spelt, other⟩⟩
  · rw [MethodType.parse?_eq_some, and_iff_left rfl]
    constructor
    · rintro ⟨fields, known⟩
      refine ⟨fun param among => ?_, known.wellSpelt, known.ne_null⟩
      exact ⟨(fields param among).wellSpelt, (fields param among).ne_null, (fields param among).ne_void⟩
    · rintro ⟨fields, spelt, other⟩
      refine ⟨fun param among => ?_, spelt, other⟩
      obtain ⟨spelt, notNull, notVoid⟩ := fields param among
      exact ⟨spelt, notNull, notVoid⟩

/-- A method with an array and a wide parameter. -/
theorem parse?_follows_grammar_main :
    let text := "([Ljava/lang/String;J)V"
    let type : MethodType := ⟨[.array "[Ljava/lang/String;", .long], .void⟩
    MethodType.parse? text = some type ∧ MethodDescriptor text.toList ∧ type.descriptor = text ∧
      ValueType.parse? "[[D" = some (.array "[[D") ∧ ResultDescriptor "[[D".toList ∧
      (ValueType.array "[[D").WellSpelt := by
  intro text type
  obtain ⟨methods, described, results, _, reread, _⟩ := parse?_follows_grammar
  have method : MethodType.parse? text = some type := by decide +kernel
  have result : ValueType.parse? "[[D" = some (.array "[[D") := by decide +kernel
  exact ⟨method, (methods text).1 ⟨type, method⟩, described text type method, result,
    (results "[[D").1 ⟨_, result⟩, ((reread (.array "[[D")).1 result).1⟩

/-- The type of the null reference is well spelt, but its description is read as the root class; and no
description of a method with a `void` parameter is read. -/
theorem null_descriptor_not_reread :
    ValueType.null.WellSpelt ∧
      ValueType.parse? ValueType.null.descriptor = some (.object ClassName.object) ∧
      ValueType.parse? ValueType.null.descriptor ≠ some .null ∧
      ValueType.void.WellSpelt ∧
      MethodType.parse? (MethodType.descriptor ⟨[.void], .void⟩) = none :=
  ⟨trivial, by decide +kernel, by decide +kernel, trivial, by decide +kernel⟩

end ClassWeave
