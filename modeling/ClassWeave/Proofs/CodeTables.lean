/-
# ClassWeave.Proofs.CodeTables -- what a code payload says

Assembled code, a list of handlers, frames and variables make a payload.  It is the payload of
one `CodeAttribute`, whose tables hold a row for everything that has a place in the code
(`AssembledCode.Fills`): no block without a range, no line at the end, no variable whose range
ends before it starts, and of frames at one offset the last.

Every table stands behind a count of two bytes.  The rows are all there, whatever their
number, but they are read back only as long as the count can say how many there are
(`CodeAttribute.read_write_iff`, `CodeAttribute.Carries.lines_iff` and its like).  Of an
exception table that is too long, as many rows are read as the count says
(`CodeAttribute.handlersIn_eq`).
-/
import ClassWeave.Proofs.HandlerTable
import ClassWeave.Proofs.StackMapTable

set_option autoImplicit false

namespace ClassWeave

/-! ## Counted rows -/

/-- Rows are read back if their count can say how many there are, and then only. -/
theorem Reads.table_run_iff {α : Type} {item : Reader α} {write : α → Bytes} {values : List α}
    (each : ∀ value ∈ values, ∀ origin, Reads item origin (write value) value) :
    (Reader.table item).run (Bytes.count values.length ++ values.flatMap write) = .ok values ↔
      values.length < 0x10000 := by
  constructor
  · intro again
    exact ((Yields.table (Yields.any item)).run again).1
  · intro few
    have whole := (Reads.table values 0 few each).run []
    rwa [List.append_nil] at whole

theorem HandlerEntry.reads_write (row : HandlerEntry) (origin : Nat) :
    Reads read origin row.write row := by
  unfold write
  simp only [List.append_assoc]
  exact (Reads.u2 _ _).bind ((Reads.u2 _ _).bind ((Reads.u2 _ _).bind
    ((Reads.u2 _ _).map (HandlerEntry.mk row.start row.stop row.handler))))

theorem LineEntry.reads_write (row : LineEntry) (origin : Nat) :
    Reads read origin row.write row :=
  (Reads.u2 _ _).bind ((Reads.u2 _ _).map (LineEntry.mk row.start))

theorem VariableEntry.reads_write (row : VariableEntry) (origin : Nat) :
    Reads read origin row.write row := by
  unfold write
  simp only [List.append_assoc]
  exact (Reads.u2 _ _).bind ((Reads.u2 _ _).bind ((Reads.u2 _ _).bind ((Reads.u2 _ _).bind
    ((Reads.u2 _ _).map (VariableEntry.mk row.start row.length row.name row.type)))))

/-! ## Tables under their names -/

namespace Attribute

/-- The index of the name and the payload, as `CodeAttribute.writeTables` takes them. -/
def stored (given : Attribute) : UInt16 × Bytes := (given.nameIndex, given.payload)

theorem writeTables_stored (attributes : List Attribute) :
    CodeAttribute.writeTables (attributes.map stored) = writeTable attributes := by
  rw [CodeAttribute.writeTables, List.length_map, List.flatMap_map]
  rfl

/-- The attributes for rows under a name: one with the rows behind their count, or none if there is
no row. -/
inductive Tabled (entries : Entries) (name : String) : List Bytes → List Attribute → Prop
  | nothing : Tabled entries name [] []
  | table {index : UInt16} {rows : List Bytes} (named : entries.utf8? index = some name)
      (filled : rows ≠ []) :
      Tabled entries name rows [⟨index, name, Bytes.count rows.length ++ rows.flatten⟩]

namespace Tabled

variable {entries later : Entries} {name : String} {rows : List Bytes}
  {attributes : List Attribute}

theorem extends_ (extends_ : entries.Extends later) (tabled : Tabled entries name rows attributes) :
    Tabled later name rows attributes := by
  cases tabled with
  | nothing => exact .nothing
  | table named filled => exact .table (extends_.utf8? named) filled

theorem length_le (tabled : Tabled entries name rows attributes) : attributes.length ≤ 1 := by
  cases tabled <;> simp

theorem named (tabled : Tabled entries name rows attributes) :
    ∀ given ∈ attributes, entries.utf8 given.nameIndex = .ok given.name := by
  cases tabled with
  | nothing => exact List.forall_mem_nil _
  | table named _ =>
    intro given among
    obtain rfl := List.mem_singleton.1 among
    exact (Entries.utf8_eq_ok _ _ _).2 named

theorem filter_name (tabled : Tabled entries name rows attributes) (other : String) :
    attributes.filter (·.name == other) = if name = other then attributes else [] := by
  cases tabled with
  | nothing => exact (ite_self _).symm
  | table => split <;> simp_all

/-- The rows are found in the attributes if there are not too many of them. -/
theorem rows_iff {α : Type} {row : Reader α} {write : α → Bytes} {values : List α}
    (tabled : Tabled entries name (values.map write) attributes)
    (each : ∀ value ∈ values, ∀ origin, Reads row origin (write value) value) :
    (do
      let tables ← attributes.mapM fun table => (Reader.table row).run table.payload
      return tables.flatten) = (.ok values : Except ReadError (List α)) ↔
      values.length < 0x10000 := by
  generalize same : values.map write = rows at tabled
  cases tabled with
  | nothing =>
    obtain rfl := List.map_eq_nil_iff.1 same
    exact iff_of_true rfl (Nat.zero_lt_succ _)
  | table =>
    subst same
    rw [List.mapM_cons, List.mapM_nil, ← Reads.table_run_iff each, List.length_map,
      ← List.flatMap_def]
    cases (Reader.table row).run (Bytes.count values.length ++ values.flatMap write) with
    | error cause => exact iff_of_false nofun nofun
    | ok found =>
      show Except.ok [found].flatten = _ ↔ _
      rw [List.flatten_singleton]

end Tabled

end Attribute

/-- The table for rows under a name. -/
theorem namedTable_leads {pool : ConstantPool} (sound : pool.Sound) (name : String)
    (rows : List Bytes) :
    Interning.Leads (namedTable name rows) pool fun tables after =>
      ∃ attributes : List Attribute, tables = attributes.map Attribute.stored ∧
        Attribute.Tabled after.entries name rows attributes := by
  unfold namedTable
  split
  · rename_i empty
    rw [List.isEmpty_iff.1 empty]
    exact .pure ⟨[], rfl, .nothing⟩
  · rename_i filled
    refine (Interning.utf8_leads sound name).bind fun index after _ holds => .pure ?_
    exact ⟨[⟨index, name, _⟩], rfl,
      .table ((ConstantPool.holds_utf8 _ _ _).1 holds) (by simpa using filled)⟩

/-! ## Payloads -/

namespace CodeAttribute

/-- The payload; its attributes are stored under the indexes of their names. -/
def write (code : CodeAttribute) : Bytes :=
  Bytes.u2 code.maxStack ++ Bytes.u2 code.maxLocals ++ Bytes.u4 (UInt32.ofNat code.code.length)
    ++ code.code ++ Bytes.count code.handlers.length ++ code.handlers.flatMap HandlerEntry.write
    ++ Attribute.writeTable code.attributes

/-- The code can be told by its payload. -/
structure Fits (entries : Entries) (code : CodeAttribute) : Prop where
  length : code.code.length < 2 ^ 32
  handlers : code.handlers.length < 0x10000
  attributes : Attribute.TableFits entries code.attributes

theorem reader_fits (entries : Entries) : Yields (reader entries) (Fits entries) := by
  refine (Yields.any _).bind fun maxStack _ => (Yields.any _).bind fun maxLocals _ => ?_
  refine (Yields.any _).bind fun length _ => (Yields.bytes _).bind fun code size => ?_
  refine (Yields.table (Yields.any HandlerEntry.read)).bind fun handlers few => ?_
  refine (Attribute.readTable_fits entries).bind fun attributes fits => ?_
  exact .pure ⟨size ▸ length.toNat_lt, few.1, fits⟩

theorem reads_write {entries : Entries} {code : CodeAttribute} (fits : code.Fits entries) :
    Reads (reader entries) 0 code.write code := by
  have size : code.code.length = (UInt32.ofNat code.code.length).toNat := by
    have := fits.length
    simp only [UInt32.toNat_ofNat']
    omega
  unfold write
  simp only [List.append_assoc]
  refine (Reads.u2 _ 0).bind ((Reads.u2 _ _).bind ((Reads.u4 _ _).bind ?_))
  refine (Reads.bytes size _).bind ?_
  rw [← List.append_assoc (Bytes.count code.handlers.length)]
  refine (Reads.table _ _ fits.handlers fun row _ => row.reads_write).bind ?_
  exact (Attribute.reads_writeTable fits.attributes _).map
    (CodeAttribute.mk code.maxStack code.maxLocals code.code code.handlers)

theorem fits_of_read {entries : Entries} {payload : Bytes} {code : CodeAttribute}
    (found : read entries payload = .ok code) : code.Fits entries := by
  unfold read Reader.runAll at found
  split at found
  · split at found <;> cases found
    exact reader_fits entries _ _ _ ‹_›
  · cases found

/-- A payload is read back if it fits, and then only. -/
theorem read_write_iff {entries : Entries} {code : CodeAttribute} :
    read entries code.write = .ok code ↔ code.Fits entries := by
  refine ⟨fits_of_read, fun fits => ?_⟩
  have taken := reads_write fits []
  rw [List.append_nil] at taken
  rw [read, Reader.runAll, Cursor.start, taken]
  rfl

/-! ### The exception table alone -/

/-- What stands before the attributes of a code payload is read for the exception table. -/
def handlersReader : Reader (List HandlerEntry) := do
  let _ ← Reader.u2
  let _ ← Reader.u2
  let length ← Reader.u4
  let _ ← Reader.bytes length.toNat
  Reader.table HandlerEntry.read

/-- The exception table in a code payload. -/
def handlersIn (payload : Bytes) : Except ReadError (List HandlerEntry) :=
  handlersReader.run payload

/-- It is the table of the code that the whole payload is read as. -/
theorem handlersIn_of_read {entries : Entries} {payload : Bytes} {code : CodeAttribute}
    (found : read entries payload = .ok code) : handlersIn payload = .ok code.handlers := by
  unfold read Reader.runAll at found
  split at found
  · rename_i value cursor taken
    split at found <;> cases found
    simp only [reader, Reader.bind_eq_ok] at taken
    obtain ⟨_, _, first, _, _, second, length, _, third, bytes, _, fourth, handlers, after, fifth,
      _, _, _, last⟩ := taken
    cases last
    have reads : handlersReader (Cursor.start payload) = .ok (handlers, after) := by
      simp only [handlersReader, Reader.bind_eq_ok]
      exact ⟨_, _, first, _, _, second, _, _, third, _, _, fourth, fifth⟩
    rw [handlersIn, Reader.run, reads]
  · cases found

/-- Two bytes count the rows, so of a longer table the payload has as many rows as they say. -/
theorem handlersIn_eq {maxStack maxLocals : UInt16} {code rest : Bytes} (table : List HandlerEntry)
    (small : code.length ≤ 0xFFFF) :
    handlersIn (Bytes.u2 maxStack ++ Bytes.u2 maxLocals ++ Bytes.u4 (UInt32.ofNat code.length)
      ++ code ++ Bytes.count table.length ++ table.flatMap HandlerEntry.write ++ rest) =
        .ok (table.take (table.length % 0x10000)) := by
  let kept := table.take (table.length % 0x10000)
  let lost := table.drop (table.length % 0x10000)
  have size : code.length = (UInt32.ofNat code.length).toNat := by
    simp only [UInt32.toNat_ofNat']
    omega
  have few : kept.length = table.length % 0x10000 := by
    rw [List.length_take]
    omega
  have count : Bytes.count table.length = Bytes.count kept.length := by
    rw [Bytes.count, Bytes.count, few, UInt16.ofNat_mod_size]
  have rows : table.flatMap HandlerEntry.write =
      kept.flatMap HandlerEntry.write ++ lost.flatMap HandlerEntry.write := by
    rw [← List.flatMap_append, List.take_append_drop]
  have reads : Reads handlersReader 0 (Bytes.u2 maxStack ++ (Bytes.u2 maxLocals ++
      (Bytes.u4 (UInt32.ofNat code.length) ++ (code ++
        (Bytes.count kept.length ++ kept.flatMap HandlerEntry.write))))) kept := by
    refine (Reads.u2 _ 0).bind ((Reads.u2 _ _).bind ((Reads.u4 _ _).bind ?_))
    refine (Reads.bytes size _).bind ?_
    exact Reads.table _ _ (few ▸ Nat.mod_lt _ (by decide)) fun row _ => row.reads_write
  have found := reads.run (lost.flatMap HandlerEntry.write ++ rest)
  rw [count, rows]
  simp only [List.append_assoc] at found ⊢
  exact found

end CodeAttribute

/-! ## What the tables hold -/

/-- The rows of the tables behind the exception table of a payload. -/
structure CodeTables where
  frames : List StackMapEntry
  lines : List LineEntry
  scopes : List VariableEntry
  types : List VariableEntry

namespace CodeAttribute

/-- The attributes of the code hold just the tables. -/
structure Carries (code : CodeAttribute) (entries : Entries) (tables : CodeTables) : Prop where
  attributes : ∃ frames lines scopes types,
    code.attributes = frames ++ lines ++ scopes ++ types ∧
    Attribute.Tabled entries Attribute.stackMapTable
      (tables.frames.map StackMapEntry.write) frames ∧
    Attribute.Tabled entries Attribute.lineNumberTable (tables.lines.map LineEntry.write) lines ∧
    Attribute.Tabled entries Attribute.localVariableTable
      (tables.scopes.map VariableEntry.write) scopes ∧
    Attribute.Tabled entries Attribute.localVariableTypeTable
      (tables.types.map VariableEntry.write) types

namespace Carries

variable {code : CodeAttribute} {entries later : Entries} {tables : CodeTables}

theorem extends_ (extends_ : entries.Extends later) (carries : code.Carries entries tables) :
    code.Carries later tables := by
  obtain ⟨frames, lines, scopes, types, whole, first, second, third, fourth⟩ :=
    carries.attributes
  exact ⟨frames, lines, scopes, types, whole, first.extends_ extends_,
    second.extends_ extends_, third.extends_ extends_, fourth.extends_ extends_⟩

/-- Only handlers that cannot be counted, and attributes too long for their length, keep the code
from fitting. -/
theorem fits_iff (carries : code.Carries entries tables) (small : code.code.length ≤ 0xFFFF) :
    code.Fits entries ↔ code.handlers.length < 0x10000 ∧
      ∀ given ∈ code.attributes, given.payload.length < 2 ^ 32 := by
  constructor
  · intro fits
    exact ⟨fits.handlers, fun given among => (fits.attributes.each given among).length⟩
  · rintro ⟨few, short⟩
    obtain ⟨frames, lines, scopes, types, whole, first, second, third, fourth⟩ :=
      carries.attributes
    refine ⟨by omega, few, ?_, fun given among => ⟨?_, short given among⟩⟩
    · have := first.length_le
      have := second.length_le
      have := third.length_le
      have := fourth.length_le
      simp only [whole, List.length_append]
      omega
    · rw [whole] at among
      simp only [List.mem_append] at among
      rcases among with ((among | among) | among) | among
      · exact first.named given among
      · exact second.named given among
      · exact third.named given among
      · exact fourth.named given among

/-- The attributes of each name are those of its table. -/
theorem tabled (carries : code.Carries entries tables) :
    Attribute.Tabled entries Attribute.stackMapTable (tables.frames.map StackMapEntry.write)
      (code.attributes.filter (·.name == Attribute.stackMapTable)) ∧
    Attribute.Tabled entries Attribute.lineNumberTable (tables.lines.map LineEntry.write)
      (code.attributes.filter (·.name == Attribute.lineNumberTable)) ∧
    Attribute.Tabled entries Attribute.localVariableTable (tables.scopes.map VariableEntry.write)
      (code.attributes.filter (·.name == Attribute.localVariableTable)) ∧
    Attribute.Tabled entries Attribute.localVariableTypeTable
      (tables.types.map VariableEntry.write)
      (code.attributes.filter (·.name == Attribute.localVariableTypeTable)) := by
  obtain ⟨frames, lines, scopes, types, whole, first, second, third, fourth⟩ := carries.attributes
  have split (name : String) : code.attributes.filter (·.name == name) =
      (if Attribute.stackMapTable = name then frames else []) ++
        (if Attribute.lineNumberTable = name then lines else []) ++
        (if Attribute.localVariableTable = name then scopes else []) ++
        if Attribute.localVariableTypeTable = name then types else [] := by
    rw [whole, List.filter_append, List.filter_append, List.filter_append, first.filter_name,
      second.filter_name, third.filter_name, fourth.filter_name]
  refine ⟨?_, ?_, ?_, ?_⟩
  · rw [split, if_pos rfl, if_neg (by decide), if_neg (by decide), if_neg (by decide)]
    simpa using first
  · rw [split, if_neg (by decide), if_pos rfl, if_neg (by decide), if_neg (by decide)]
    simpa using second
  · rw [split, if_neg (by decide), if_neg (by decide), if_pos rfl, if_neg (by decide)]
    simpa using third
  · rw [split, if_neg (by decide), if_neg (by decide), if_neg (by decide), if_pos rfl]
    simpa using fourth

theorem lines_iff (carries : code.Carries entries tables) :
    code.lines = .ok tables.lines ↔ tables.lines.length < 0x10000 :=
  carries.tabled.2.1.rows_iff fun row _ => row.reads_write

theorem variableRows_iff (carries : code.Carries entries tables) :
    code.variableRows = .ok tables.scopes ↔ tables.scopes.length < 0x10000 :=
  carries.tabled.2.2.1.rows_iff fun row _ => row.reads_write

theorem variableTypes_iff (carries : code.Carries entries tables) :
    code.variableTypes = .ok tables.types ↔ tables.types.length < 0x10000 :=
  carries.tabled.2.2.2.rows_iff fun row _ => row.reads_write

theorem stackMap_eq (carries : code.Carries entries tables) :
    code.stackMap = if tables.frames = [] then .ok [] else StackMapEntry.readTable.run
      (Bytes.count tables.frames.length ++ tables.frames.flatMap StackMapEntry.write) := by
  have tabled := carries.tabled.1
  rw [CodeAttribute.stackMap, ← List.head?_filter]
  generalize code.attributes.filter (·.name == Attribute.stackMapTable) = found at tabled ⊢
  generalize same : tables.frames.map StackMapEntry.write = rows at tabled
  cases tabled with
  | nothing =>
    rw [if_pos (List.map_eq_nil_iff.1 same)]
    rfl
  | table _ filled =>
    subst same
    rw [if_neg fun none_ => filled (List.map_eq_nil_iff.2 none_), List.length_map,
      ← List.flatMap_def]
    rfl

theorem stackMap_iff (carries : code.Carries entries tables) {assembled : AssembledCode}
    {rows : List (Nat × PinnedFrame)}
    (tells : StackMap.Tells assembled entries 0 rows tables.frames)
    (rising : rows.Pairwise fun a b => a.1 < b.1) (inside : ∀ row ∈ rows, row.1 < 0xFFFF) :
    code.stackMap = .ok tables.frames ↔
      ∀ row ∈ rows, row.2.locals.length < 0x10000 ∧ row.2.stack.length < 0x10000 := by
  rw [carries.stackMap_eq, ← tells.read_iff rising inside]
  split
  · rename_i nothing
    rw [nothing]
    exact iff_of_true rfl rfl
  · exact Iff.rfl

end Carries

end CodeAttribute

/-! ## Rows of assembled code -/

namespace AssembledCode

/-- The offset of a label that is placed. -/
def offset (assembled : AssembledCode) (label : Label) : Nat :=
  (landing assembled.labels label).id

/-- The label is placed somewhere. -/
def Places (assembled : AssembledCode) (label : Label) : Prop :=
  ∃ place, assembled.offsetOf label = .ok place

theorem offset_eq {assembled : AssembledCode} {label : Label} {place : Nat}
    (known : assembled.offsetOf label = .ok place) : assembled.offset label = place := by
  unfold offsetOf AssembledCode.place at known
  split at known
  · rename_i found
    cases known
    simp [offset, landing, found]
  · cases known

theorem Places.offsetOf_eq {assembled : AssembledCode} {label : Label}
    (placed : assembled.Places label) :
    assembled.offsetOf label = .ok (assembled.offset label) := by
  obtain ⟨place, known⟩ := placed
  rw [offset_eq known, known]

end AssembledCode

/-- The row of a line. -/
structure LineEntry.StandsFor (assembled : AssembledCode) (row : LineEntry)
    (line : Label × UInt16) : Prop where
  start : assembled.offsetOf line.1 = .ok row.start.toNat
  number : row.number = line.2

/-- The row of a variable under a type, which is its descriptor or its signature. -/
structure VariableEntry.StandsFor (assembled : AssembledCode) (entries : Entries)
    (row : VariableEntry) (declared : Variable) (type : String) : Prop where
  start : assembled.offsetOf declared.start = .ok row.start.toNat
  stop : assembled.offsetOf declared.stop = .ok (row.start.toNat + row.length.toNat)
  name : entries.utf8? row.name = some declared.name
  type : entries.utf8? row.type = some type
  slot : row.slot = declared.slot

theorem VariableEntry.StandsFor.extends_ {assembled : AssembledCode} {entries later : Entries}
    {row : VariableEntry} {declared : Variable} {type : String} (extends_ : entries.Extends later)
    (stands : row.StandsFor assembled entries declared type) :
    row.StandsFor assembled later declared type :=
  { stands with name := extends_.utf8? stands.name, type := extends_.utf8? stands.type }

namespace AssembledCode

/-- The range of a block holds something. -/
def isFilled (assembled : AssembledCode) (block : TryBlock) : Bool :=
  assembled.offset block.start < assembled.offset block.stop

/-- A line stands before the end of the code. -/
def isInside (assembled : AssembledCode) (line : Label × UInt16) : Bool :=
  assembled.offset line.1 < assembled.code.length

/-- The range of a variable does not end before it starts. -/
def isForward (assembled : AssembledCode) (declared : Variable) : Bool :=
  assembled.offset declared.start ≤ assembled.offset declared.stop

/-- The tables have a row for each frame that is kept, each line inside the code and each variable
whose range goes forward.  All their labels are placed. -/
structure Fills (assembled : AssembledCode) (entries : Entries) (frames : List PinnedFrame)
    (declared : List Variable) (tables : CodeTables) : Prop where
  linesPlaced : ∀ line ∈ assembled.lines, assembled.Places line.1
  scopesPlaced : ∀ one ∈ declared, assembled.Places one.start ∧ assembled.Places one.stop
  frames : ∃ rows, StackMap.kept assembled frames = .ok rows ∧
    StackMap.Tells assembled entries 0 rows tables.frames
  lines : List.Forall₂ (LineEntry.StandsFor assembled) tables.lines
    (assembled.lines.filter assembled.isInside)
  scopes : List.Forall₂ (fun row declared =>
      row.StandsFor assembled entries declared declared.descriptor)
    tables.scopes (declared.filter assembled.isForward)
  types : List.Forall₂ (fun row declared => ∃ signature, declared.signature = some signature ∧
      row.StandsFor assembled entries declared signature)
    tables.types ((declared.filter assembled.isForward).filter (·.signature.isSome))

theorem Fills.extends_ {assembled : AssembledCode} {entries later : Entries}
    {frames : List PinnedFrame} {declared : List Variable} {tables : CodeTables}
    (extends_ : entries.Extends later) (fills : assembled.Fills entries frames declared tables) :
    assembled.Fills later frames declared tables := by
  obtain ⟨rows, kept, tells⟩ := fills.frames
  refine { fills with frames := ⟨rows, kept, tells.extends_ extends_⟩, scopes := ?_, types := ?_ }
  · exact fills.scopes.imp fun _ _ stands => stands.extends_ extends_
  · exact fills.types.imp fun _ _ ⟨signature, known, stands⟩ =>
      ⟨signature, known, stands.extends_ extends_⟩

/-- The rows of blocks are those of the blocks whose range holds something. -/
theorem standsFor_of_becomes {assembled : AssembledCode} {pool : ConstantPool}
    {blocks : List TryBlock} {found : List (Option HandlerEntry)}
    (each : List.Forall₂ (fun block row? => block.Becomes assembled pool row?) blocks found) :
    List.Forall₂ (HandlerEntry.StandsFor assembled pool) (found.filterMap id)
      (blocks.filter assembled.isFilled) := by
  refine Outcome.forall₂_filterMap each ?_ ?_
  · rintro block row? becomes rfl
    cases becomes with
    | nothing opens closes empty =>
      rw [isFilled, offset_eq opens, offset_eq closes]
      simpa using empty
  · rintro block row? row becomes rfl
    cases becomes with
    | row stands =>
      refine ⟨?_, stands⟩
      rw [isFilled, offset_eq stands.start, offset_eq stands.stop]
      simpa using stands.filled

end AssembledCode

/-- What becomes of a variable: its row and that of its signature if it has one, or nothing if its
range ends before it starts. -/
inductive Variable.Becomes (assembled : AssembledCode) (entries : Entries) (declared : Variable) :
    Option (VariableEntry × Option VariableEntry) → Prop
  | nothing {start stop : Nat} (opens : assembled.offsetOf declared.start = .ok start)
      (closes : assembled.offsetOf declared.stop = .ok stop) (backward : stop < start) :
      Becomes assembled entries declared none
  | bare {row : VariableEntry} (forward : assembled.isForward declared = true)
      (stands : row.StandsFor assembled entries declared declared.descriptor)
      (unsigned : declared.signature = none) : Becomes assembled entries declared (some (row, none))
  | typed {row typed : VariableEntry} {signature : String}
      (forward : assembled.isForward declared = true)
      (stands : row.StandsFor assembled entries declared declared.descriptor)
      (signed : declared.signature = some signature)
      (stands' : typed.StandsFor assembled entries declared signature) :
      Becomes assembled entries declared (some (row, some typed))

theorem Variable.Becomes.placed {assembled : AssembledCode} {entries : Entries}
    {declared : Variable} {rows? : Option (VariableEntry × Option VariableEntry)}
    (becomes : declared.Becomes assembled entries rows?) :
    assembled.Places declared.start ∧ assembled.Places declared.stop := by
  cases becomes with
  | nothing opens closes _ => exact ⟨⟨_, opens⟩, _, closes⟩
  | bare _ stands | typed _ stands => exact ⟨⟨_, stands.start⟩, _, stands.stop⟩

theorem Variable.Becomes.extends_ {assembled : AssembledCode} {entries later : Entries}
    {declared : Variable} {rows? : Option (VariableEntry × Option VariableEntry)}
    (extends_ : entries.Extends later) (becomes : declared.Becomes assembled entries rows?) :
    declared.Becomes assembled later rows? := by
  cases becomes with
  | nothing opens closes backward => exact .nothing opens closes backward
  | bare forward stands unsigned => exact .bare forward (stands.extends_ extends_) unsigned
  | typed forward stands signed stands' =>
    exact .typed forward (stands.extends_ extends_) signed (stands'.extends_ extends_)

namespace AssembledCode

variable {assembled : AssembledCode}
  (small : ∀ label offset, assembled.offsetOf label = .ok offset → offset ≤ 0xFFFF)

include small

theorem lineRows_leads {pool : ConstantPool} (sound : pool.Sound) :
    Interning.Leads assembled.lineRows pool fun rows _ =>
      (∀ line ∈ assembled.lines, assembled.Places line.1) ∧
        List.Forall₂ (LineEntry.StandsFor assembled) rows
          (assembled.lines.filter assembled.isInside) := by
  have one (line : Label × UInt16) (pool : ConstantPool) :
      Interning.Leads (do return (← assembled.find line.1, line.2)) pool fun found _ =>
        assembled.offsetOf line.1 = .ok found.1 ∧ found.2 = line.2 :=
    (find_leads line.1 pool).bind fun _ _ _ known => .pure ⟨known.1, rfl⟩
  refine (Interning.Leads.mapM (fun line pool _ => one line pool)
    (fun _ _ _ _ _ holds => holds) assembled.lines sound).bind fun found _ _ each => .pure ?_
  refine ⟨fun line among => ?_, Outcome.forall₂_filterMap each ?_ ?_⟩
  · obtain ⟨found, _, known, _⟩ := Outcome.exists_of_forall₂ each.flip line among
    exact ⟨found.1, known⟩
  · rintro line ⟨place, number⟩ ⟨known, rfl⟩ outside
    rw [isInside, offset_eq known]
    simpa using outside
  · rintro line ⟨place, number⟩ row ⟨known, rfl⟩ chosen
    simp only [Option.ite_none_right_eq_some, Option.some.injEq] at chosen
    obtain ⟨inside, rfl⟩ := chosen
    refine ⟨?_, ?_, rfl⟩
    · rw [isInside, offset_eq known]
      simpa using inside
    · rw [toNat_ofNat_offset small known, known]

theorem variableRow_leads (declared : Variable) {pool : ConstantPool} (sound : pool.Sound) :
    Interning.Leads (assembled.variableRow declared) pool fun rows? after =>
      declared.Becomes assembled after.entries rows? := by
  refine (find_leads declared.start pool).bind fun start _ _ ⟨opens, same⟩ => ?_
  subst same
  refine (find_leads declared.stop _).bind fun stop _ _ ⟨closes, same⟩ => ?_
  subst same
  by_cases backward : stop < start
  · rw [if_pos backward]
    exact .pure (.nothing opens closes backward)
  · rw [if_neg backward]
    -- From here on the row is forward, and both rows, with or without a signature, have its shape.
    have forward : assembled.isForward declared = true := by
      rw [isForward, offset_eq opens, offset_eq closes]
      simpa using backward
    have stands {name type : UInt16} {described : String} {entries : Entries}
        (name_ : entries.utf8? name = some declared.name)
        (type_ : entries.utf8? type = some described) :
        VariableEntry.StandsFor assembled entries ⟨UInt16.ofNat start, UInt16.ofNat (stop - start),
          name, type, declared.slot⟩ declared described := by
      have first := toNat_ofNat_offset small opens
      have last := small _ _ closes
      have length : (UInt16.ofNat (stop - start)).toNat = stop - start := by
        simp only [UInt16.toNat_ofNat']
        omega
      refine ⟨?_, ?_, name_, type_, rfl⟩
      · rw [first, opens]
      · rw [first, length, closes]
        congr 1
        omega
    refine (Interning.utf8_leads sound declared.name).bind fun name middle grown holds => ?_
    have name_ := (ConstantPool.holds_utf8 _ _ _).1 holds
    have sound' := grown.sound sound
    refine (Interning.utf8_leads sound' declared.descriptor).bind fun type after grown' holds' => ?_
    have name' := grown'.extends_.utf8? name_
    have row := stands name' ((ConstantPool.holds_utf8 _ _ _).1 holds')
    cases signed : declared.signature with
    | none => exact .pure (.bare forward row signed)
    | some signature =>
      refine (Interning.utf8_leads (grown'.sound sound') signature).bind
        fun type' last grown'' holds'' => .pure ?_
      exact .typed forward (row.extends_ grown''.extends_) signed
        (stands (grown''.extends_.utf8? name') ((ConstantPool.holds_utf8 _ _ _).1 holds''))

/-- The attribute for the frames that are kept, if there are any. -/
theorem stackMapTable_leads {pool : ConstantPool} (sound : pool.Sound)
    (frames : Option (List PinnedFrame)) :
    Interning.Leads (assembled.stackMapTable frames) pool fun stored after =>
      ∃ rows table attributes, StackMap.kept assembled (frames.getD []) = .ok rows ∧
        StackMap.Tells assembled after.entries 0 rows table ∧
        stored = attributes.map Attribute.stored ∧
        Attribute.Tabled after.entries Attribute.stackMapTable (table.map StackMapEntry.write)
          attributes := by
  cases frames with
  | none => exact .pure ⟨[], [], [], StackMap.kept_nil assembled, .nil 0, rfl, .nothing⟩
  | some frames =>
    refine (StackMap.encode_leads sound small frames).bind
      fun payload? middle grown ⟨rows, table, chosen, tells, same⟩ => ?_
    cases table with
    | nil =>
      obtain rfl := same
      exact .pure ⟨rows, [], [], chosen, tells, rfl, .nothing⟩
    | cons entry table =>
      obtain rfl := same
      refine (Interning.utf8_leads (grown.sound sound) _).bind fun name after later holds => ?_
      refine .pure ⟨rows, entry :: table, [⟨name, Attribute.stackMapTable, _⟩], chosen,
        tells.extends_ later.extends_, rfl, ?_⟩
      have named := (ConstantPool.holds_utf8 _ _ _).1 holds
      have tabled : Attribute.Tabled after.entries Attribute.stackMapTable
          ((entry :: table).map StackMapEntry.write) _ := .table named (by simp)
      rwa [List.length_map, ← List.flatMap_def] at tabled

/-- **What is encoded is the payload of a code attribute** with the given sizes and handlers, whose
tables have a row for everything that has a place in the code. -/
theorem encode_leads {pool : ConstantPool} (sound : pool.Sound) (maxStack maxLocals : UInt16)
    (handlers : List HandlerEntry) (frames : Option (List PinnedFrame))
    (declared : List Variable) :
    Interning.Leads (assembled.encode maxStack maxLocals handlers frames declared) pool
      fun payload after => ∃ attributes tables,
        payload = (CodeAttribute.mk maxStack maxLocals assembled.code handlers attributes).write ∧
        (CodeAttribute.mk maxStack maxLocals assembled.code handlers attributes).Carries
          after.entries tables ∧
        assembled.Fills after.entries (frames.getD []) declared tables := by
  refine (stackMapTable_leads small sound frames).bind
    fun stored pool₁ grown₁ ⟨rows, table, stackMap, kept, tells, same, first⟩ => ?_
  subst same
  have sound₁ := grown₁.sound sound
  refine (lineRows_leads small sound₁).bind fun lines pool₂ grown₂ ⟨placed, lines_⟩ => ?_
  have sound₂ := grown₂.sound sound₁
  refine (namedTable_leads sound₂ _ _).bind fun stored pool₃ grown₃ ⟨lineTable, same, second⟩ => ?_
  subst same
  have sound₃ := grown₃.sound sound₂
  refine (Interning.Leads.mapM (fun declared pool sound => variableRow_leads small declared sound)
    (fun _ _ _ _ grown becomes => becomes.extends_ grown.extends_) declared sound₃).bind
    fun found pool₄ grown₄ each => ?_
  have sound₄ := grown₄.sound sound₃
  refine (namedTable_leads sound₄ _ _).bind fun stored pool₅ grown₅ ⟨plain, same, third⟩ => ?_
  subst same
  have sound₅ := grown₅.sound sound₄
  refine (namedTable_leads sound₅ _ _).bind fun stored pool₆ grown₆ ⟨typed, same, fourth⟩ => ?_
  subst same
  -- A table is read in the last pool, not in the one its names were found in.
  have later₄ := grown₅.trans grown₆
  have later₁ := (grown₂.trans grown₃).trans (grown₄.trans later₄)
  refine .pure ⟨stackMap ++ lineTable ++ plain ++ typed,
    ⟨table, lines, (found.filterMap id).map Prod.fst, (found.filterMap id).filterMap Prod.snd⟩,
    ?_, ?_, ?_⟩
  · simp only [← List.map_append, Attribute.writeTables_stored]
    rfl
  · refine ⟨stackMap, lineTable, plain, typed, rfl, first.extends_ later₁.extends_,
      second.extends_ (grown₄.trans later₄).extends_, ?_, ?_⟩
    · rw [List.map_map]
      exact third.extends_ grown₆.extends_
    · rw [List.map_filterMap]
      exact fourth
  · have becomes := each.imp fun _ _ becomes => becomes.extends_ later₄.extends_
    refine ⟨placed, fun one among => ?_, ⟨rows, kept, tells.extends_ later₁.extends_⟩, lines_, ?_, ?_⟩
    · obtain ⟨_, _, becomes⟩ := Outcome.exists_of_forall₂ becomes.flip one among
      exact becomes.placed
    · rw [List.map_filterMap]
      refine Outcome.forall₂_filterMap becomes ?_ ?_
      · rintro declared rows? becomes nothing
        cases becomes with
        | nothing opens closes backward =>
          rw [isForward, offset_eq opens, offset_eq closes]
          simpa using backward
        | bare | typed => cases nothing
      · rintro declared rows? row becomes some_
        cases becomes with
        | nothing => cases some_
        | bare forward stands | typed forward stands =>
          cases some_
          exact ⟨forward, stands⟩
    · rw [List.filterMap_filterMap, List.filter_filter]
      refine Outcome.forall₂_filterMap becomes ?_ ?_
      · rintro declared rows? becomes nothing
        cases becomes with
        | nothing opens closes backward =>
          rw [isForward, offset_eq opens, offset_eq closes]
          simp [backward]
        | bare _ _ unsigned => simp [unsigned]
        | typed => cases nothing
      · rintro declared rows? row becomes some_
        cases becomes with
        | nothing | bare => cases some_
        | typed forward _ signed stands =>
          cases some_
          exact ⟨by simp [forward, signed], _, signed, stands⟩

end AssembledCode

/-! ## Bodies -/

/-- The code says what the body says.  Its handlers, lines, frames and variables are those that have
a place in the assembled code, where all their labels are. -/
structure MethodBody.Encoded (body : MethodBody) (frames : List PinnedFrame)
    (assembled : AssembledCode) (pool : ConstantPool) (code : CodeAttribute)
    (tables : CodeTables) : Prop where
  maxStack : code.maxStack = body.maxStack
  maxLocals : code.maxLocals = body.maxLocals
  array : code.code = assembled.code
  small : code.code.length ≤ 0xFFFF
  lines : assembled.lines = body.code.filterMap Node.line?
  blocksPlaced : ∀ block ∈ body.tryBlocks.toList,
    assembled.Places block.start ∧ assembled.Places block.stop
  handlers : List.Forall₂ (HandlerEntry.StandsFor assembled pool) code.handlers
    (body.tryBlocks.toList.filter assembled.isFilled)
  carries : code.Carries pool.entries tables
  fills : assembled.Fills pool.entries frames body.declared.toList tables

namespace MethodBody

variable {body : MethodBody} {frames : List PinnedFrame} {assembled : AssembledCode}
  {pool after : ConstantPool} {code : CodeAttribute} {tables : CodeTables}

theorem Encoded.grown (grown : pool.Grown after)
    (encoded : body.Encoded frames assembled pool code tables) :
    body.Encoded frames assembled after code tables :=
  { encoded with
    handlers := encoded.handlers.imp fun _ _ stands =>
      { stands with catches := stands.catches.grown grown }
    carries := encoded.carries.extends_ grown.extends_
    fills := encoded.fills.extends_ grown.extends_ }

/-- What keeps the parts of the code from being read back: numbers that no count can say, and
attributes too long for their length. -/
structure ReadsBack (body : MethodBody) (frames : List PinnedFrame) (assembled : AssembledCode)
    (entries : Entries) (code : CodeAttribute) (tables : CodeTables) : Prop where
  payload : CodeAttribute.read entries code.write = .ok code ↔
    (body.tryBlocks.toList.filter assembled.isFilled).length < 0x10000 ∧
      ∀ given ∈ code.attributes, given.payload.length < 2 ^ 32
  lines : code.lines = .ok tables.lines ↔
    ((body.code.filterMap Node.line?).filter assembled.isInside).length < 0x10000
  scopes : code.variableRows = .ok tables.scopes ↔
    (body.declared.toList.filter assembled.isForward).length < 0x10000
  types : code.variableTypes = .ok tables.types ↔
    ((body.declared.toList.filter assembled.isForward).filter
      (·.signature.isSome)).length < 0x10000
  frames : ∀ rows, StackMap.kept assembled frames = .ok rows →
    (code.stackMap = .ok tables.frames ↔
      ∀ row ∈ rows, row.2.locals.length < 0x10000 ∧ row.2.stack.length < 0x10000)

theorem Encoded.readsBack (encoded : body.Encoded frames assembled pool code tables) :
    body.ReadsBack frames assembled pool.entries code tables where
  payload := by
    rw [CodeAttribute.read_write_iff, encoded.carries.fits_iff encoded.small,
      encoded.handlers.length_eq]
  lines := by
    rw [encoded.carries.lines_iff, encoded.fills.lines.length_eq, encoded.lines]
  scopes := by
    rw [encoded.carries.variableRows_iff, encoded.fills.scopes.length_eq]
  types := by
    rw [encoded.carries.variableTypes_iff, encoded.fills.types.length_eq]
  frames := by
    intro rows chosen
    obtain ⟨rows', chosen', tells⟩ := encoded.fills.frames
    obtain rfl := Except.ok.inj (chosen'.symm.trans chosen)
    obtain ⟨rising, inside⟩ := StackMap.kept_rising chosen
    refine encoded.carries.stackMap_iff tells rising fun row among => ?_
    have within := inside row among
    have few := encoded.small
    rw [encoded.array] at few
    omega

theorem encode_grows (body : MethodBody) (withFrames : Bool) :
    Interning.Grows (body.encode withFrames) :=
  (assemble_grows _).bind fun assembled =>
    (assembled.resolveHandlers_grows _).bind fun _ => assembled.encode_grows _ _ _ _ _

/-- **The payload of a body says what the body says.** -/
theorem encode_eq_ok {withFrames : Bool} {payload : Bytes} (sound : pool.Sound)
    (done : body.encode withFrames pool = (.ok payload, after)) :
    ∃ assembled middle code tables, assemble body.code pool = (.ok assembled, middle) ∧
      middle.Grown after ∧ payload = code.write ∧
      body.Encoded (if withFrames then body.frames.toList else []) assembled after code tables := by
  obtain ⟨assembled, middle, assembles, done⟩ := Interning.bind_eq_ok.1 done
  obtain ⟨handlers, second, resolved, done⟩ := Interning.bind_eq_ok.1 done
  obtain ⟨layout, _, whole⟩ := assemble_eq_ok sound assembles
  have few : assembled.code.length ≤ 0xFFFF := whole.size ▸ whole.small
  have small := whole.offset_small
  have sound' := ((assemble_grows body.code).grown sound assembles).sound sound
  obtain ⟨grown, found, same, becomes⟩ := (AssembledCode.resolveHandlers_leads small
    body.tryBlocks.toList sound').of_eq_ok resolved
  obtain ⟨last, attributes, tables, written, carries, fills⟩ := (AssembledCode.encode_leads small
    (grown.sound sound') body.maxStack body.maxLocals handlers
    (if withFrames then some body.frames.toList else none) body.declared.toList).of_eq_ok done
  have becomes' := becomes.imp fun _ _ becomes => becomes.grown last
  refine ⟨assembled, middle, _, tables, assembles, grown.trans last, written, rfl, rfl, rfl, few,
    whole.lines_eq, fun block among => ?_, ?_, carries, ?_⟩
  · obtain ⟨_, _, becomes⟩ := Outcome.exists_of_forall₂ becomes'.flip block among
    cases becomes with
    | nothing opens closes _ => exact ⟨⟨_, opens⟩, _, closes⟩
    | row stands => exact ⟨⟨_, stands.start⟩, _, stands.stop⟩
  · rw [same]
    exact AssembledCode.standsFor_of_becomes becomes'
  · cases withFrames <;> exact fills

end MethodBody

end ClassWeave
