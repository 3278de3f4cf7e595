/-
# ClassWeave.Proofs.PoolGrowth -- interning only adds, and answers the right place

A pool is sound if every constant it remembers stands where it says.  Interning keeps a
pool sound and makes it grow: `ConstantPool.Grown` is the relation between a pool and
what any number of interning steps make of it, each appending an entry that stands for
a constant.  From it follow the facts that later modules use: what could be looked up
before can be looked up still, and the second slots of wide entries stay where they
belong.

`Interning.Leads` is the specification of a step from one pool: the pool grows, whether
the step fails or not, and if it does not fail its answer is right in the new pool.
-/
import ClassWeave.Pool.Intern
import ClassWeave.Proofs.Outcome

set_option autoImplicit false

namespace ClassWeave

namespace Entries

/-! ## Tables that begin alike -/

def Extends (before after : Entries) : Prop := before.toList <+: after.toList

variable {before middle after : Entries}

theorem Extends.refl (entries : Entries) : entries.Extends entries := List.prefix_refl _

theorem Extends.trans (first : before.Extends middle) (second : middle.Extends after) :
    before.Extends after := List.IsPrefix.trans first second

theorem Extends.getElem? (extends_ : before.Extends after) {i : Nat} {entry : Entry}
    (found : before[i]? = some entry) : after[i]? = some entry := by
  obtain ⟨tail, same⟩ := extends_
  have within : i < before.toList.length := by
    rw [Array.length_toList]
    exact (Array.getElem?_eq_some_iff.1 found).1
  rw [← Array.getElem?_toList] at found ⊢
  rw [← same, List.getElem?_append_left within, found]

/-! ## What the lookups find is the constant at the index -/

theorem utf8?_eq_some (entries : Entries) (index : UInt16) (text : String) :
    entries.utf8? index = some text ↔ entries[index.toNat]? = some (.utf8 text) := by
  unfold utf8?
  split <;> simp_all

theorem Extends.utf8? (extends_ : before.Extends after) {index : UInt16} {text : String}
    (found : before.utf8? index = some text) : after.utf8? index = some text := by
  rw [utf8?_eq_some] at found ⊢
  exact extends_.getElem? found

theorem utf8_eq_ok (entries : Entries) (index : UInt16) (text : String) :
    entries.utf8 index = .ok text ↔ entries.utf8? index = some text := by
  unfold utf8 utf8?
  split <;> simp_all

theorem Extends.utf8 (extends_ : before.Extends after) {index : UInt16} {text : String}
    (found : before.utf8 index = .ok text) : after.utf8 index = .ok text := by
  rw [utf8_eq_ok] at found ⊢
  exact extends_.utf8? found

theorem className?_eq_some (entries : Entries) (index : UInt16) (name : String) :
    entries.className? index = some name ↔
      ∃ place, entries[index.toNat]? = some (.class place) ∧ entries.utf8? place = some name := by
  unfold className?
  split <;> simp_all

theorem Extends.className? (extends_ : before.Extends after) {index : UInt16} {name : String}
    (found : before.className? index = some name) : after.className? index = some name := by
  rw [className?_eq_some] at found ⊢
  obtain ⟨place, entry, text⟩ := found
  exact ⟨place, extends_.getElem? entry, extends_.utf8? text⟩

theorem nameAndType?_eq_some (entries : Entries) (index : UInt16) (name descriptor : String) :
    entries.nameAndType? index = some (name, descriptor) ↔
      ∃ first second, entries[index.toNat]? = some (.nameAndType first second) ∧
        entries.utf8? first = some name ∧ entries.utf8? second = some descriptor := by
  unfold nameAndType?
  split
  · simp only [Option.bind_eq_bind, Option.bind_eq_some_iff, Option.pure_def]
    grind
  · grind

theorem Extends.nameAndType? (extends_ : before.Extends after) {index : UInt16}
    {found : String × String} (known : before.nameAndType? index = some found) :
    after.nameAndType? index = some found := by
  obtain ⟨name, descriptor⟩ := found
  rw [nameAndType?_eq_some] at known ⊢
  obtain ⟨first, second, entry, left, right⟩ := known
  exact ⟨first, second, extends_.getElem? entry, extends_.utf8? left, extends_.utf8? right⟩

theorem member?_eq_some (entries : Entries) (owner nameAndType : UInt16) (target : MemberRef) :
    entries.member? owner nameAndType = some target ↔
      entries.className? owner = some target.owner ∧
        entries.nameAndType? nameAndType = some (target.name, target.descriptor) := by
  obtain ⟨ownerName, name, descriptor⟩ := target
  simp only [member?, Option.bind_eq_bind, Option.bind_eq_some_iff, Option.pure_def]
  grind

theorem Extends.member? (extends_ : before.Extends after) {owner nameAndType : UInt16}
    {target : MemberRef} (found : before.member? owner nameAndType = some target) :
    after.member? owner nameAndType = some target := by
  rw [member?_eq_some] at found ⊢
  exact ⟨extends_.className? found.1, extends_.nameAndType? found.2⟩

theorem className_eq_ok (entries : Entries) (index : UInt16) (name : String) :
    entries.className index = .ok name ↔ entries.className? index = some name := by
  unfold className className?
  split
  · exact utf8_eq_ok _ _ _
  · simp

theorem nameAndType_eq_ok (entries : Entries) (index : UInt16) (found : String × String) :
    entries.nameAndType index = .ok found ↔ entries.nameAndType? index = some found := by
  unfold nameAndType nameAndType?
  split
  · rename_i first second entry
    constructor
    · intro known
      obtain ⟨name, left, known⟩ := Outcome.bind_eq_ok.1 known
      obtain ⟨descriptor, right, same⟩ := Outcome.bind_eq_ok.1 known
      cases same
      rw [(utf8_eq_ok _ _ _).1 left, (utf8_eq_ok _ _ _).1 right]
      rfl
    · intro known
      obtain ⟨name, left, known⟩ := Option.bind_eq_some_iff.1 known
      obtain ⟨descriptor, right, same⟩ := Option.bind_eq_some_iff.1 known
      cases same
      rw [(utf8_eq_ok _ _ _).2 left, (utf8_eq_ok _ _ _).2 right]
      rfl
  · simp

theorem member_eq_ok (entries : Entries) (owner nameAndType : UInt16) (target : MemberRef) :
    entries.member owner nameAndType = .ok target ↔
      entries.member? owner nameAndType = some target := by
  rw [member?_eq_some]
  constructor
  · intro known
    obtain ⟨name, left, known⟩ := Outcome.bind_eq_ok.1 known
    obtain ⟨parts, right, same⟩ := Outcome.bind_eq_ok.1 known
    cases same
    exact ⟨(className_eq_ok _ _ _).1 left, (nameAndType_eq_ok _ _ _).1 right⟩
  · rintro ⟨left, right⟩
    rw [member, (className_eq_ok _ _ _).2 left, (nameAndType_eq_ok _ _ _).2 right]
    rfl

theorem Extends.constant? (extends_ : before.Extends after) {entry : Entry} {constant : Constant}
    (found : before.constant? entry = some constant) : after.constant? entry = some constant := by
  cases entry <;>
    simp only [Entries.constant?, Option.map_eq_some_iff, Option.bind_eq_bind,
      Option.bind_eq_some_iff, Option.pure_def, reduceCtorEq] at found ⊢
  -- Constants that name others are looked up through them, and all of these stay where they are.
  case «class» | string | methodType =>
    obtain ⟨text, known, same⟩ := found
    exact ⟨text, extends_.utf8? known, same⟩
  case nameAndType =>
    obtain ⟨name, left, descriptor, right, same⟩ := found
    exact ⟨name, extends_.utf8? left, descriptor, extends_.utf8? right, same⟩
  case field | method | interfaceMethod =>
    obtain ⟨target, known, same⟩ := found
    exact ⟨target, extends_.member? known, same⟩
  case invokeDynamic =>
    obtain ⟨parts, known, same⟩ := found
    exact ⟨parts, extends_.nameAndType? known, same⟩
  all_goals exact found

theorem Extends.constantAt? (extends_ : before.Extends after) {i : Nat} {constant : Constant}
    (found : before.constantAt? i = some constant) : after.constantAt? i = some constant := by
  rw [Entries.constantAt?, Option.bind_eq_some_iff] at found ⊢
  obtain ⟨entry, known, stands⟩ := found
  exact ⟨entry, extends_.getElem? known, extends_.constant? stands⟩

theorem constantAt?_eq_some (entries : Entries) (i : Nat) (constant : Constant) :
    entries.constantAt? i = some constant ↔
      ∃ entry, entries[i]? = some entry ∧ entries.constant? entry = some constant :=
  Option.bind_eq_some_iff

end Entries

/-! ## Pools that grow -/

/-- The indexes an entry takes up, in the order of a table. -/
def Entry.spread (entry : Entry) : List Entry :=
  if entry.slots = 2 then [entry, .unusable] else [entry]

theorem Entry.slots_pos (entry : Entry) : 0 < entry.slots := by
  cases entry <;> simp [slots]

theorem Entry.length_spread (entry : Entry) : entry.spread.length = entry.slots := by
  cases entry <;> rfl

namespace ConstantPool

/-- What the pool remembers is what its table holds. -/
def Sound (pool : ConstantPool) : Prop :=
  ∀ constant index, pool.places[constant]? = some index →
    pool.entries.constantAt? index.toNat = some constant

/-- The pools that interning makes of one, by entries that stand for constants. -/
inductive Grown (first : ConstantPool) : ConstantPool → Prop
  | refl : Grown first first
  | push {pool : ConstantPool} {constant : Constant} {entry : Entry} (grown : Grown first pool)
      (stands : pool.entries.constant? entry = some constant)
      (room : pool.entries.size + entry.slots ≤ 0xFFFF) : Grown first (pool.push constant entry)

theorem entries_push (pool : ConstantPool) (constant : Constant) (entry : Entry) :
    (pool.push constant entry).entries.toList = pool.entries.toList ++ entry.spread := by
  unfold push Entry.spread
  split <;> simp_all

theorem push_extends (pool : ConstantPool) (constant : Constant) (entry : Entry) :
    pool.entries.Extends (pool.push constant entry).entries :=
  ⟨entry.spread, (pool.entries_push constant entry).symm⟩

/-- The new entry stands where the table ended. -/
theorem constantAt?_push (pool : ConstantPool) {constant : Constant} {entry : Entry}
    (stands : pool.entries.constant? entry = some constant) :
    (pool.push constant entry).entries.constantAt? pool.entries.size = some constant := by
  have first : (pool.push constant entry).entries[pool.entries.size]? = some entry := by
    rw [← Array.getElem?_toList, entries_push, ← Array.length_toList, Entry.spread]
    split <;> simp
  exact (Entries.constantAt?_eq_some _ _ _).2
    ⟨entry, first, (pool.push_extends constant entry).constant? stands⟩

theorem Sound.push {pool : ConstantPool} (sound : pool.Sound) {constant : Constant} {entry : Entry}
    (stands : pool.entries.constant? entry = some constant)
    (room : pool.entries.size + entry.slots ≤ 0xFFFF) : (pool.push constant entry).Sound := by
  intro other index known
  have slots := entry.slots_pos
  simp only [ConstantPool.push, Std.TreeMap.getElem?_insert, Std.compare_eq_iff_eq] at known
  split at known
  · rename_i same
    cases known
    have place : (UInt16.ofNat pool.entries.size).toNat = pool.entries.size := by
      simp only [UInt16.toNat_ofNat']
      omega
    rw [place, ← same]
    exact pool.constantAt?_push stands
  · exact (pool.push_extends constant entry).constantAt? (sound _ _ known)

namespace Grown

variable {first second third : ConstantPool}

theorem trans (early : first.Grown second) (late : second.Grown third) : first.Grown third := by
  induction late with
  | refl => exact early
  | push _ stands room ih => exact ih.push stands room

theorem extends_ (grown : first.Grown second) : first.entries.Extends second.entries := by
  induction grown with
  | refl => exact Entries.Extends.refl _
  | push _ _ _ ih => exact ih.trans (push_extends _ _ _)

theorem sound (grown : first.Grown second) (sound : first.Sound) : second.Sound := by
  induction grown with
  | refl => exact sound
  | push _ stands room ih => exact ih.push stands room

end Grown

theorem empty_sound : empty.Sound := by
  intro constant index known
  simp [empty] at known

theorem note_sound {entries : Entries} {places : Std.TreeMap Constant UInt16}
    (sound : (⟨entries, places⟩ : ConstantPool).Sound) (index : UInt16) :
    (⟨entries, note entries places index⟩ : ConstantPool).Sound := by
  intro constant place known
  unfold note at known
  split at known
  · rename_i noted stands
    rw [Std.TreeMap.getElem?_insertIfNew] at known
    split at known
    · rename_i fresh
      cases known
      rw [← Std.compare_eq_iff_eq.1 fresh.1]
      exact stands
    · exact sound _ _ known
  · exact sound _ _ known

theorem foldl_note_sound {entries : Entries} : ∀ (indexes : List UInt16)
    {places : Std.TreeMap Constant UInt16}, (⟨entries, places⟩ : ConstantPool).Sound →
    (⟨entries, indexes.foldl (note entries) places⟩ : ConstantPool).Sound
  | [], _, sound => sound
  | index :: indexes, _, sound => foldl_note_sound indexes (note_sound sound index)

/-- The pool of any table is sound. -/
theorem ofEntries_sound (entries : Entries) : (ofEntries entries).Sound := by
  unfold ofEntries
  split
  · exact empty_sound
  · refine foldl_note_sound _ ?_
    intro constant index known
    simp at known

theorem entries_ofEntries {entries : Entries} (filled : entries.isEmpty = false) :
    (ofEntries entries).entries = entries := by
  rw [ofEntries, filled]
  rfl

/-- The constant stands at the index. -/
def Holds (pool : ConstantPool) (constant : Constant) (index : UInt16) : Prop :=
  pool.entries.constantAt? index.toNat = some constant

theorem Holds.grown {first second : ConstantPool} {constant : Constant} {index : UInt16}
    (holds : first.Holds constant index) (grown : first.Grown second) :
    second.Holds constant index := grown.extends_.constantAt? holds

theorem holds_utf8 (pool : ConstantPool) (text : String) (index : UInt16) :
    pool.Holds (.utf8 text) index ↔ pool.entries.utf8? index = some text := by
  rw [Holds, Entries.constantAt?_eq_some, Entries.utf8?_eq_some]
  constructor
  · rintro ⟨entry, found, stands⟩
    cases entry <;> simp_all [Entries.constant?, Option.bind_eq_some_iff]
  · intro found
    exact ⟨_, found, rfl⟩

theorem holds_class (pool : ConstantPool) (name : String) (index : UInt16) :
    pool.Holds (.class name) index ↔ pool.entries.className? index = some name := by
  rw [Holds, Entries.constantAt?_eq_some, Entries.className?_eq_some]
  constructor
  · rintro ⟨entry, found, stands⟩
    cases entry <;> simp_all [Entries.constant?, Option.bind_eq_some_iff]
  · rintro ⟨place, found, text⟩
    exact ⟨_, found, by simp [Entries.constant?, text]⟩

theorem holds_nameAndType (pool : ConstantPool) (name descriptor : String) (index : UInt16) :
    pool.Holds (.nameAndType name descriptor) index ↔
      pool.entries.nameAndType? index = some (name, descriptor) := by
  rw [Holds, Entries.constantAt?_eq_some, Entries.nameAndType?_eq_some]
  constructor
  · rintro ⟨entry, found, stands⟩
    cases entry <;> simp_all [Entries.constant?, Option.bind_eq_some_iff]
  · rintro ⟨first, second, found, left, right⟩
    exact ⟨_, found, by simp [Entries.constant?, left, right]⟩

end ConstantPool

/-! ## Steps that intern -/

namespace Interning

variable {α β : Type}

/-- From a pool the step makes a grown one, and an answer that is good there. -/
def Leads (step : Interning α) (pool : ConstantPool) (good : α → ConstantPool → Prop) : Prop :=
  pool.Grown (step pool).2 ∧ ∀ value, (step pool).1 = .ok value → good value (step pool).2

variable {step : Interning α} {next : α → Interning β} {pool : ConstantPool}
  {good : α → ConstantPool → Prop} {fine : β → ConstantPool → Prop}

theorem bind_run (step : Interning α) (next : α → Interning β) (pool : ConstantPool) :
    (step >>= next) pool =
      match step pool with
      | (.ok value, pool) => next value pool
      | (.error cause, pool) => (.error cause, pool) := by
  show (StateT.bind step (ExceptT.bindCont next)) pool = _
  unfold StateT.bind ExceptT.bindCont
  show (match step pool with | (a, pool) => _) = _
  rcases step pool with ⟨value | cause, pool⟩ <;> rfl

theorem bind_eq_ok {result : β} {after : ConstantPool} :
    (step >>= next) pool = (.ok result, after) ↔
      ∃ value middle, step pool = (.ok value, middle) ∧ next value middle = (.ok result, after) := by
  rw [bind_run]
  rcases step pool with ⟨cause | value, middle⟩
  · constructor
    · intro failed
      cases failed
    · rintro ⟨value, middle, failed, _⟩
      cases failed
  · constructor
    · intro goesOn
      exact ⟨value, middle, rfl, goesOn⟩
    · rintro ⟨_, _, same, goesOn⟩
      cases same
      exact goesOn

/-- A step that leaves the pool alone does so again and again. -/
theorem mapM_replicate {step : α → Interning β} {item : α} {result : β}
    (same : step item pool = (.ok result, pool)) : ∀ count : Nat,
    (List.replicate count item).mapM step pool = (.ok (List.replicate count result), pool)
  | 0 => rfl
  | count + 1 => by
    rw [List.replicate_succ, List.mapM_cons]
    refine bind_eq_ok.2 ⟨result, pool, same, ?_⟩
    exact bind_eq_ok.2 ⟨_, pool, mapM_replicate same count, rfl⟩

/-- A constant that has a place is not placed again. -/
theorem place_eq_of_known {constant : Constant} {index : UInt16}
    (known : pool.places[constant]? = some index) (entry : Interning Entry) :
    place constant entry pool = (.ok index, pool) := by
  refine bind_eq_ok.2 ⟨pool, pool, rfl, ?_⟩
  rw [known]
  rfl

theorem Leads.pure {value : α} (holds : good value pool) :
    Leads (pure value) pool good :=
  ⟨.refl, fun _ same => by cases same; exact holds⟩

theorem Leads.lift (found : Except WriteError α) :
    Leads (ExceptT.mk (Pure.pure found)) pool fun value after => found = .ok value ∧ after = pool :=
  ⟨.refl, fun _ same => ⟨same, rfl⟩⟩

theorem Leads.bind (leads : Leads step pool good)
    (goesOn : ∀ value middle, pool.Grown middle → good value middle →
      Leads (next value) middle fine) : Leads (step >>= next) pool fine := by
  obtain ⟨grown, answer⟩ := leads
  unfold Leads
  rw [bind_run]
  match run : step pool with
  | (.ok value, middle) =>
    rw [run] at grown answer
    obtain ⟨later, good⟩ := goesOn value middle grown (answer value rfl)
    exact ⟨grown.trans later, good⟩
  | (.error cause, middle) =>
    rw [run] at grown
    exact ⟨grown, fun _ same => by cases same⟩

theorem Leads.mono {better : α → ConstantPool → Prop} (leads : Leads step pool better)
    (weaker : ∀ value after, pool.Grown after → better value after → good value after) :
    Leads step pool good :=
  ⟨leads.1, fun value same => weaker value _ leads.1 (leads.2 value same)⟩

theorem Leads.and {other : α → ConstantPool → Prop} (leads : Leads step pool good)
    (leads' : Leads step pool other) :
    Leads step pool fun value after => good value after ∧ other value after :=
  ⟨leads.1, fun value same => ⟨leads.2 value same, leads'.2 value same⟩⟩

/-- A step for each of a list.  What is good in a pool has to stay so while later steps intern. -/
theorem Leads.mapM {f : α → Interning β} {fits : α → β → ConstantPool → Prop}
    (each : ∀ item pool, pool.Sound → Leads (f item) pool (fits item))
    (stays : ∀ item result before after, before.Grown after → fits item result before →
      fits item result after) :
    ∀ (items : List α) {pool : ConstantPool}, pool.Sound →
      Leads (items.mapM f) pool fun results after =>
        List.Forall₂ (fun item result => fits item result after) items results
  | [], _, _ => by
    rw [List.mapM_nil]
    exact .pure .nil
  | item :: items, pool, sound => by
    rw [List.mapM_cons]
    refine (each item pool sound).bind fun result middle grown one => ?_
    refine (Leads.mapM each stays items (grown.sound sound)).bind fun results after later rest => ?_
    exact .pure (.cons (stays item result middle after later one) rest)

theorem append_leads {constant : Constant} {entry : Entry}
    (stands : pool.entries.constant? entry = some constant) :
    Leads (append constant entry) pool fun index after => after.Holds constant index := by
  unfold Leads append
  by_cases room : pool.entries.size + entry.slots ≤ 0xFFFF
  · rw [if_pos room]
    refine ⟨.push .refl stands room, fun index same => ?_⟩
    cases same
    have slots := entry.slots_pos
    have place : (UInt16.ofNat pool.entries.size).toNat = pool.entries.size := by
      simp only [UInt16.toNat_ofNat']
      omega
    rw [ConstantPool.Holds, place]
    exact pool.constantAt?_push stands
  · rw [if_neg room]
    exact ⟨.refl, fun _ same => by cases same⟩

theorem place_run (constant : Constant) (entry : Interning Entry) (pool : ConstantPool) :
    place constant entry pool =
      match pool.places[constant]? with
      | some index => (.ok index, pool)
      | none => (entry >>= append constant) pool := by
  show (match pool.places[constant]? with | some index => _ | none => _ : Interning UInt16) pool = _
  cases pool.places[constant]? <;> rfl

theorem place_leads (sound : pool.Sound) {constant : Constant} {entry : Interning Entry}
    (leads : Leads entry pool fun entry after => after.entries.constant? entry = some constant) :
    Leads (place constant entry) pool fun index after => after.Holds constant index := by
  unfold Leads
  rw [place_run]
  match known : pool.places[constant]? with
  | some index => exact ⟨.refl, fun _ same => by cases same; exact sound _ _ known⟩
  | none => exact leads.bind fun _ _ _ stands => append_leads stands

theorem utf8_leads (sound : pool.Sound) (text : String) :
    Leads (utf8 text) pool fun index after => after.Holds (.utf8 text) index :=
  place_leads sound (.pure rfl)

theorem int_leads (sound : pool.Sound) (value : Int32) :
    Leads (int value) pool fun index after => after.Holds (.int value) index :=
  place_leads sound (.pure rfl)

theorem float_leads (sound : pool.Sound) (bits : UInt32) :
    Leads (float bits) pool fun index after => after.Holds (.float bits) index :=
  place_leads sound (.pure rfl)

theorem long_leads (sound : pool.Sound) (value : Int64) :
    Leads (long value) pool fun index after => after.Holds (.long value) index :=
  place_leads sound (.pure rfl)

theorem double_leads (sound : pool.Sound) (bits : UInt64) :
    Leads (double bits) pool fun index after => after.Holds (.double bits) index :=
  place_leads sound (.pure rfl)

/-- An entry that refers to one text. -/
theorem entryOfText_leads (sound : pool.Sound) (text : String) (entry : UInt16 → Entry)
    {constant : Constant}
    (stands : ∀ entries index, Entries.utf8? entries index = some text →
      entries.constant? (entry index) = some constant) :
    Leads (do return entry (← utf8 text)) pool fun entry after =>
      after.entries.constant? entry = some constant :=
  (utf8_leads sound text).bind fun _ _ _ holds =>
    .pure (stands _ _ ((ConstantPool.holds_utf8 _ _ _).1 holds))

theorem namesText_leads (sound : pool.Sound) (text : String) (entry : UInt16 → Entry)
    {constant : Constant}
    (stands : ∀ entries index, Entries.utf8? entries index = some text →
      entries.constant? (entry index) = some constant) :
    Leads (place constant do return entry (← utf8 text)) pool fun index after =>
      after.Holds constant index :=
  place_leads sound (entryOfText_leads sound text entry stands)

theorem className_leads (sound : pool.Sound) (name : String) :
    Leads (className name) pool fun index after => after.Holds (.class name) index :=
  namesText_leads sound name .class fun _ _ found => by simp [Entries.constant?, found]

theorem string_leads (sound : pool.Sound) (text : String) :
    Leads (string text) pool fun index after => after.Holds (.string text) index :=
  namesText_leads sound text .string fun _ _ found => by simp [Entries.constant?, found]

theorem methodType_leads (sound : pool.Sound) (descriptor : String) :
    Leads (methodType descriptor) pool fun index after =>
      after.Holds (.methodType descriptor) index :=
  namesText_leads sound descriptor .methodType fun _ _ found => by simp [Entries.constant?, found]

theorem entryOfNames_leads (sound : pool.Sound) (name descriptor : String) :
    Leads (do return Entry.nameAndType (← utf8 name) (← utf8 descriptor)) pool fun entry after =>
      after.entries.constant? entry = some (.nameAndType name descriptor) := by
  refine (utf8_leads sound name).bind fun first middle grown left => ?_
  refine (utf8_leads (grown.sound sound) descriptor).bind fun second after later right => ?_
  have left := (ConstantPool.holds_utf8 _ _ _).1 (left.grown later)
  have right := (ConstantPool.holds_utf8 _ _ _).1 right
  exact .pure (by simp [Entries.constant?, left, right])

theorem nameAndType_leads (sound : pool.Sound) (name descriptor : String) :
    Leads (nameAndType name descriptor) pool fun index after =>
      after.Holds (.nameAndType name descriptor) index :=
  place_leads sound (entryOfNames_leads sound name descriptor)

theorem member_leads (sound : pool.Sound) (target : MemberRef) :
    Leads (member target) pool fun places after =>
      after.entries.member? places.1 places.2 = some target := by
  refine (className_leads sound target.owner).bind fun owner middle grown left => ?_
  refine (nameAndType_leads (grown.sound sound) _ _).bind fun second after later right => ?_
  have left := (ConstantPool.holds_class _ _ _).1 (left.grown later)
  have right := (ConstantPool.holds_nameAndType _ _ _ _).1 right
  exact .pure ((Entries.member?_eq_some _ _ _ _).2 ⟨left, right⟩)

/-- An entry that refers to a member. -/
theorem entryOfMember_leads (sound : pool.Sound) (target : MemberRef)
    (entry : UInt16 → UInt16 → Entry) {constant : Constant}
    (stands : ∀ entries owner nameAndType,
      Entries.member? entries owner nameAndType = some target →
      entries.constant? (entry owner nameAndType) = some constant) :
    Leads (do
      let (owner, nameAndType) ← member target
      return entry owner nameAndType) pool fun entry after =>
        after.entries.constant? entry = some constant :=
  (member_leads sound target).bind fun _ _ _ found => .pure (stands _ _ _ found)

theorem namesMember_leads (sound : pool.Sound) (target : MemberRef)
    (entry : UInt16 → UInt16 → Entry) {constant : Constant}
    (stands : ∀ entries owner nameAndType,
      Entries.member? entries owner nameAndType = some target →
      entries.constant? (entry owner nameAndType) = some constant) :
    Leads (place constant do
      let (owner, nameAndType) ← member target
      return entry owner nameAndType) pool fun index after => after.Holds constant index :=
  place_leads sound (entryOfMember_leads sound target entry stands)

theorem field_leads (sound : pool.Sound) (target : MemberRef) :
    Leads (field target) pool fun index after => after.Holds (.field target) index :=
  namesMember_leads sound target .field fun _ _ _ found => by simp [Entries.constant?, found]

theorem method_leads (sound : pool.Sound) (target : MemberRef) (isInterface : Bool) :
    Leads (method target isInterface) pool fun index after =>
      after.Holds (if isInterface then .interfaceMethod target else .method target) index := by
  cases isInterface
  · exact namesMember_leads sound target .method fun _ _ _ found => by
      simp [Entries.constant?, found]
  · exact namesMember_leads sound target .interfaceMethod fun _ _ _ found => by
      simp [Entries.constant?, found]

theorem entryOfCall_leads (sound : pool.Sound) (bootstrap : UInt16) (name descriptor : String) :
    Leads (do return Entry.invokeDynamic bootstrap (← nameAndType name descriptor)) pool
      fun entry after =>
        after.entries.constant? entry = some (.invokeDynamic bootstrap name descriptor) := by
  refine (nameAndType_leads sound name descriptor).bind fun _ _ _ found => ?_
  have found := (ConstantPool.holds_nameAndType _ _ _ _).1 found
  exact .pure (by simp [Entries.constant?, found])

theorem invokeDynamic_leads (sound : pool.Sound) (bootstrap : UInt16) (name descriptor : String) :
    Leads (invokeDynamic bootstrap name descriptor) pool fun index after =>
      after.Holds (.invokeDynamic bootstrap name descriptor) index :=
  place_leads sound (entryOfCall_leads sound bootstrap name descriptor)

theorem existing_leads (index : UInt16) (pool : ConstantPool) :
    Leads (existing index) pool fun place after => place = index ∧ after = pool := by
  unfold Leads existing
  split
  · exact ⟨.refl, fun _ same => by cases same; exact ⟨rfl, rfl⟩⟩
  · exact ⟨.refl, fun _ same => by cases same; exact ⟨rfl, rfl⟩⟩
  · exact ⟨.refl, fun _ same => by cases same⟩

theorem Leads.of_eq_ok {step : Interning α} {pool after : ConstantPool} {value : α}
    {good : α → ConstantPool → Prop} (leads : Leads step pool good)
    (done : step pool = (.ok value, after)) : pool.Grown after ∧ good value after := by
  obtain ⟨grown, answer⟩ := leads
  rw [done] at grown answer
  exact ⟨grown, answer value rfl⟩

/-! ## Steps of which only the growth matters -/

/-- Whatever comes of the step, a sound pool grows. -/
def Grows (step : Interning α) : Prop :=
  ∀ pool : ConstantPool, pool.Sound → pool.Grown (step pool).2

theorem Leads.grows {step : Interning α} {good : ConstantPool → α → ConstantPool → Prop}
    (leads : ∀ pool, pool.Sound → Leads step pool (good pool)) : Grows step :=
  fun pool sound => (leads pool sound).1

theorem Grows.leads (grows : Grows step) (sound : pool.Sound) :
    Leads step pool fun _ _ => True := ⟨grows pool sound, fun _ _ => trivial⟩

namespace Grows

theorem grown {after : ConstantPool} {result : Except WriteError α} (grows : Grows step)
    (sound : pool.Sound) (done : step pool = (result, after)) : pool.Grown after := by
  have grown := grows pool sound
  rwa [done] at grown

theorem pure (value : α) : Grows (pure value) := fun _ _ => .refl

theorem fail (cause : WriteError) : Grows (throw cause : Interning α) := fun _ _ => .refl

theorem lift (found : Except WriteError α) : Grows (ExceptT.mk (Pure.pure found)) :=
  fun _ _ => .refl

theorem bind (grows : Grows step) (goesOn : ∀ value, Grows (next value)) :
    Grows (step >>= next) := by
  intro pool sound
  have whole : Leads (step >>= next) pool fun _ _ => True :=
    (grows.leads sound).bind fun value middle grown _ => (goesOn value).leads (grown.sound sound)
  exact whole.1

theorem map (grows : Grows step) (f : α → β) : Grows (do return f (← step)) :=
  grows.bind fun value => .pure (f value)

theorem ite {condition : Prop} [Decidable condition] {first second : Interning α}
    (left : Grows first) (right : Grows second) : Grows (if condition then first else second) := by
  split
  · exact left
  · exact right

theorem mapM {f : α → Interning β} (each : ∀ item, Grows (f item)) :
    ∀ items : List α, Grows (items.mapM f)
  | [] => .pure []
  | item :: items => by
    rw [List.mapM_cons]
    exact (each item).bind fun result => (mapM each items).map (result :: ·)

theorem foldlM {f : β → α → Interning β} (each : ∀ state item, Grows (f state item)) :
    ∀ (items : List α) (state : β), Grows (items.foldlM f state)
  | [], state => .pure state
  | item :: items, state => by
    rw [List.foldlM_cons]
    exact (each state item).bind fun state => foldlM each items state

end Grows

theorem utf8_grows (text : String) : Grows (utf8 text) :=
  Leads.grows fun _ sound => utf8_leads sound text

theorem className_grows (name : String) : Grows (className name) :=
  Leads.grows fun _ sound => className_leads sound name

theorem loadable_grows (constant : Loadable) : Grows (loadable constant) := by
  intro pool sound
  cases constant with
  | int value => exact (int_leads sound value).1
  | float bits => exact (float_leads sound bits).1
  | long value => exact (long_leads sound value).1
  | double bits => exact (double_leads sound bits).1
  | string text => exact (string_leads sound text).1
  | «class» name => exact (className_leads sound name).1
  | methodType descriptor => exact (methodType_leads sound descriptor).1
  | methodHandle index => exact (existing_leads index pool).1
  | dynamic index descriptor => exact (existing_leads index pool).1

end Interning

end ClassWeave
