/-
# ClassWeave.Proofs.Mentions -- how many supertypes the classes of a source can name

A class file is read from the front, and every interface it names takes some of its bytes
(`ClassFile.interfaces_length_lt`).  So the supertypes that all visible classes name
together are no more than the bytes that can be seen (`Sources.mentions_length_le`), and
every class that is found names supertypes out of these (`Sources.mem_mentions`).
-/
import ClassWeave.Proofs.CacheContents
import ClassWeave.Proofs.Decoding

set_option autoImplicit false

namespace ClassWeave

/-! ## Bytes that a value needs -/

/-- There are at least as many bytes in front of the reader as its value needs. -/
def Needs {α : Type} (reader : Reader α) (need : α → Nat) : Prop :=
  ∀ cursor value cursor', reader cursor = .ok (value, cursor') → need value ≤ cursor.rest.length

namespace Needs

variable {α β : Type} {reader : Reader α} {next : α → Reader β} {need : α → Nat}
  {later : β → Nat} {good : α → Prop}

/-- What comes behind other bytes. -/
theorem behind (takes : Takes reader good) (goesOn : ∀ value, good value → Needs (next value) later) :
    Needs (reader >>= next) later := by
  intro cursor result cursor' returned
  obtain ⟨value, middle, read, returned⟩ := Reader.bind_eq_ok.1 returned
  obtain ⟨holds, taken, before, _⟩ := takes _ _ _ read
  have fits := goesOn value holds _ _ _ returned
  rw [before, List.length_append]
  omega

/-- What only the value in front needs bytes for. -/
theorem front (needs : Needs reader need)
    (goesOn : ∀ value, Yields (next value) fun result => later result ≤ need value) :
    Needs (reader >>= next) later := by
  intro cursor result cursor' returned
  obtain ⟨value, middle, read, returned⟩ := Reader.bind_eq_ok.1 returned
  exact Nat.le_trans (goesOn value _ _ _ returned) (needs _ _ _ read)

theorem ite {condition : Prop} [Decidable condition] {first second : Reader α}
    (left : Needs first need) (right : Needs second need) :
    Needs (if condition then first else second) need := by
  split
  · exact left
  · exact right

theorem names : ∀ (n : Nat) (found : List UInt16),
    Needs (Reader.times Reader.u2 n found) fun values => values.length - found.length
  | 0, found => by
    intro cursor values cursor' returned
    cases returned
    simp
  | n + 1, found => by
    intro cursor values cursor' returned
    simp only [Reader.times] at returned
    split at returned
    · rename_i value middle read
      have fits := names n (value :: found) _ _ _ returned
      unfold Reader.u2 at read
      split at read
      · rename_i a b rest bytes
        cases read
        simp only [List.length_cons, bytes] at fits ⊢
        omega
      · cases read
    · cases returned

/-- A table of names, with the two bytes in front that count them. -/
theorem table : Needs (Reader.table Reader.u2) fun names => names.length + 2 := by
  intro cursor values cursor' returned
  obtain ⟨n, middle, read, returned⟩ := Reader.bind_eq_ok.1 returned
  have fits := names _ _ _ _ _ returned
  unfold Reader.u2 at read
  split at read
  · rename_i a b rest bytes
    cases read
    simp only [List.length_cons, List.length_nil, bytes] at fits ⊢
    omega
  · cases read

theorem run (needs : Needs reader need) {input : Bytes} {value : α}
    (returned : reader.run input = .ok value) : need value ≤ input.length := by
  unfold Reader.run at returned
  split at returned <;> cases returned
  exact needs _ _ _ ‹_›

end Needs

/-! ## Class files -/

theorem Entry.read_takes : Takes Entry.read fun _ => True := by
  refine Takes.u1.bind fun tag _ => ?_
  repeat' refine Takes.ite (fun _ => ?_) fun _ => ?_
  · refine Takes.u2.bind fun length _ => (Takes.bytes _).bind fun bytes _ => ?_
    split
    · exact .pure trivial
    · exact .fail _
  all_goals first
    | exact .fail _
    | exact Takes.i4.map fun _ _ => trivial
    | exact Takes.u4.map fun _ _ => trivial
    | exact Takes.u8.map fun _ _ => trivial
    | exact Takes.u2.map fun _ _ => trivial
    | exact Takes.u2.bind fun _ _ => Takes.u2.map fun _ _ => trivial
    | exact Takes.u1.bind fun _ _ => Takes.u2.map fun _ _ => trivial

theorem Entry.readUpTo_takes (wanted : Nat) : ∀ (found : Entries) (fuel : Nat),
    Takes (readUpTo wanted found fuel) fun _ => True
  | found, 0 => .pure trivial
  | found, fuel + 1 => by
    rw [readUpTo]
    refine Takes.ite (fun _ => .pure trivial) fun _ => Entry.read_takes.bind fun entry _ => ?_
    exact readUpTo_takes wanted _ fuel

theorem Entries.read_takes : Takes Entries.read fun _ => True :=
  Takes.u2.bind fun _ _ => Entry.readUpTo_takes _ _ _

/-- Every interface that a class file names takes some of its bytes, and other bytes come before
the first one. -/
theorem ClassFile.interfaces_length_lt {bytes : Bytes} {file : ClassFile}
    (read : ClassFile.read bytes = .ok file) : file.interfaces.length < bytes.length := by
  have needs : Needs reader fun file => file.interfaces.length + 2 := by
    refine Needs.behind Takes.u4 fun found _ => ?_
    have refused : Takes (Reader.fail (.invalidMagic found)) fun _ : Unit => False := .fail _
    refine Needs.ite (.behind refused fun _ none => none.elim) ?_
    refine Needs.behind Takes.u2 fun minor _ => Needs.behind Takes.u2 fun major _ => ?_
    refine Needs.behind Entries.read_takes fun entries _ => Needs.behind Takes.u2 fun access _ => ?_
    refine Needs.behind Takes.u2 fun thisClass _ => Needs.behind Takes.u2 fun superClass _ => ?_
    refine Needs.table.front fun interfaces => ?_
    refine (Yields.any _).bind fun fields _ => (Yields.any _).bind fun methods _ => ?_
    exact (Yields.any _).bind fun attributes _ => .pure (Nat.le_refl _)
  have fits := needs.run read
  omega

/-! ## Supertypes -/

namespace ClassInfo

variable {bytes : Bytes} {owner : Option LoaderKey} {info : ClassInfo}

/-- What is known of a class but for the loader it belongs to is what its bytes say. -/
theorem supertypes_of_ofBytes (known : ofBytes bytes owner = .ok info)
    (other : Option LoaderKey) :
    ∃ twin, ofBytes bytes other = .ok twin ∧ twin.supertypes = info.supertypes := by
  obtain ⟨file, read, methods, sane, fields, sane', name, named, superName, above, interfaces,
    named', rfl⟩ := ofBytes_eq_ok.1 known
  exact ⟨_, ofBytes_eq_ok.2 ⟨file, read, methods, sane, fields, sane', name, named, superName,
    above, interfaces, named', rfl⟩, rfl⟩

theorem supertypes_length_le (known : ofBytes bytes owner = .ok info) :
    info.supertypes.length ≤ bytes.length := by
  obtain ⟨file, read, _, _, _, _, _, _, superName, _, interfaces, named, rfl⟩ :=
    ofBytes_eq_ok.1 known
  have one : superName.toList.length ≤ 1 := by
    cases superName <;> simp
  have each : file.interfaces.length = interfaces.length := (Outcome.mapM_eq_ok.1 named).length_eq
  have fits := ClassFile.interfaces_length_lt read
  simp only [supertypes, List.length_append]
  omega

end ClassInfo

namespace Sources

/-- The supertypes that the class of some bytes names. -/
def supertypesIn (bytes : Bytes) : List String :=
  match ClassInfo.ofBytes bytes none with
  | .ok info => info.supertypes
  | .error _ => []

theorem supertypesIn_length_le (bytes : Bytes) : (supertypesIn bytes).length ≤ bytes.length := by
  unfold supertypesIn
  split
  · exact ClassInfo.supertypes_length_le ‹_›
  · exact Nat.zero_le _

theorem supertypesIn_eq {bytes : Bytes} {owner : Option LoaderKey} {info : ClassInfo}
    (known : ClassInfo.ofBytes bytes owner = .ok info) : supertypesIn bytes = info.supertypes := by
  obtain ⟨twin, same, supertypes⟩ := ClassInfo.supertypes_of_ofBytes known none
  rw [supertypesIn, same]
  exact supertypes

/-- All that the classes of a table name as supertypes. -/
def mentionsIn (classes : ClassTable) : List String :=
  classes.toList.flatMap fun given => supertypesIn given.2

theorem mentionsIn_length_le (classes : ClassTable) :
    (mentionsIn classes).length ≤ tableSize classes := by
  have sum (given : List (String × Bytes)) (size : Nat) :
      (given.flatMap fun given => supertypesIn given.2).length + size ≤
        given.foldl (fun size given => size + given.2.length) size := by
    induction given generalizing size with
    | nil => simp
    | cons first rest ih =>
      have few := supertypesIn_length_le first.2
      have more := ih (size + first.2.length)
      simp only [List.flatMap_cons, List.length_append, List.foldl_cons]
      omega
  unfold mentionsIn tableSize
  rw [Std.TreeMap.foldl_eq_foldl_toList]
  exact sum classes.toList 0

theorem mem_mentionsIn {classes : ClassTable} {name : String} {bytes : Bytes}
    (has : classes[name]? = some bytes) : supertypesIn bytes ⊆ mentionsIn classes := by
  intro mentioned among
  have listed : (name, bytes) ∈ classes.toList := Std.TreeMap.mem_toList_iff_getElem?_eq_some.2 has
  exact List.mem_flatMap.2 ⟨(name, bytes), listed, among⟩

/-- All that the visible classes name as supertypes. -/
def mentions (sources : Sources) : List String :=
  sources.chain.flatMap (mentionsIn ·.classes) ++ (sources.bootstrap.map mentionsIn).getD []

theorem mentions_length_le (sources : Sources) : sources.mentions.length ≤ sources.size := by
  obtain ⟨bootstrap, chain⟩ := sources
  unfold mentions size
  induction chain with
  | nil =>
    cases bootstrap with
    | none => simp
    | some classes => simpa using mentionsIn_length_le classes
  | cons loader rest ih =>
    have few := mentionsIn_length_le loader.classes
    simp only [List.flatMap_cons, List.foldr_cons, List.length_append] at ih ⊢
    omega

/-- A class that is found names supertypes out of those that are mentioned. -/
theorem supertypes_subset_mentions {sources : Sources} {name : String} {info : ClassInfo}
    (known : sources.answer name = .ok info) : info.supertypes ⊆ sources.mentions := by
  unfold answer at known
  split at known
  · cases known
  · rename_i owner bytes located
    split at known
    · cases known
    · rename_i found sane
      cases known
      rw [← supertypesIn_eq sane]
      cases locate_eq_some.1 located with
      | bootstrap has =>
        obtain ⟨classes, given, has⟩ := Option.bind_eq_some_iff.1 has
        refine List.Subset.trans (mem_mentionsIn has) (List.subset_append_of_subset_right _ ?_)
        simp [given]
      | loader above chain higher has =>
        refine List.Subset.trans (mem_mentionsIn has) (List.subset_append_of_subset_left _ ?_)
        rw [chain]
        simp

end Sources

end ClassWeave
