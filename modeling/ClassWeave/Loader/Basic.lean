/-
# ClassWeave.Loader.Basic -- where classes come from

A class loader holds class files by name, and has a chain of ancestors.  A class is
looked for in the bootstrap source first, then along the chain from its root down to
the loader itself, and belongs to the first of these that has it (`Sources.locate`).

A `Forest` is the loaders of a process.  A loader is known by a key, an identity and a
generation: one that is torn down and set up again keeps the identity under the next
generation.  Classes can be given to a loader at any time.
-/
import ClassWeave.Bytes
import ClassWeave.ClassName
import Std.Data.TreeMap

set_option autoImplicit false

namespace ClassWeave

structure LoaderKey where
  id : Nat
  generation : Nat
deriving DecidableEq, Repr

namespace LoaderKey

instance : Ord LoaderKey := ⟨compareLex (compareOn id) (compareOn generation)⟩

instance : Std.TransOrd LoaderKey :=
  inferInstanceAs (Std.TransCmp (compareLex (compareOn id) (compareOn generation)))

instance : Std.LawfulEqOrd LoaderKey where
  eq_of_compare {a b} same := by
    have ⟨ids, generations⟩ : compare a.id b.id = .eq ∧ compare a.generation b.generation = .eq :=
      compareLex_eq_eq.1 same
    cases a
    cases b
    rw [mk.injEq]
    exact ⟨Std.LawfulEqOrd.eq_of_compare ids, Std.LawfulEqOrd.eq_of_compare generations⟩

end LoaderKey

def LoaderKey.display (key : LoaderKey) : String :=
  "loader#" ++ toString key.id ++ "." ++ toString key.generation

/-- Class files by the slash form of their names. -/
abbrev ClassTable := Std.TreeMap String Bytes

structure Loader where
  key : LoaderKey
  classes : ClassTable

/-- All that can be seen from one loader. -/
structure Sources where
  /-- Without a bootstrap source no class belongs to the bootstrap loader. -/
  bootstrap : Option ClassTable
  /-- The root of the chain comes first, the loader itself last; none is the bootstrap loader. -/
  chain : List Loader

namespace Sources

def key? (sources : Sources) : Option LoaderKey := sources.chain.getLast?.map Loader.key

def display (sources : Sources) : String :=
  match sources.key? with
  | some key => key.display
  | none => "bootstrap"

/-- The first loader of a chain that has a class, and its bytes. -/
def locateIn (name : ClassName) : List Loader → Option (LoaderKey × Bytes)
  | [] => none
  | loader :: rest =>
    match loader.classes[name.internal]? with
    | some bytes => some (loader.key, bytes)
    | none => locateIn name rest

/-- The bytes of a class and the loader it belongs to, where none is the bootstrap loader. -/
def locate (sources : Sources) (name : ClassName) : Option (Option LoaderKey × Bytes) :=
  match sources.bootstrap.bind (·[name.internal]?) with
  | some bytes => some (none, bytes)
  | none => (locateIn name sources.chain).map fun (key, bytes) => (some key, bytes)

/-- How many bytes the classes of a table have together. -/
def tableSize (classes : ClassTable) : Nat :=
  classes.foldl (fun size _ bytes => size + bytes.length) 0

/-- How many bytes can be seen.  No class names more supertypes than it has bytes. -/
def size (sources : Sources) : Nat :=
  sources.chain.foldr (tableSize ·.classes + ·) ((sources.bootstrap.map tableSize).getD 0)

end Sources

/-- Loaders in the order they were declared, each with the numbers of its ancestors, the root
first. -/
structure Forest where
  loaders : Array (Loader × List Nat)

namespace Forest

def empty : Forest := ⟨#[]⟩

/-- The numbers of a loader and its ancestors. -/
def line (forest : Forest) (number : Nat) : List Nat :=
  match forest.loaders[number]? with
  | some (_, ancestors) => ancestors ++ [number]
  | none => []

/-- A new loader without classes, and its number. -/
def declare (forest : Forest) (id : Nat) (parent : Option Nat) : Nat × Forest :=
  let ancestors := (parent.map forest.line).getD []
  (forest.loaders.size, ⟨forest.loaders.push (⟨⟨id, 0⟩, ∅⟩, ancestors)⟩)

/-- A loader without classes under the next generation of another one's key. -/
def nextGeneration (forest : Forest) (number : Nat) : Nat × Forest :=
  match forest.loaders[number]? with
  | some (loader, ancestors) =>
    let key : LoaderKey := ⟨loader.key.id, loader.key.generation + 1⟩
    (forest.loaders.size, ⟨forest.loaders.push (⟨key, ∅⟩, ancestors)⟩)
  | none => (number, forest)

def define (forest : Forest) (number : Nat) (name : String) (bytes : Bytes) : Forest :=
  ⟨forest.loaders.modify number fun (loader, ancestors) =>
    ({ loader with classes := loader.classes.insert (slashed name) bytes }, ancestors)⟩

/-- What can be seen from a loader, or from the bootstrap loader. -/
def sources (forest : Forest) (bootstrap : Option ClassTable) (number : Option Nat) : Sources :=
  ⟨bootstrap, ((number.map forest.line).getD []).filterMap fun i =>
    (forest.loaders[i]?).map Prod.fst⟩

end Forest

end ClassWeave
