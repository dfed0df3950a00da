import DocGraph.Json.Basic

/-! # Schemas

A schema is a list of named types: scalars, enumerations, objects, interfaces, unions and inputs, with
their fields and the directives on them. Adding a type under a known name replaces that type in place. An
index gives the place of each name, and look-ups go through it. The five built-in scalars come first. -/

namespace DocGraph

/-- Kind of a named type. -/
inductive TypeKind where
  | scalar
  | enumeration
  | object
  | interface
  | union
  | input
deriving DecidableEq, Repr

/-- The kind as it is written. -/
def TypeKind.name : TypeKind → String
  | scalar => "Scalar"
  | enumeration => "Enum"
  | object => "Object"
  | interface => "Interface"
  | union => "Union"
  | input => "InputObject"

/-- The type of a field: a named type in any number of list and non-null wrappers. -/
inductive TypeRef where
  | named (name : String)
  | list (inner : TypeRef)
  | nonNull (inner : TypeRef)
deriving DecidableEq, Repr

namespace TypeRef

/-- The name inside all wrappers. -/
def base : TypeRef → String
  | named name => name
  | list inner => inner.base
  | nonNull inner => inner.base

/-- Whether the type, null aside, is a list. -/
def isList : TypeRef → Bool
  | list _ => true
  | nonNull (list _) => true
  | _ => false

/-- The type as it is written in a schema. -/
def text : TypeRef → String
  | named name => name
  | list inner => "[" ++ inner.text ++ "]"
  | nonNull inner => inner.text ++ "!"

end TypeRef

/-- A directive as it stands in a schema. -/
structure DirectiveUse where
  name : String
  arguments : List (String × Json)
deriving Repr

/-- A field of an object, interface or input type. -/
structure FieldDef where
  name : String
  type : TypeRef
  directives : List DirectiveUse
deriving Repr

/-- A named type. -/
structure TypeDef where
  name : String
  kind : TypeKind
  fields : List FieldDef
  interfaces : List String
  members : List String
  values : List String
deriving Repr

namespace TypeDef

/-- A type with nothing in it. -/
def empty (name : String) (kind : TypeKind) : TypeDef :=
  ⟨name, kind, [], [], [], []⟩

/-- The first field of a name. -/
def field? (t : TypeDef) (name : String) : Option FieldDef :=
  t.fields.find? fun f => f.name == name

end TypeDef

/-- Scalars that every schema has. -/
def builtinScalars : List String :=
  ["String", "Int", "Float", "Boolean", "ID"]

/-- The built-in scalars as types. -/
def builtinTypes : List TypeDef :=
  builtinScalars.map fun name => TypeDef.empty name .scalar

/-- Whether an index gives the place of each type in a list under its name, and nothing else. -/
def Indexes (index : Record Nat) (types : List TypeDef) : Prop :=
  ∀ name i, index.get? name = some i ↔ (types.map TypeDef.name)[i]? = some name

/-- Named types in order of their first definition, with an index of their places. -/
structure Schema where
  types : List TypeDef
  index : Record Nat
  indexed : Indexes index types
deriving Repr

namespace Schema

/-- The type of a name. -/
def type? (s : Schema) (name : String) : Option TypeDef :=
  (s.index.get? name).bind fun i => s.types[i]?

/-- Puts `t` in the place of the type of its name, or at the end. -/
def addTo (t : TypeDef) (types : List TypeDef) (index : Record Nat) : List TypeDef × Record Nat :=
  match index.get? t.name with
  | some i => (types.set i t, index)
  | none => (types ++ [t], index.insert t.name types.length)

/-- The type in the place of `t` has its name, so the names stay as they are. -/
theorem names_set {t : TypeDef} {types : List TypeDef} {index : Record Nat} {i : Nat}
    (h : Indexes index types) (known : index.get? t.name = some i) :
    (types.set i t).map TypeDef.name = types.map TypeDef.name := by
  obtain ⟨bound, named⟩ := List.getElem?_eq_some_iff.mp ((h t.name i).mp known)
  rw [List.map_set, ← named, List.set_getElem_self]

theorem indexes_addTo (t : TypeDef) {types : List TypeDef} {index : Record Nat}
    (h : Indexes index types) : Indexes (addTo t types index).2 (addTo t types index).1 := by
  intro name i
  unfold addTo
  split
  · rename_i known
    rw [names_set h known]
    exact h name i
  · rename_i new
    -- A new name has no place yet, and it gets the one behind all others.
    have absent : (types.map TypeDef.name)[i]? ≠ some t.name := by
      rw [Ne, ← h, new]
      simp
    rw [Record.get?_insert, List.map_append, List.map_singleton, List.getElem?_append, List.length_map]
    by_cases same : name = t.name
    · subst same
      grind
    · rw [if_neg same, h name i]
      grind

/-- Adds a type, or replaces the type of its name. -/
def add (s : Schema) (t : TypeDef) : Schema :=
  ⟨(addTo t s.types s.index).1, (addTo t s.types s.index).2, indexes_addTo t s.indexed⟩

/-- The schema without types. -/
def empty : Schema :=
  ⟨[], [], fun _ _ => by simp⟩

/-- The schema that knows only the built-in scalars. -/
def builtin : Schema :=
  builtinTypes.foldl add empty

/-- The schema of a list of definitions. -/
def ofTypes (types : List TypeDef) : Schema :=
  types.foldl add builtin

/-- Object types that implement an interface, in order. -/
def implementers (s : Schema) (interface : String) : List TypeDef :=
  s.types.filter fun t => t.kind == .object && t.interfaces.contains interface

end Schema

end DocGraph
