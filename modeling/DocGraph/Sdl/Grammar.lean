import DocGraph.Sdl.Definition
import DocGraph.Sdl.Reader
import DocGraph.Sdl.Text

/-! # The grammar of schema text

One reader for each rule of the grammar. Key words are plain texts: nothing need stand between a key
word and the name after it. Names, types and numbers are closed rules; texts and enumeration values are
tight ones. -/

namespace DocGraph.Sdl

open Reader

/-! ### Names, types and constants -/

def isLetter (c : Char) : Bool :=
  ('a' ≤ c && c ≤ 'z') || ('A' ≤ c && c ≤ 'Z')

def isNameStart (c : Char) : Bool :=
  isLetter c || c == '_'

def isNamePart (c : Char) : Bool :=
  isNameStart c || c.isDigit

def name : Reader String :=
  rule (some .closed) do
    let first ← char isNameStart
    let rest ← chars isNamePart
    return String.ofList (first :: rest)

/-- A type nested at most `depth` deep. -/
def typeWithin : Nat → Reader TypeRef
  | 0 => fun _ _ furthest => (none, furthest)
  | depth + 1 => rule (some .closed) do
    let inner ← (do return TypeRef.named (← name)) <|> (do
      text "["
      let inner ← typeWithin depth
      text "]"
      return TypeRef.list inner)
    let mark ← optional (text "!")
    return if mark.isSome then .nonNull inner else inner

def type : Reader TypeRef := fun m c furthest =>
  typeWithin (c.rest.length + 1) m c furthest

def number : Reader Literal :=
  rule (some .closed) do
    let offset ← here
    let w ← take numeral?
    absent (rule (some .closed) (char isNameStart))
    return .number offset w.number?

def blockString : Reader String := do
  text "\"\"\""
  let content ← rule (some .closed) <| take fun cs =>
    let content := blockContent cs
    some (content, content.length)
  text "\"\"\""
  return blockText content

def quotedString : Reader String := do
  text "\""
  let content ← rule (some .closed) <| take fun cs => some (quotedContent (cs.length + 1) cs)
  text "\""
  return String.ofList content

def string : Reader String :=
  rule (some .tight) (blockString <|> quotedString)

def boolean : Reader Bool :=
  rule none ((do text "true"; return true) <|> (do text "false"; return false))

def null : Reader Unit :=
  rule none (text "null")

def enumValue : Reader String :=
  rule (some .tight) do
    absent ((do discard boolean) <|> null)
    name

/-- A constant nested at most `depth` deep. -/
def literalWithin : Nat → Reader Literal
  | 0 => fun _ _ furthest => (none, furthest)
  | depth + 1 => rule none <|
    number
    <|> (do return .str (← string))
    <|> (do return .bool (← boolean))
    <|> (do null; return .null)
    <|> (do return .name (← enumValue))
    <|> (rule none do
      text "["
      let items ← many (literalWithin depth)
      text "]"
      return .list items)
    <|> (rule none do
      text "\x7b"
      let fields ← many (rule none do
        let n ← name
        text ":"
        let v ← literalWithin depth
        return (n, v))
      text "\x7d"
      return .object fields)

def literal : Reader Literal := fun m c furthest =>
  literalWithin (c.rest.length + 1) m c furthest

/-! ### Directives and arguments -/

def annotation : Reader Annotation :=
  rule none do
    text "@"
    let n ← name
    let arguments ← optional <| rule none do
      text "("
      let arguments ← atLeastOne <| rule none do
        let n ← name
        text ":"
        let v ← literal
        return (n, v)
      text ")"
      return arguments
    return ⟨n, arguments.getD []⟩

def annotations : Reader (List Annotation) :=
  rule none (atLeastOne annotation)

def annotations? : Reader (List Annotation) := do
  return (← optional annotations).getD []

def parameter : Reader Parameter :=
  rule none do
    discard (optional string)
    let n ← name
    text ":"
    let t ← type
    let initial ← optional <| rule none do
      text "="
      literal
    let a ← annotations?
    return ⟨n, t, initial, a⟩

def parameters : Reader (List Parameter) :=
  rule none do
    text "("
    let ps ← atLeastOne parameter
    text ")"
    return ps

/-! ### Type definitions -/

def extend : Reader Unit :=
  rule none (text "extend")

def interfaces : Reader (List String) :=
  rule none do
    text "implements"
    discard (optional (text "&"))
    let first ← name
    let others ← many (do text "&"; name)
    return first :: others

def interfaces? : Reader (List String) := do
  return (← optional interfaces).getD []

def fieldLine : Reader FieldLine :=
  rule none do
    discard (optional string)
    let n ← name
    let ps ← optional parameters
    text ":"
    let t ← type
    let a ← annotations?
    return ⟨n, ps.getD [], t, a⟩

def fieldLines : Reader (List FieldLine) :=
  rule none do
    text "\x7b"
    let fs ← atLeastOne fieldLine
    text "\x7d"
    return fs

def unionMembers : Reader (List String) :=
  rule none do
    text "="
    discard (optional (text "|"))
    let first ← name
    let others ← many (do text "|"; name)
    return first :: others

def enumValues : Reader (List (String × List Annotation)) :=
  rule none do
    text "\x7b"
    let vs ← atLeastOne <| rule none do
      discard (optional string)
      let v ← enumValue
      let a ← annotations?
      return (v, a)
    text "\x7d"
    return vs

def inputFields : Reader (List Parameter) :=
  rule none do
    text "\x7b"
    let fs ← atLeastOne parameter
    text "\x7d"
    return fs

/-- A definition that starts with a key word, after an optional description. -/
def opening (keyword : String) : Reader String := do
  discard (optional string)
  text keyword
  name

/-- An extension of a definition that starts with a key word. -/
def extension (keyword : String) : Reader String := do
  extend
  text keyword
  name

/-- Directives and a part, or directives alone. -/
def annotationsAnd {α : Type} (part : Reader (List α)) : Reader (List Annotation × List α) :=
  (do
    let a ← annotations?
    let p ← part
    return (a, p))
  <|> (do return (← annotations, []))

/-- Directives and a part, both of which may be missing. -/
def annotationsAnd? {α : Type} (part : Reader (List α)) :
    Reader (List Annotation × List α) := do
  let a ← annotations?
  let p ← optional part
  return (a, p.getD [])

def scalarType : Reader TypeDefinition :=
  rule none <|
    (do
      let n ← opening "scalar"
      let a ← annotations?
      return ⟨false, n, a, .scalar⟩)
    <|> (do
      let n ← extension "scalar"
      let a ← annotations
      return ⟨true, n, a, .scalar⟩)

def objectType : Reader TypeDefinition :=
  rule none <|
    (do
      let n ← opening "type"
      let is ← interfaces?
      let (a, fs) ← annotationsAnd? fieldLines
      return ⟨false, n, a, .object is fs⟩)
    <|> (do
      let n ← extension "type"
      (do
        let is ← interfaces?
        let (a, fs) ← annotationsAnd fieldLines
        return ⟨true, n, a, .object is fs⟩)
      <|> (do
        let is ← interfaces
        return ⟨true, n, [], .object is []⟩))

def interfaceType : Reader TypeDefinition :=
  rule none <|
    (do
      let n ← opening "interface"
      let is ← interfaces?
      let (a, fs) ← annotationsAnd? fieldLines
      return ⟨false, n, a, .interface is fs⟩)
    <|> (do
      let n ← extension "interface"
      let is ← interfaces?
      let (a, fs) ← annotationsAnd fieldLines
      return ⟨true, n, a, .interface is fs⟩)

def unionType : Reader TypeDefinition :=
  rule none <|
    (do
      let n ← opening "union"
      let (a, ms) ← annotationsAnd? unionMembers
      return ⟨false, n, a, .union ms⟩)
    <|> (do
      let n ← extension "union"
      let (a, ms) ← annotationsAnd unionMembers
      return ⟨true, n, a, .union ms⟩)

def enumType : Reader TypeDefinition :=
  rule none <|
    (do
      let n ← opening "enum"
      let (a, vs) ← annotationsAnd? enumValues
      return ⟨false, n, a, .enumeration vs⟩)
    <|> (do
      let n ← extension "enum"
      let (a, vs) ← annotationsAnd enumValues
      return ⟨true, n, a, .enumeration vs⟩)

def inputType : Reader TypeDefinition :=
  rule none <|
    (do
      let n ← opening "input"
      let (a, fs) ← annotationsAnd? inputFields
      return ⟨false, n, a, .input fs⟩)
    <|> (do
      let n ← extension "input"
      let (a, fs) ← annotationsAnd inputFields
      return ⟨true, n, a, .input fs⟩)

def typeDefinition : Reader TypeDefinition :=
  rule none (scalarType <|> objectType <|> interfaceType <|> unionType <|> enumType <|> inputType)

/-! ### Operations and directive definitions -/

def operation : Reader Operation :=
  rule none <|
    (do text "query"; return .query)
    <|> (do text "mutation"; return .mutation)
    <|> (do text "subscription"; return .subscription)

def operations : Reader (List (Operation × Nat)) := do
  text "\x7b"
  let os ← atLeastOne <| rule none do
    let offset ← here
    let o ← operation
    text ":"
    discard name
    return (o, offset)
  text "\x7d"
  return os

def operationBlock : Reader OperationBlock :=
  rule none do
    let offset ← here
    (do
      text "schema"
      let a ← annotations?
      let os ← operations
      return ⟨offset, false, a, os⟩)
    <|> (do
      extend
      text "schema"
      let (a, os) ← annotationsAnd operations
      return ⟨offset, true, a, os⟩)

/-- Where a directive may stand. An entry comes after those that continue it. -/
def directiveLocations : List String :=
  ["QUERY", "MUTATION", "SUBSCRIPTION", "FIELD_DEFINITION", "FIELD", "FRAGMENT_DEFINITION",
    "FRAGMENT_SPREAD", "INLINE_FRAGMENT", "VARIABLE_DEFINITION", "SCHEMA", "SCALAR", "OBJECT",
    "ARGUMENT_DEFINITION", "INTERFACE", "UNION", "ENUM_VALUE", "ENUM", "INPUT_OBJECT",
    "INPUT_FIELD_DEFINITION"]

def directiveLocation : Reader Unit :=
  rule none <| take fun cs =>
    (directiveLocations.find? fun l => l.toList.isPrefixOf cs).map fun l => ((), l.length)

def directiveDefinition : Reader (List Parameter) :=
  rule none do
    discard (optional string)
    text "directive"
    text "@"
    discard name
    let ps ← optional parameters
    rule none (discard (optional (text "repeatable")))
    text "on"
    rule none do
      discard (optional (text "|"))
      directiveLocation
      discard (many (do text "|"; directiveLocation))
    return ps.getD []

/-! ### Documents -/

def definition : Reader Definition :=
  rule none <|
    (do return .operations (← operationBlock))
    <|> (do return .type (← typeDefinition))
    <|> (do return .directive (← directiveDefinition))

/-- A whole schema text. -/
def document : Reader (List Definition) :=
  rule none do
    let ds ← atLeastOne definition
    atEnd
    return ds

end DocGraph.Sdl
