import DocGraph.Script.Basic

/-! # Script text

A transaction as the text of a function that a server runs. Queries are template literals, and every
reference goes in as an interpolation, never as query text. -/

namespace DocGraph

namespace Script

/-- A comment text in which nothing ends the comment. -/
def commentText : List Char → List Char
  | '*' :: '/' :: rest => '*' :: ' ' :: '/' :: commentText rest
  | c :: rest => c :: commentText rest
  | [] => []

/-- The delimiter of template literals. -/
def tick : Char := Char.ofNat 96

/-- A text inside a template literal: backslashes, delimiters and the opening of an interpolation are
escaped. -/
def templateText : List Char → List Char
  | '$' :: '\x7b' :: rest => '\\' :: '$' :: '\x7b' :: templateText rest
  | c :: rest =>
    if c = '\\' ∨ c = tick then '\\' :: c :: templateText rest else c :: templateText rest
  | [] => []

/-- A reference inside a template literal. -/
def interpolated (r : Ref) : String :=
  "$\x7b" ++ r.text ++ "\x7d"

/-- A collection inside a template literal. -/
def collection (name : String) : String :=
  "$\x7bdb." ++ name ++ "\x7d"

/-- Collections inside a template literal. -/
def collections (names : List String) : String :=
  ", ".intercalate (names.map collection)

/-- Imported fields as an object inside a template literal. -/
def imports (entries : List (String × Ref)) : String :=
  "\x7b" ++
    ", ".intercalate (entries.map fun e => Text.quoted e.1 ++ ": " ++ interpolated e.2) ++ "\x7d"

/-- The first row of a query. -/
def firstRow (query : String) : String :=
  "db._query(aql`" ++ query ++ "`).next()"

/-- A message as a template literal. -/
def messageLiteral (m : Message) : String :=
  let part : MessagePart → String
    | .text s => String.ofList (templateText s.toList)
    | .value r => interpolated r
  "`" ++ String.join (m.parts.map part) ++ "`"

/-- An expression that counts as true when a check finds a violation. -/
def violation : Check → String
  | .missing id cs =>
    let one (c : String) : String :=
      "LENGTH(FOR d IN " ++ collection c ++ " FILTER d._id == " ++ interpolated id ++
        " LIMIT 1 RETURN true) > 0"
    "!" ++ firstRow ("RETURN " ++ " || ".intercalate (cs.map one))
  | .edgeExists source c =>
    firstRow ("FOR x IN 1..1 OUTBOUND " ++ interpolated source ++ " " ++ collection c ++ " RETURN x")
  | .duplicateKey candidate c fields =>
    let cand := interpolated candidate
    let one (f : String) : String := " FILTER doc." ++ f ++ " == " ++ cand ++ "." ++ f
    firstRow ("FOR doc IN " ++ collection c ++ " FILTER doc._id != " ++ cand ++ "._id" ++
      String.join (fields.map one) ++ " RETURN doc")
  | .selfLoop source c =>
    firstRow ("FOR v, e, p IN 1..1 OUTBOUND " ++ interpolated source ++ " " ++ collection c ++
      " FILTER p.vertices[0]._id == v._id RETURN v")
  | .duplicateTarget source c =>
    let s := interpolated source
    firstRow ("FOR v, e IN 1..1 OUTBOUND " ++ s ++ " " ++ collection c ++
      " FOR v2, e2 IN 1..1 OUTBOUND " ++ s ++ " " ++ collection c ++
      " FILTER v._id == v2._id AND e._id != e2._id RETURN v")
  | .sharedTarget source outbound inbound =>
    firstRow ("FOR v, e IN 1..1 OUTBOUND " ++ interpolated source ++ " " ++ collections outbound ++
      " FOR v2, e2 IN 1..1 INBOUND v._id " ++ collections inbound ++
      " FILTER e._id != e2._id RETURN v")
  | .orphanTarget targets inbound =>
    firstRow ("FOR x IN FLATTEN(FOR i IN [" ++ collections targets ++
      "] RETURN i) LET endpoints = (FOR v IN 1..1 INBOUND x " ++ collections inbound ++
      " RETURN v) FILTER LENGTH(endpoints) == 0 RETURN x")
  | .missingInbound id c inbound =>
    firstRow ("FOR x IN " ++ collection c ++ " FILTER x._id == " ++ interpolated id ++ " RETURN x") ++
      " && !" ++
      firstRow ("FOR x IN 1..1 INBOUND " ++ interpolated id ++ " " ++ collections inbound ++
        " RETURN x")

/-- A line of script text, indented by tabs. -/
def line (depth : Nat) (s : String) : String :=
  String.ofList (List.replicate depth '\t') ++ s ++ "\n"

mutual

/-- The lines of a statement. -/
def statement (depth : Nat) : Statement → String
  | .comment s => line depth ("/* " ++ String.ofList (commentText s.toList) ++ " */")
  | .insert var c doc entries endpoints =>
    let ends := match endpoints with
      | some (source, target) =>
        ", \x7b\"_from\": " ++ interpolated source ++ ", \"_to\": " ++ interpolated target ++ "\x7d"
      | none => ""
    line depth ("let " ++ var ++ " = " ++
      firstRow ("INSERT MERGE(" ++ interpolated doc ++ ", " ++ imports entries ++ ends ++ ") IN " ++
        collection c ++ " RETURN NEW") ++ ";")
  | .update var c id doc entries =>
    line depth ("let " ++ var ++ " = " ++
      firstRow ("UPDATE PARSE_IDENTIFIER(" ++ interpolated id ++ ").key WITH MERGE(" ++
        interpolated doc ++ ", " ++ imports entries ++ ") IN " ++ collection c ++ " RETURN NEW") ++
      ";")
  | .remove var c id =>
    line depth ("let " ++ var ++ " = " ++
      firstRow ("REMOVE PARSE_IDENTIFIER(" ++ interpolated id ++ ").key IN " ++ collection c ++
        " OPTIONS \x7b ignoreErrors: true \x7d RETURN OLD") ++ ";")
  | .removeEdges c endpoint which =>
    let e := interpolated endpoint
    let condition := match which with
      | .outbound => "x._from == " ++ e
      | .any => "x._from == " ++ e ++ " OR x._to == " ++ e
    line depth ("db._query(aql`FOR x IN " ++ collection c ++ " FILTER " ++ condition ++
      " REMOVE x IN " ++ collection c ++ "`);")
  | .bind name value => line depth ("let " ++ name ++ " = " ++ value.text ++ ";")
  | .setResult name value =>
    line depth ("result[" ++ Text.quoted name ++ "] = " ++ value.text ++ ";")
  | .guarded condition body =>
    line depth ("if (" ++ condition.text ++ ") \x7b") ++ statements (depth + 1) body ++
      line depth "\x7d"
  | .assert check message =>
    line depth ("if (" ++ violation check ++ ") \x7b") ++
      line (depth + 1) ("throw " ++ messageLiteral message ++ ";") ++ line depth "\x7d"
  | .fail message => line depth ("throw " ++ messageLiteral message ++ ";")

/-- The lines of a list of statements. -/
def statements (depth : Nat) : List Statement → String
  | [] => ""
  | s :: rest => statement depth s ++ statements depth rest

end

/-- What every script starts with. -/
def opening : String :=
  line 1 "const db = require(\"@arangodb\").db;" ++
    line 1 "const \x7baql\x7d = require(\"@arangodb\");" ++
    line 1 "let result = Object.create(null);"

/-- The function that runs a list of statements. -/
def function (body : List Statement) : String :=
  "function(params)\x7b\n" ++ opening ++ statements 1 body ++ line 1 "return result;" ++ "\x7d"

end Script

/-- The script text of a transaction. -/
def Transaction.text (t : Transaction) : String :=
  Script.function t.statements

end DocGraph
