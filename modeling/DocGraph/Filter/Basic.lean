import DocGraph.Filter.Condition
import DocGraph.Scalar
import DocGraph.Text.Affix

/-! # Filters

A filter is a JSON object whose entries all have to hold: `_and` and `_or` with lists of filters, `_not`
with a filter, and fields with operators on them. `Filter.conditions` turns it into conditions, in the
order of the entries. Operands are brought to the stored form of the field's scalar. -/

namespace DocGraph.Filter

/-- The scalar of a filtered field; reserved fields and fields of no known type have none. -/
def scalarOf (type : Option TypeDef) (field : String) : Except Error (Option String) :=
  if Text.startsWith field "_" then .ok none
  else
    match type with
    | none => .ok none
    | some t =>
      match t.field? field with
      | some f => .ok (some f.type.base)
      | none => .error (.schema (.filterField t.name field))

/-- An operand that has to be a list. -/
def listOperand (operator : String) : Json → Except Error (List Json)
  | .arr items => .ok items
  | v => .error (.input (.operandNotList operator v))

/-- An operand that has to be a pattern. -/
def patternOperand (operator : String) : Json → Except Error String
  | .str s => .ok s
  | v => .error (.input (.operandNotPattern operator v))

/-- The condition of one operator of the field that is given as `name`. -/
def operatorCondition (name : String) (target : FieldRef) (operator : String) (value : Json) :
    Except Error Condition :=
  match operator with
  | "_eq" => .ok (.compare target .eq value)
  | "_neq" => .ok (.compare target .ne value)
  | "_gt" => .ok (.compare target .gt value)
  | "_egt" => .ok (.compare target .ge value)
  | "_lt" => .ok (.compare target .lt value)
  | "_elt" => .ok (.compare target .le value)
  | "_in" => (listOperand operator value).map fun vs => .among target vs false
  | "_nin" => (listOperand operator value).map fun vs => .among target vs true
  | "_like" => (patternOperand operator value).map fun p => .like target p false false
  | "_ilike" => (patternOperand operator value).map fun p => .like target p true false
  | "_nlike" => (patternOperand operator value).map fun p => .like target p false true
  | "_nilike" => (patternOperand operator value).map fun p => .like target p true true
  | other => .error (.input (.unknownOperator other name))

/-- The conditions of the operators of a field; an operator with the operand null is left out. -/
def operators (name : String) (target : FieldRef) (scalar : Option String) :
    List (String × Json) → Except Error (List Condition)
  | [] => .ok []
  | (operator, raw) :: rest =>
    if raw.isNull then operators name target scalar rest
    else do
      let value ← match scalar with
        | some s => Scalar.store s raw
        | none => .ok raw
      let c ← operatorCondition name target operator value
      let cs ← operators name target scalar rest
      return c :: cs

/-- The field that a filter means by a name. -/
def fieldOf (name : String) : String :=
  if name == "id" then Field.id else name

/-- The conditions of a field entry. -/
def fieldConditions (type : Option TypeDef) (row name : String) (arg : Json) :
    Except Error (List Condition) := do
  let field := fieldOf name
  let scalar ← scalarOf type field
  match arg with
  | .obj entries => operators name ⟨row, field⟩ scalar entries
  | v => .error (.input (.fieldFilterNotObject name v))

/-- The conditions of one member of a group, as at most one condition. -/
def member : List Condition → List Condition
  | [] => []
  | [c] => [c]
  | cs => [.all cs]

mutual

/-- The conditions of a filter; null is the empty filter. -/
def conditions (type : Option TypeDef) (row : String) : Json → Except Error (List Condition)
  | .null => .ok []
  | .obj entries => entryConditions type row entries
  | v => .error (.input (.filterNotObject v))

/-- The conditions of the entries of a filter. -/
def entryConditions (type : Option TypeDef) (row : String) :
    List (String × Json) → Except Error (List Condition)
  | [] => .ok []
  | (name, arg) :: rest => do
    let cs ← match name with
      | "_and" => (groupConditions type row arg).map fun cs => [.all cs]
      | "_or" => (groupConditions type row arg).map fun cs => [.any cs]
      | "_not" => (conditions type row arg).map fun cs => [.notAll cs]
      | _ => fieldConditions type row name arg
    let others ← entryConditions type row rest
    return cs ++ others

/-- The members of a group, which has to be a list. -/
def groupConditions (type : Option TypeDef) (row : String) : Json → Except Error (List Condition)
  | .arr members => memberConditions type row members
  | v => .error (.input (.groupNotList v))

/-- The members of a group. -/
def memberConditions (type : Option TypeDef) (row : String) :
    List Json → Except Error (List Condition)
  | [] => .ok []
  | m :: rest => do
    let cs ← conditions type row m
    let others ← memberConditions type row rest
    return member cs ++ others

end

end DocGraph.Filter
