import DocGraph.Error

/-! # Constraint directives

The directives that constrain edges, out of all those a schema may carry. Others are ignored. -/

namespace DocGraph

/-- A directive with a meaning for stored edges. -/
inductive Directive where
  /-- No edge of the field points back at its source. -/
  | noLoops
  /-- No two edges of the field from one source share a target. -/
  | distinct
  /-- A target has at most one incoming edge of the field. -/
  | uniqueForTarget
  /-- The same, counted over all implementers of an interface. -/
  | uniqueForInterface (interface : String)
  /-- Every target has an incoming edge of the field. -/
  | requiredForTarget
  /-- The same, counted over all implementers of an interface. -/
  | requiredForInterface (interface : String)
  /-- The document has an incoming edge, on the reverse of a field. -/
  | required
  /-- The value is exported as a variable; constrains nothing. -/
  | exported (name : String)
deriving DecidableEq, Repr

namespace Directive

/-- The name a directive has in a schema. -/
def name : Directive → String
  | noLoops => "noloops"
  | distinct => "distinct"
  | uniqueForTarget => "uniqueForTarget"
  | uniqueForInterface _ => "_uniqueForTarget_AccordingToInterface"
  | requiredForTarget => "requiredForTarget"
  | requiredForInterface _ => "_requiredForTarget_AccordingToInterface"
  | required => "required"
  | exported _ => "export"

/-- The argument a directive carries. -/
def argument? : Directive → Option String
  | uniqueForInterface interface => some interface
  | requiredForInterface interface => some interface
  | exported name => some name
  | _ => none

/-- The single text argument of a use. -/
def textArgument (use : DirectiveUse) : Except Error String :=
  match use.arguments with
  | [(_, .str s)] => .ok s
  | _ => .error (.schema (.directiveArgument use.name))

/-- The meaning of a use, if it has one. -/
def ofUse (use : DirectiveUse) : Except Error (Option Directive) :=
  match use.name with
  | "noloops" => .ok (some noLoops)
  | "distinct" => .ok (some distinct)
  | "uniqueForTarget" => .ok (some uniqueForTarget)
  | "_uniqueForTarget_AccordingToInterface" => (textArgument use).map (some ∘ uniqueForInterface)
  | "requiredForTarget" => .ok (some requiredForTarget)
  | "_requiredForTarget_AccordingToInterface" =>
    (textArgument use).map (some ∘ requiredForInterface)
  | "required" => .ok (some required)
  | "export" => (textArgument use).map (some ∘ exported)
  | _ => .ok none

end Directive

end DocGraph
