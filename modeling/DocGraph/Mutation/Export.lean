import DocGraph.Mutation.Context
import DocGraph.Selection

/-! # Exported variables

A root field may export fields of its document as variables for later fields of the same request. -/

namespace DocGraph

/-- Names that a script uses itself. -/
def reservedNames : List String := ["db", "aql", "params", "result"]

/-- Whether a variable may have a name: an ASCII letter, then ASCII letters, digits and underscores,
and none of the reserved names. -/
def isExportName (name : String) : Bool :=
  match name.toList with
  | [] => false
  | c :: rest =>
    c.isAlpha && rest.all (fun c => c.isAlphanum || c == '_') && !reservedNames.contains name

namespace Synthesis

/-- Makes the script fail over exports below the root. -/
def rejectExport : Option String → Synthesis Unit
  | none => return
  | some name => fail s!"Cannot export non-root field for variable ${name}"

/-- Exports a field of the document in `var`. -/
def exportField (var field : String) : Option String → Synthesis Unit
  | none => return
  | some name => do
    if !isExportName name then throw (.input (.exportName name))
    exportVar name (.exported name)
    push (.bind name (.field (.doc var) (if field == "id" then Field.id else field)))

mutual

/-- Rejects the exports in an item below the root, innermost first. -/
def rejectItem : SelectionItem → Synthesis Unit
  | .field _ exportAs items => do
    rejectExports items
    rejectExport exportAs
  | .fragment _ _ => return

/-- Rejects all exports in items below the root. -/
def rejectExports : List SelectionItem → Synthesis Unit
  | [] => return
  | item :: rest => do
    rejectItem item
    rejectExports rest

end

/-- Binds the exports among the items of a root selection. -/
def exportItems (var : String) : List SelectionItem → Synthesis Unit
  | [] => return
  | .field name exportAs items :: rest => do
    rejectExports items
    exportField var name exportAs
    exportItems var rest
  | .fragment _ _ :: rest => exportItems var rest

/-- Binds the exports of a selection if there is one. -/
def exportSelection (var : String) : Option Selection → Synthesis Unit
  | none => return
  | some selection => exportItems var selection.items

end Synthesis

end DocGraph
