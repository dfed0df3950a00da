import DocGraph.Text.Blank

/-! # Settings

How a session reaches its database and which checks it leaves out. Settings come from defaults, from the
environment, or from changes to other settings. -/

namespace DocGraph

/-- The settings of a session. -/
structure Settings where
  database : String
  url : String
  /-- Drop all collections before setting up. -/
  drop : Bool
  /-- Leave out the checks on new edges. -/
  skipEdgeValidation : Bool
  /-- Leave out the checks of directives. -/
  skipDirectives : Bool
  /-- Check the existence of a document only once in a request. -/
  rememberExisting : Bool
deriving DecidableEq, Repr

namespace Settings

/-- The settings of a session that was told nothing. -/
def default : Settings where
  database := "dev-db"
  url := "http://localhost:8529"
  drop := false
  skipEdgeValidation := false
  skipDirectives := false
  rememberExisting := true

/-- Whether a text switches a setting on. -/
def isOn (s : String) : Bool :=
  ["true", "1", "yes", "on"].contains (String.ofList ((Text.trim s).toList.map Char.toLower))

/-- The settings of an environment; variables that are not set keep the defaults. -/
def ofEnvironment (lookup? : String → Option String) : Settings :=
  let flag (name : String) (otherwise : Bool) : Bool :=
    match lookup? name with
    | some s => isOn s
    | none => otherwise
  { database := (lookup? "DB").getD default.database
    url := (lookup? "URL").getD default.url
    drop := flag "DROP" default.drop
    skipEdgeValidation := flag "DISABLE_EDGE_VALIDATION" default.skipEdgeValidation
    skipDirectives := flag "DISABLE_DIRECTIVES_CHECKING" default.skipDirectives
    rememberExisting := flag "CACHE" default.rememberExisting }

def withEdgeValidation (s : Settings) (enabled : Bool) : Settings :=
  { s with skipEdgeValidation := !enabled }

def withDirectives (s : Settings) (enabled : Bool) : Settings :=
  { s with skipDirectives := !enabled }

end Settings

end DocGraph
