import DocGraph.Codec.Basic
import DocGraph.Settings

/-! # Settings in JSON -/

namespace DocGraph.Settings

def toJson (s : Settings) : Json :=
  .obj [("db_name", .str s.database), ("url", .str s.url), ("drop", .bool s.drop),
    ("disable_edge_validation", .bool s.skipEdgeValidation),
    ("disable_directives_checking", .bool s.skipDirectives),
    ("exists_cache", .bool s.rememberExisting)]

/-- Settings of which any may be left out. -/
def ofJson? : Decoder Settings := fun v => do
  let f ← GivenFields.ofJson ["db_name", "url", "drop", "disable_edge_validation",
    "disable_directives_checking", "exists_cache"] v
  let database ← f.defaulted "db_name" .text default.database
  let url ← f.defaulted "url" .text default.url
  let drop ← f.defaulted "drop" .flag default.drop
  let edges ← f.defaulted "disable_edge_validation" .flag default.skipEdgeValidation
  let directives ← f.defaulted "disable_directives_checking" .flag default.skipDirectives
  let remember ← f.defaulted "exists_cache" .flag default.rememberExisting
  return ⟨database, url, drop, edges, directives, remember⟩

end DocGraph.Settings
