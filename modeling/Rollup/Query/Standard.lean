import Rollup.Grouping

namespace Rollup

/-- A report that is always there: all requests, grouped by attributes. -/
structure StandardReport where
  id : String
  attributes : List Attribute
deriving DecidableEq

namespace StandardReport

/-- The report of totals, and one for each useful choice of attributes. -/
def all : List StandardReport := [
  ⟨"info", []⟩,
  ⟨"by_script", [.script]⟩,
  ⟨"by_server", [.server]⟩,
  ⟨"by_host", [.host]⟩,
  ⟨"by_server_script", [.server, .script]⟩,
  ⟨"by_host_script", [.host, .script]⟩,
  ⟨"by_host_server", [.host, .server]⟩,
  ⟨"by_host_server_script", [.host, .server, .script]⟩,
  ⟨"by_status", [.status]⟩,
  ⟨"by_status_script", [.status, .script]⟩,
  ⟨"by_status_server", [.status, .server]⟩,
  ⟨"by_status_host", [.status, .host]⟩,
  ⟨"by_status_host_script", [.status, .host, .script]⟩,
  ⟨"by_schema", [.schema]⟩,
  ⟨"by_schema_script", [.schema, .script]⟩,
  ⟨"by_schema_server", [.schema, .server]⟩,
  ⟨"by_schema_host", [.schema, .host]⟩,
  ⟨"by_schema_host_script", [.schema, .host, .script]⟩,
  ⟨"by_status_schema_host", [.status, .schema, .host]⟩]

def find? (id : String) : Option StandardReport := all.find? (·.id = id)

/-- A report without attributes keeps totals only. -/
def grouping (r : StandardReport) : Grouping :=
  match Grouping.ofAttributes r.attributes with
  | .ok grouping => grouping
  | .error _ => .totals

end StandardReport

end Rollup
