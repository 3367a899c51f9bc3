import Rollup.Query
import Rollup.Text.Decimal
import Rollup.Text.Split

namespace Rollup.Query

/-- The part of an id that names the subject. -/
def subjectPath : Subject → String
  | .standard report => report.id
  | .tags kind names => kind.name ++ ":" ++ String.intercalate "," names

def boundParameter (key : String) (d : Option Duration) : List String :=
  d.toList.map fun d => key ++ "=" ++ Nat.repr d.millis

/-- The filter as parameters: the bounds, then the tags by name. -/
def parameters (f : Filter) : List String :=
  boundParameter "min" f.minTime ++ boundParameter "max" f.maxTime ++
    f.tags.entries.map fun (name, value) => "tag." ++ name ++ "=" ++ value

/-- The one id that a query has. -/
def id (q : Query) : String :=
  match parameters q.filter with
  | [] => subjectPath q.subject
  | params => subjectPath q.subject ++ "?" ++ String.intercalate "&" params

/-- Reads the part of an id that names the subject. -/
def parsePath (id path : String) : Except Fault Query :=
  match Text.cut? ':' path with
  | none => ofStandardId path
  | some (kind, tags) =>
    match TagReport.find? kind with
    | none => .error (.unknownReport kind)
    | some kind =>
      if tags.isEmpty then .error (.malformed id .noTags)
      else match (Text.fields ',' tags).forM (checkName id .emptyTagName) with
        | .error fault => .error fault
        | .ok _ => ofTags kind (Text.fields ',' tags)

def parseBound (id value : String) : Except Fault Duration :=
  match Text.wholeNumber? longestMillis value with
  | some n => .ok (Duration.ofMillis n)
  | none => .error (.malformed id .notWholeMillis)

/-- Reads one parameter into a filter. A later one with the same key takes
the place of an earlier one. -/
def parseParameter (id : String) (f : Filter) (parameter : String) : Except Fault Filter :=
  match Text.cut? '=' parameter with
  | none => .error (.malformed id .noEqualsSign)
  | some (key, value) =>
    if key = "min" then (parseBound id value).map f.withMin
    else if key = "max" then (parseBound id value).map f.withMax
    else match Text.dropStart? "tag." key with
      | none => .error (.malformed id .unknownParameter)
      | some name => do
        checkName id .emptyTagName name
        checkName id .emptyTagValue value
        return f.requireTag name value

/-- Reads the parameters behind the question mark, of which there may be
none. -/
def parseParameters (id parameters : String) (q : Query) : Except Fault Query :=
  if parameters.isEmpty then .ok q
  else do
    let f ← (Text.fields '&' parameters).foldlM (parseParameter id) Filter.any
    q.withFilter f

/-- The query that an id stands for: a subject, and behind a question mark
parameters for the filter. Parameters may come in any order. -/
def parse (id : String) : Except Fault Query :=
  match Text.cut? '?' id with
  | none => parsePath id id
  | some (path, parameters) =>
    match parsePath id path with
    | .error fault => .error fault
    | .ok q => parseParameters id parameters q

end Rollup.Query
