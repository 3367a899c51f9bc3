import Rollup.Filter
import Rollup.Query.Standard

namespace Rollup

/-- The five kinds of reports by tags. -/
inductive TagReport
  | tagInfo
  | tagReport
  | tagReport2
  | requestTagInfo
  | requestTagReport
deriving DecidableEq

namespace TagReport

def all : List TagReport := [.tagInfo, .tagReport, .tagReport2, .requestTagInfo, .requestTagReport]

def name : TagReport → String
  | .tagInfo => "tag_info"
  | .tagReport => "tag_report"
  | .tagReport2 => "tag_report2"
  | .requestTagInfo => "rtag_info"
  | .requestTagReport => "rtag_report"

def find? (name : String) : Option TagReport := all.find? (·.name = name)

def source : TagReport → TagSource
  | .tagInfo | .tagReport | .tagReport2 => .timers
  | .requestTagInfo | .requestTagReport => .request

def scope : TagReport → Scope
  | .tagInfo | .requestTagInfo => .everywhere
  | .tagReport => .perScript
  | .tagReport2 => .perScriptHostServer
  | .requestTagReport => .perHost

end TagReport

/-- What a report is about: a standard report, or the values of some tags. -/
inductive Subject
  | standard (report : StandardReport)
  | tags (kind : TagReport) (names : List String)
deriving DecidableEq

/-- What a client can ask for: a subject, and which requests to look at. -/
structure Query where
  subject : Subject
  filter : Filter
deriving DecidableEq

namespace Query

/-- What is wrong with a report id, or with the parts of a query. -/
inductive Flaw
  | emptyTagName
  | emptyTagValue
  | reservedCharacter
  | noTags
  | noEqualsSign
  | notWholeMillis
  | unknownParameter
deriving DecidableEq

def Flaw.text : Flaw → String
  | .emptyTagName => "empty tag name"
  | .emptyTagValue => "empty tag value"
  | .reservedCharacter => "reserved character in tag name or value"
  | .noTags => "no tags"
  | .noEqualsSign => "filter parameter without `=`"
  | .notWholeMillis => "filter bound is not a whole number of milliseconds"
  | .unknownParameter => "unknown filter parameter"

/-- Why there is no report for what was asked. -/
inductive Fault
  | unknownReport (name : String)
  | unknownTag (name : String)
  | malformed (id : String) (flaw : Flaw)
  | grouping (cause : Grouping.Fault)
  | filter (cause : Filter.Inverted)
deriving DecidableEq

def Fault.message : Fault → String
  | .unknownReport name => s!"unknown report `{name}`"
  | .unknownTag name => s!"unknown tag `{name}`"
  | .malformed id flaw => s!"malformed report id `{id}`: " ++ flaw.text
  | .grouping cause => "invalid report: " ++ cause.message
  | .filter cause => "invalid report: " ++ cause.message

/-- The characters that give a report id its structure. -/
def reserved : List Char := [',', '?', '&', '=']

/-- Refuses text that can't stand in a report id as the name or value of a
tag: it is empty, with the flaw to report then, or has a reserved character. -/
def checkName (id : String) (ifEmpty : Flaw) (name : String) : Except Fault Unit :=
  if name.isEmpty then .error (.malformed id ifEmpty)
  else if name.toList.any reserved.contains then .error (.malformed id .reservedCharacter)
  else .ok ()

/-- All requests for a standard report. -/
def ofStandard (report : StandardReport) : Query := ⟨.standard report, .any⟩

def ofStandardId (id : String) : Except Fault Query :=
  match StandardReport.find? id with
  | some report => .ok (ofStandard report)
  | none => .error (.unknownReport id)

/-- All requests for a report by tags, of which there is at least one. -/
def ofTags (kind : TagReport) (names : List String) : Except Fault Query :=
  match names.forM (checkName kind.name .emptyTagName) with
  | .error fault => .error fault
  | .ok _ => if names.isEmpty then .error (.malformed kind.name .noTags) else .ok ⟨.tags kind names, .any⟩

/-- The longest bound in milliseconds that an id can carry. -/
def longestMillis : Nat := 18446744073709551615

/-- A bound as ids carry it, in whole milliseconds. -/
def wholeMillis (d : Duration) : Duration := Duration.ofMillis (min d.millis longestMillis)

/-- A filter as ids carry it. A bound below a millisecond is no bound. -/
def normalized (f : Filter) : Filter where
  minTime := f.minTime.bind fun d => Filter.bound (wholeMillis d)
  maxTime := f.maxTime.bind fun d => Filter.bound (wholeMillis d)
  tags := f.tags

def checkTag (tag : String × String) : Except Fault Unit :=
  match checkName "filter" .emptyTagName tag.1 with
  | .error fault => .error fault
  | .ok _ => checkName "filter" .emptyTagValue tag.2

def checkBounds (f : Filter) : Except Fault Unit :=
  match f.check with
  | .error cause => .error (.filter cause)
  | .ok _ => .ok ()

/-- The same subject with another filter, which is normalized. -/
def withFilter (q : Query) (f : Filter) : Except Fault Query := do
  checkBounds f
  f.tags.entries.forM checkTag
  checkBounds (normalized f)
  return { q with filter := normalized f }

/-- Whether this is a standard report over all requests. -/
def isStandard (q : Query) : Bool :=
  match q.subject with
  | .standard _ => q.filter.isAny
  | .tags _ _ => false

/-- The grouping of a query. Its tags have to be known by now. -/
def grouping (q : Query) (tags : Vocabulary) : Except Fault Grouping :=
  match q.subject with
  | .standard report => .ok report.grouping
  | .tags kind names => do
    let ids ← names.mapM fun name =>
      match tags.find? name with
      | some id => .ok id
      | none => .error (.unknownTag name)
    match Grouping.ofTags kind.source ids kind.scope with
    | .ok grouping => .ok grouping
    | .error cause => .error (.grouping cause)

end Query

end Rollup
