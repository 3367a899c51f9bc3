import Rollup.Record
import Rollup.SortedMap

namespace Rollup

/-- Which requests a report takes in: bounds on the time a request took, and
values that tags of the request must have. -/
structure Filter where
  minTime : Option Duration
  maxTime : Option Duration
  tags : SortedMap String String
deriving DecidableEq

namespace Filter

/-- No time lies within the bounds. -/
structure Inverted where
  minTime : Duration
  maxTime : Duration
deriving DecidableEq

def Inverted.message (e : Inverted) : String :=
  "min_time " ++ e.minTime.text ++ " is above max_time " ++ e.maxTime.text

/-- The filter that every request passes. -/
def any : Filter := ⟨none, none, .empty⟩

/-- A bound of zero is no bound. -/
def bound (d : Duration) : Option Duration := if d = 0 then none else some d

def withMin (f : Filter) (d : Duration) : Filter := { f with minTime := bound d }

def withMax (f : Filter) (d : Duration) : Filter := { f with maxTime := bound d }

/-- A second requirement on a tag replaces the first one. -/
def requireTag (f : Filter) (name value : String) : Filter := { f with tags := f.tags.insert name value }

def isAny (f : Filter) : Bool := f.minTime.isNone && f.maxTime.isNone && f.tags.isEmpty

/-- Refuses bounds that shut out every time. -/
def check (f : Filter) : Except Inverted Unit :=
  match f.minTime, f.maxTime with
  | some min, some max => if max < min then .error ⟨min, max⟩ else .ok ()
  | _, _ => .ok ()

def acceptsTime (f : Filter) (time : Duration) : Bool :=
  f.minTime.all (· ≤ time) && f.maxTime.all (time ≤ ·)

/-- A tag that is required must be there, and every tag of that name must
have the required value. -/
def acceptsTag (tags : List (String × String)) (name value : String) : Bool :=
  (tags.any fun tag => tag.1 = name) && tags.all fun tag => tag.1 ≠ name || tag.2 = value

def acceptsTags (f : Filter) (tags : List (String × String)) : Bool :=
  f.tags.entries.all fun (name, value) => acceptsTag tags name value

def accepts (f : Filter) (v : View) : Bool := f.acceptsTime v.record.time && f.acceptsTags v.requestTags

end Filter

end Rollup
