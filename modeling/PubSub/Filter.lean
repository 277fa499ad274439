import PubSub.Bounds
import PubSub.Decimal.Reader
import PubSub.Error
import PubSub.Pattern
import PubSub.Text.Blank
import PubSub.Text.Split

/-!
# Filters

A `Filter` is a standing subscription to all variables whose names match one pattern, as far as they
are written by applications whose names match another. It travels as text: entries `key=value`
between commas, with the keys in any case. `Filter.parse` reads that text and `Filter.shown` writes
it.
-/

namespace PubSub

/-- A standing subscription by patterns. -/
structure Filter where
  /-- The pattern for the names of the writing applications. -/
  sourcePattern : String
  /-- The pattern for the names of the variables. -/
  keyPattern : String
  /-- The least time between two notifications. -/
  period : Float
deriving DecidableEq

namespace Filter

/-- Whether a write of `key` by `source` is subscribed to. -/
def covers (f : Filter) (source key : String) : Bool :=
  matchesPattern f.sourcePattern source && matchesPattern f.keyPattern key

/-- Filters with the same patterns are registrations of the same subscription. -/
def samePatterns (f g : Filter) : Bool :=
  f.sourcePattern == g.sourcePattern && f.keyPattern == g.keyPattern

/-- A filter as text. -/
def shown (f : Filter) : String :=
  "AppPattern=" ++ f.sourcePattern ++ ",VarPattern=" ++ f.keyPattern ++ ",Interval=" ++
    Decimal.shortest f.period

/-- What the entries read so far say. -/
structure Draft where
  sourcePattern : Option String := none
  keyPattern : Option String := none
  period : Float := 0.0

/-- The draft after one more entry; `none` if the entry is an interval that is no number. -/
def Draft.add? (draft : Draft) (entry : List Char × List Char) : Option Draft :=
  let value := Text.trim entry.2
  match String.ofList ((Text.trim entry.1).map Char.toLower) with
  | "apppattern" => some { draft with sourcePattern := some (String.ofList value) }
  | "varpattern" => some { draft with keyPattern := some (String.ofList value) }
  | "interval" => (Decimal.read? value).map fun period => { draft with period }
  | _ => some draft

/-- The filter that a text describes: any application if it names none, and the period 0 if it
gives none. Of entries with the same key the last one counts. -/
def parse (s : String) : Except Error Filter :=
  let entries := (Text.pieces ',' s.toList).filterMap (Text.cut? '=')
  match entries.foldlM Draft.add? {} with
  | none => .error (.invalidInterval s)
  | some draft =>
    match draft.keyPattern with
    | none => .error (.missingVariablePattern s)
    | some keyPattern =>
      .ok {
        sourcePattern := draft.sourcePattern.getD "*"
        keyPattern
        period := Bounds.raised draft.period }

end Filter

end PubSub
