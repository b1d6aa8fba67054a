import PatternMachine.Search.Match
import PatternMachine.Text.Json

namespace PatternMachine

open JsonValue

def Match.json (m : Match) : JsonValue :=
  .object [("start".toList, .number m.start), ("text".toList, .string m.text),
    ("groups".toList, .array (m.groups.map .string))]

def Match.jsonOf : Option Match → JsonValue
  | none => .null
  | some m => m.json

end PatternMachine
