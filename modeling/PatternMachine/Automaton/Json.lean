import PatternMachine.Automaton.Basic
import PatternMachine.Text.Json

namespace PatternMachine

open JsonValue

def State.json (s : State) : JsonValue :=
  .object [("id".toList, .number s.id), ("terminal".toList, .bool s.terminal)]

def Edge.json (e : Edge) : JsonValue :=
  .object [("origin".toList, .number e.origin), ("destination".toList, .number e.destination),
    ("text".toList, .string e.text), ("groups".toList, .array (e.groups.map .number))]

def Anchors.json (anchors : Anchors) : JsonValue :=
  .object [("fixed_start".toList, .bool anchors.fixedStart), ("fixed_end".toList, .bool anchors.fixedEnd)]

def Automaton.json (a : Automaton) : JsonValue :=
  .object [("states".toList, .array (a.states.map (·.json))),
    ("edges".toList, .array (a.edges.map (·.json))),
    ("start".toList, .number a.start),
    ("anchors".toList, a.anchors.json),
    ("group_count".toList, .number a.groupCount)]

end PatternMachine
