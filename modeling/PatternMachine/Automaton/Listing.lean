import PatternMachine.Automaton.Basic
import PatternMachine.Text.Decimal
import PatternMachine.Text.Palette
import PatternMachine.Text.Quoted

namespace PatternMachine

open Decimal

def indexList (indices : List Nat) : Text :=
  '[' :: Text.joinWith [',', ' '] (indices.map digits) ++ [']']

def Edge.label (e : Edge) (p : Palette) : Text :=
  let consumed := if e.isEmpty then p.paint p.dim ['ε'] else p.paint p.green (Text.quote e.text)
  if e.groups.isEmpty then consumed
  else consumed ++ [' ', ' '] ++ p.paint p.dim (indexList e.groups)

namespace Anchors

def listing (anchors : Anchors) : Text :=
  match anchors.fixedStart, anchors.fixedEnd with
  | true, true => ['^', '$']
  | true, false => ['^']
  | false, true => ['$']
  | false, false => "none".toList

end Anchors

namespace Automaton

def idWidth (a : Automaton) : Nat := widthForCount a.states.length

def headerLines (a : Automaton) (p : Palette) : List Text :=
  [p.paint p.blue "[automaton]".toList,
    "anchors ".toList ++ a.anchors.listing,
    "groups  ".toList ++ digits a.groupCount]

def stateLine (a : Automaton) (p : Palette) (state : State) : Text :=
  let marker (shown : Bool) (name : Text) := if shown then ' ' :: p.paint p.blue name else []
  alignRight a.idWidth (digits state.id) ++
    marker (state.id == a.start) "[start]".toList ++ marker state.terminal "[end]".toList

def edgeLine (a : Automaton) (p : Palette) (edge : Edge) : Text :=
  alignRight a.idWidth (digits edge.origin) ++ " -> ".toList ++
    alignRight a.idWidth (digits edge.destination) ++ [' ', ' '] ++ edge.label p

def listingLines (a : Automaton) (p : Palette) : List Text :=
  a.headerLines p ++ [[]] ++
    p.paint p.blue "[states]".toList :: a.states.map (a.stateLine p) ++ [[]] ++
    p.paint p.blue "[edges]".toList :: a.edges.map (a.edgeLine p)

def listing (a : Automaton) (p : Palette) : Text := (a.listingLines p).flatMap (· ++ ['\n'])

end Automaton
end PatternMachine
