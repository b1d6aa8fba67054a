import PatternMachine.Anchors
import PatternMachine.Text.Basic

namespace PatternMachine

abbrev StateId := Nat

-- The id that a state has once state `removed` is gone and every later one has moved down.
def StateId.renumbered (id removed : StateId) : StateId := if removed < id then id - 1 else id

structure State where
  id : StateId
  terminal : Bool
  deriving DecidableEq

structure Edge where
  origin : StateId
  destination : StateId
  text : Text
  -- Capture indices, outermost first.
  groups : List Nat
  deriving DecidableEq

def Edge.isEmpty (e : Edge) : Bool := e.text.isEmpty
def Edge.touches (e : Edge) (id : StateId) : Bool := e.origin == id || e.destination == id

structure Automaton where
  states : List State
  edges : List Edge
  start : StateId
  anchors : Anchors
  groupCount : Nat
  deriving DecidableEq

inductive Defect where
  | sparseId (position : Nat) (id : StateId)
  | danglingEdge (edge : Nat) (state : StateId)
  | missingStart (id : StateId)
  | noTerminal
  deriving DecidableEq

def Defect.message : Defect → String
  | .sparseId position id => s!"state at position {position} carries id {id}"
  | .danglingEdge edge state => s!"edge {edge} references missing state {state}"
  | .missingStart id => s!"start state {id} does not exist"
  | .noTerminal => "no state is terminal"

structure MissingState where
  id : StateId
  count : Nat
  deriving DecidableEq

def MissingState.message (e : MissingState) : String :=
  s!"Automaton: state {e.id} not found ({e.count} states)"

namespace Automaton

def has (a : Automaton) (id : StateId) : Bool := id < a.states.length

def state (a : Automaton) (id : StateId) : Except MissingState State :=
  match a.states[id]? with
  | some state => .ok state
  | none => .error ⟨id, a.states.length⟩

def edge? (a : Automaton) (index : Nat) : Option Edge := a.edges[index]?
def isTerminal (a : Automaton) (id : StateId) : Bool := a.states[id]?.any (·.terminal)
def terminalStates (a : Automaton) : List StateId := (a.states.filter (·.terminal)).map (·.id)

def outgoing (a : Automaton) (id : StateId) : List Edge :=
  if a.has id then a.edges.filter (·.origin == id) else []

def outgoingIds (a : Automaton) (id : StateId) : List Nat :=
  if a.has id then (a.edges.zipIdx.filter (·.1.origin == id)).map (·.2) else []

def sparseId? (a : Automaton) : Option Defect :=
  a.states.zipIdx.findSome? fun (state, position) =>
    if state.id == position then none else some (.sparseId position state.id)

def danglingEdge? (a : Automaton) : Option Defect :=
  a.edges.zipIdx.findSome? fun (edge, index) =>
    if !a.has edge.origin then some (.danglingEdge index edge.origin)
    else if !a.has edge.destination then some (.danglingEdge index edge.destination)
    else none

-- The first structural defect: ids out of place, then edges to nowhere, then the start, and last
-- an automaton in which nothing accepts.
def defect? (a : Automaton) : Option Defect :=
  a.sparseId? <|> a.danglingEdge? <|>
    (if a.has a.start then none else some (.missingStart a.start)) <|>
    (if a.states.any (·.terminal) then none else some .noTerminal)

end Automaton
end PatternMachine
