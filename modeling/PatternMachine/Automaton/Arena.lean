import PatternMachine.Automaton.Basic

namespace PatternMachine

structure Arena where
  states : List State
  edges : List Edge
  deriving DecidableEq

inductive ArenaFault where
  | missingState (id : StateId) (count : Nat)
  | stillReferenced (id : StateId) (edge : Nat)
  deriving DecidableEq

def ArenaFault.message : ArenaFault → String
  | .missingState id count => s!"Graph: state {id} does not exist ({count} states)"
  | .stillReferenced id edge => s!"Graph: cannot remove state {id}, edge {edge} still refers to it"

namespace Arena

def empty : Arena := ⟨[], []⟩

def isLive (a : Arena) (id : StateId) : Bool := id < a.states.length

def requireLive (a : Arena) (id : StateId) : Except ArenaFault Unit :=
  if a.isLive id then .ok () else .error (.missingState id a.states.length)

def requireUnreferenced (a : Arena) (id : StateId) : Except ArenaFault Unit :=
  match a.edges.findIdx? (·.touches id) with
  | none => .ok ()
  | some edge => .error (.stillReferenced id edge)

def nextId (a : Arena) : StateId := a.states.length
def addState (a : Arena) : Arena := { a with states := a.states ++ [⟨a.nextId, false⟩] }
def lastState? (a : Arena) : Option StateId := a.states.getLast?.map (·.id)

def addEdge (a : Arena) (edge : Edge) : Except ArenaFault Arena := do
  a.requireLive edge.origin
  a.requireLive edge.destination
  return { a with edges := a.edges ++ [edge] }

def hasOutgoing (a : Arena) (id : StateId) : Bool := a.edges.any (·.origin == id)

def incomingCount (a : Arena) (id : StateId) : Nat := a.edges.countP (·.destination == id)

def retargetIncoming (a : Arena) (source target : StateId) : Except ArenaFault Arena := do
  a.requireLive target
  return { a with edges := a.edges.map fun e =>
    if e.destination == source then { e with destination := target } else e }

-- Removes a state that no edge touches. Ids held elsewhere have to be renumbered after it.
def removeState (a : Arena) (id : StateId) : Except ArenaFault Arena := do
  a.requireLive id
  a.requireUnreferenced id
  return {
    states := (a.states.eraseIdx id).map fun s => { s with id := s.id.renumbered id }
    edges := a.edges.map fun e =>
      { e with origin := e.origin.renumbered id, destination := e.destination.renumbered id } }

def markTerminal (a : Arena) (id : StateId) : Except ArenaFault Arena := do
  a.requireLive id
  return { a with states := a.states.modify id fun s => { s with terminal := true } }

def finish (a : Arena) (start : StateId) (anchors : Anchors) (groupCount : Nat) :
    Except ArenaFault Automaton := do
  a.requireLive start
  return ⟨a.states, a.edges, start, anchors, groupCount⟩

end Arena
end PatternMachine
