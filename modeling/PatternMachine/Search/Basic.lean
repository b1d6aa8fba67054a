import PatternMachine.Search.Match
import PatternMachine.Search.Event
import PatternMachine.Search.Visited

namespace PatternMachine

namespace Search

-- One state on the path being explored, with the input from its position on, the edges not tried
-- yet, and the edge that led here.
structure Frame where
  state : StateId
  position : Nat
  rest : Text
  untried : List Edge
  via : Option Edge
  deriving DecidableEq

structure Setting where
  automaton : Automaton
  leaving : Array (List Edge)
  inputSize : Nat

def Setting.of (a : Automaton) (input : Text) : Setting :=
  ⟨a, ((List.range a.states.length).map a.outgoing).toArray, Text.size input⟩

def Setting.outgoing (m : Setting) (state : StateId) : List Edge := m.leaving.getD state []

def Setting.accepts (m : Setting) (state : StateId) (position : Nat) : Bool :=
  m.automaton.isTerminal state && (!m.automaton.anchors.fixedEnd || position == m.inputSize)

structure Run where
  visited : Visited
  stack : List Frame
  deriving DecidableEq

def Setting.begin (m : Setting) (start : Nat) (rest : Text) : Run :=
  let state := m.automaton.start
  ⟨(Visited.empty m.automaton.states.length (m.inputSize + 1)).insert state start,
    [⟨state, start, rest, m.outgoing state, none⟩]⟩

inductive Progress where
  | running (events : List Event) (next : Run)
  | accepted (event : Event) (stack : List Frame)
  | failed

-- The frame on top tries its next edge; with no edge left it accepts or is given up.
def Setting.step (m : Setting) (run : Run) : Progress :=
  match run with
  | ⟨_, []⟩ => .failed
  | ⟨visited, top :: below⟩ =>
    match top.untried with
    | edge :: untried =>
      let stack := { top with untried } :: below
      match Text.strip? edge.text top.rest with
      | none => .running [.reject edge top.position] ⟨visited, stack⟩
      | some rest =>
        let state := edge.destination
        let position := top.position + Text.size edge.text
        if visited.seen state position then .running [.revisit state position] ⟨visited, stack⟩
        else
          .running [.edge edge position]
            ⟨visited.insert state position, ⟨state, position, rest, m.outgoing state, some edge⟩ :: stack⟩
    | [] =>
      if m.accepts top.state top.position then .accepted (.accept top.state top.position) (top :: below)
      else
        let resumed := match below with
          | [] => []
          | parent :: _ => [.backtrack parent.state parent.position]
        .running (.deadEnd top.state top.position :: resumed) ⟨visited, below⟩

-- Edges and frames still to be dealt with. A step that adds to them marks a new pair.
def pendingWork : List Frame → Nat
  | [] => 0
  | top :: below => top.untried.length + 1 + pendingWork below

theorem step_decreases {m : Setting} {run next : Run} {events : List Event}
    (moved : m.step run = .running events next) :
    next.visited.free < run.visited.free ∨
      next.visited.free = run.visited.free ∧ pendingWork next.stack < pendingWork run.stack := by
  unfold Setting.step at moved
  split at moved
  · cases moved
  · rename_i visited top below
    split at moved
    · rename_i edge untried more
      split at moved
      · cases moved; simp [pendingWork, more]
      · dsimp only at moved
        split at moved
        · cases moved; simp [pendingWork, more]
        · rename_i fresh
          cases moved
          exact .inl (Visited.free_insert_lt (by simpa using fresh))
    · split at moved
      · cases moved
      · cases moved; simp [pendingWork]

-- Steps until the run accepts, with the accepting stack, or fails. Each event is shown to the
-- observer as it happens.
def Setting.explore (m : Setting) (observe : σ → Event → σ) (seen : σ) (run : Run) :
    σ × Option (List Frame) :=
  match _ : m.step run with
  | .running events next => m.explore observe (events.foldl observe seen) next
  | .accepted event stack => (observe seen event, some stack)
  | .failed => (seen, none)
termination_by (run.visited.free, pendingWork run.stack)
decreasing_by
  rcases step_decreases ‹m.step run = .running _ _› with fewer | ⟨same, less⟩
  · exact Prod.Lex.left _ _ fewer
  · rw [same]; exact Prod.Lex.right _ less

def path (stack : List Frame) : List Edge := stack.reverse.filterMap (·.via)

def matched (a : Automaton) (start : Nat) (rest : Text) (stack : List Frame) : Match :=
  let stop := (stack.head?.map (·.position)).getD start
  ⟨start, Text.takeBytes (stop - start) rest, collectGroups a.groupCount (path stack)⟩

-- The boundaries a match may start at, each with what follows it. A fixed start leaves offset 0.
def candidates (anchors : Anchors) (input : Text) (offset : Nat) : List (Nat × Text) :=
  (Text.suffixes 0 input).filter fun (start, _) => offset ≤ start && (!anchors.fixedStart || start == 0)

def Setting.firstMatch (m : Setting) (observe : σ → Event → σ) (seen : σ) :
    List (Nat × Text) → σ × Option Match
  | [] => (seen, none)
  | (start, rest) :: later =>
    match m.explore observe (observe seen (.start start)) (m.begin start rest) with
    | (seen, some stack) => (seen, some (matched m.automaton start rest stack))
    | (seen, none) => m.firstMatch observe seen later

inductive OffsetError where
  | outOfRange (offset size : Nat)
  | offBoundary (offset : Nat)
  deriving DecidableEq

def OffsetError.message : OffsetError → String
  | .outOfRange offset size => s!"start offset {offset} is past the end of the input ({size} bytes)"
  | .offBoundary offset => s!"start offset {offset} is not on a character boundary"

def checkOffset (input : Text) (offset : Nat) : Except OffsetError Unit :=
  if Text.size input < offset then .error (.outOfRange offset (Text.size input))
  else if Text.isBoundary input offset then .ok ()
  else .error (.offBoundary offset)

end Search

namespace Automaton

-- The leftmost match that starts at or after a valid offset, and what the observer made of the
-- search for it.
def observeFrom (a : Automaton) (observe : σ → Event → σ) (seen : σ) (input : Text) (offset : Nat) :
    σ × Option Match :=
  (Search.Setting.of a input).firstMatch observe seen (Search.candidates a.anchors input offset)

def findFrom (a : Automaton) (input : Text) (offset : Nat) : Option Match :=
  (a.observeFrom (fun () _ => ()) () input offset).2

def find (a : Automaton) (input : Text) : Option Match := a.findFrom input 0
def isMatch (a : Automaton) (input : Text) : Bool := (a.find input).isSome

def findAt (a : Automaton) (input : Text) (offset : Nat) : Except Search.OffsetError (Option Match) := do
  Search.checkOffset input offset
  return a.findFrom input offset

def events (a : Automaton) (input : Text) (offset : Nat) : List Event × Option Match :=
  let (latestFirst, found) := a.observeFrom (fun seen event => event :: seen) [] input offset
  (latestFirst.reverse, found)

end Automaton
end PatternMachine
