import PatternMachine.Automaton.Arena
import PatternMachine.Pattern.Token

namespace PatternMachine

structure Level where
  fork : StateId
  -- Ends of the branches already read, first to last, and of the branch being read.
  closed : List StateId
  current : StateId
  deriving DecidableEq

namespace Level

def ends (level : Level) : List StateId := level.closed ++ [level.current]

def renumbered (level : Level) (removed : StateId) : Level :=
  ⟨level.fork.renumbered removed, level.closed.map (·.renumbered removed), level.current.renumbered removed⟩

end Level

inductive BuildFault where
  | noBranchEnd
  | arena (fault : ArenaFault)
  deriving DecidableEq

def BuildFault.message : BuildFault → String
  | .noBranchEnd => "top-level branch end is never popped"
  | .arena fault => fault.message

structure Builder where
  arena : Arena
  start : StateId
  level : Level
  -- Levels around the innermost one, nearest first.
  outer : List Level
  -- Captures of the open groups, outermost first.
  captures : List Nat
  pending : Text
  deriving DecidableEq

namespace Builder

abbrev Step := Except BuildFault Builder

def checked (result : Except ArenaFault α) : Except BuildFault α := result.mapError .arena

def initial : Builder := ⟨Arena.empty.addState, 0, ⟨0, [], 0⟩, [], [], []⟩

def levels (b : Builder) : List Level := b.outer.reverse ++ [b.level]
def forks (b : Builder) : List StateId := b.levels.map (·.fork)
def branchEnds (b : Builder) : List StateId := b.levels.flatMap (·.ends)

def setCurrent (b : Builder) (id : StateId) : Builder := { b with level := { b.level with current := id } }

def link (b : Builder) (origin destination : StateId) (text : Text) : Step := do
  return { b with arena := ← checked (b.arena.addEdge ⟨origin, destination, text, b.captures⟩) }

def extend (b : Builder) (text : Text) : Step := do
  let fresh := b.arena.nextId
  let linked ← { b with arena := b.arena.addState }.link b.level.current fresh text
  return linked.setCurrent fresh

def flush (b : Builder) : Step :=
  if b.pending.isEmpty then .ok b else { b with pending := [] }.extend b.pending

-- A loop must not hang on a fork: every branch of that group could enter it. The branch then first
-- goes over an empty edge into a state of its own.
def loopEntry (b : Builder) : Step := if b.forks.contains b.level.current then b.extend [] else .ok b

def star (b : Builder) (c : Char) : Step := do
  let b ← b.flush
  let b ← b.loopEntry
  b.link b.level.current b.level.current [c]

def openBranch (b : Builder) : Step := do
  let b ← b.flush
  return { b with level := ⟨b.level.fork, b.level.ends, b.level.fork⟩ }

def openGroup (table : CaptureTable) (b : Builder) (offset : Nat) (starred : Bool) : Step := do
  let b ← b.flush
  let b ← if starred then b.loopEntry else .ok b
  let fork := b.level.current
  return { b with
    level := ⟨fork, [], fork⟩
    outer := b.level :: b.outer
    captures := b.captures ++ (table.indexOf? offset).toList }

-- Merges a state that no edge leaves into another: edges into it go there instead.
def absorb (b : Builder) (gone target : StateId) : Step := do
  let arena ← checked (b.arena.retargetIncoming gone target)
  let arena ← checked (arena.removeState gone)
  return { b with
    arena
    start := b.start.renumbered gone
    level := b.level.renumbered gone
    outer := b.outer.map (·.renumbered gone) }

-- Leads the ends of a starred group back to its fork. An end that already leads somewhere gets an
-- empty edge; any other is merged into the fork. The ends still to come are renumbered with it.
def closeLoop (b : Builder) : List StateId → Step
  | [] => .ok (b.setCurrent b.level.fork)
  | id :: later =>
    if id == b.level.fork then closeLoop b later
    else if b.arena.hasOutgoing id then
      match b.link id b.level.fork [] with
      | .error fault => .error fault
      | .ok linked => closeLoop linked later
    else
      match b.absorb id b.level.fork with
      | .error fault => .error fault
      | .ok merged => closeLoop merged (later.map (·.renumbered id))
termination_by ends => ends.length

def join (b : Builder) : List StateId → Step
  | [only] => .ok (b.setCurrent only)
  | ends => do
    let target := b.arena.nextId
    let joined ← ends.foldlM (fun b id => b.link id target []) { b with arena := b.arena.addState }
    return joined.setCurrent target

def closeGroup (table : CaptureTable) (b : Builder) (offset : Nat) (starred : Bool) : Step := do
  let b ← b.flush
  let b ← if starred then b.closeLoop b.level.ends.eraseReps else b.join b.level.ends
  match b.outer with
  | [] => .error .noBranchEnd
  | level :: outer =>
    let own := b.captures.getLast?.any fun index => table.closesAt index offset
    return { b with
      level := { level with current := b.level.current }
      outer
      captures := if own then b.captures.dropLast else b.captures }

def step (table : CaptureTable) (b : Builder) : Token → Step
  | .literal c false => .ok { b with pending := b.pending ++ [c] }
  | .literal c true => b.star c
  | .bar => b.openBranch
  | .opening offset starred => b.openGroup table offset starred
  | .closing offset starred => b.closeGroup table offset starred

def run (table : CaptureTable) (b : Builder) (tokens : List Token) : Step := tokens.foldlM (step table) b

def scan (table : CaptureTable) (body : Text) : Step := do (← run table initial (Token.ofText body)).flush

def finish (b : Builder) (table : CaptureTable) (anchors : Anchors) : Except BuildFault Automaton := do
  let arena ← checked (b.branchEnds.foldlM Arena.markTerminal b.arena)
  checked (arena.finish b.start anchors table.length)

def build (table : CaptureTable) (body : Text) (anchors : Anchors) : Except BuildFault Automaton := do
  (← scan table body).finish table anchors

end Builder
end PatternMachine
