import PatternMachine.Proofs.Automaton.Editing
import PatternMachine.Proofs.Pattern.Balance

namespace PatternMachine

inductive AssemblyFault where
  | noGroup
  | noFork
  | noBranchEnd
  | noBranchCount
  -- More branches counted than there are ends.
  | underflow
  | depths (forks counts : Nat)
  -- An offset that is no boundary of the body.
  | cut (offset : Nat)
  | depth (fault : DepthFault)
  | edit (fault : EditFault)
  | malformed (defect : Defect)

def AssemblyFault.text? : AssemblyFault → Option String
  | .noGroup => some "closing parenthesis without an open group"
  | .noFork => some "top-level decision state is never popped"
  | .noBranchEnd => some "top-level branch end is never popped"
  | .noBranchCount => some "top-level branch count is never popped"
  | .edit (.refused fault) => some fault.message
  | .edit .sparse => some "Graph: state ids are no longer dense after renumbering"
  | _ => none

-- The construction on the bytes of the body, with a stack each for what a level holds. The last of a list is on top.
structure Assembler where
  arena : Arena
  start : StateId
  forks : List StateId
  ends : List StateId
  -- How many of the ends belong to each open group.
  counts : List Nat
  captures : List Nat
  pending : Text

namespace Assembler

abbrev Result (α : Type) := Except AssemblyFault α

def expect (fault : AssemblyFault) (found : Option α) : Result α := found.elim (.error fault) .ok

def initial : Assembler := ⟨Arena.empty.addState, 0, [0], [0], [1], [], []⟩

def edit (m : Assembler) (operation : Arena.Operation) : Result Assembler :=
  match operation.edit.run m.arena with
  | .ok () arena => .ok { m with arena }
  | .error fault _ => .error (.edit fault)

def fork (m : Assembler) : Result StateId := expect .noFork m.forks.getLast?
def branchEnd (m : Assembler) : Result StateId := expect .noBranchEnd m.ends.getLast?

def setBranchEnd (m : Assembler) (id : StateId) : Result Assembler := do
  let _ ← m.branchEnd
  return { m with ends := m.ends.dropLast ++ [id] }

def link (m : Assembler) (origin destination : StateId) (text : Text) : Result Assembler :=
  m.edit (.addEdge ⟨origin, destination, text, m.captures⟩)

def extend (m : Assembler) (origin : StateId) (text : Text) : Result (Assembler × StateId) := do
  let fresh := m.arena.nextId
  let m ← m.edit .addState
  let m ← m.link origin fresh text
  let m ← m.setBranchEnd fresh
  return (m, fresh)

def flush (m : Assembler) : Result Assembler :=
  if m.pending.isEmpty then .ok m
  else do
    let origin ← m.branchEnd
    let (m, _) ← { m with pending := [] }.extend origin m.pending
    return m

def loopEntry (m : Assembler) : Result (Assembler × StateId) := do
  let stop ← m.branchEnd
  if m.forks.contains stop then m.extend stop [] else return (m, stop)

def star (m : Assembler) (c : Char) : Result Assembler := do
  let m ← m.flush
  let (m, state) ← m.loopEntry
  m.link state state [c]

def openBranch (m : Assembler) : Result Assembler := do
  let m ← m.flush
  let fork ← m.fork
  let count ← expect .noBranchCount m.counts.getLast?
  return { m with ends := m.ends ++ [fork], counts := m.counts.dropLast ++ [count + 1] }

def isRepeated (body : Text) (offset : Nat) : Bool := body.occursBareAt offset ['*']

def approach (m : Assembler) (starred : Bool) : Result (Assembler × StateId) :=
  if starred then m.loopEntry else m.branchEnd.map (m, ·)

def openGroup (table : CaptureTable) (body : Text) (m : Assembler) (offset : Nat) : Result Assembler := do
  let m ← m.flush
  let close ← (body.countedEnd? offset).mapError .depth
  let (m, fork) ← m.approach (close.any fun close => isRepeated body (close + 1))
  return { m with
    forks := m.forks ++ [fork]
    ends := m.ends ++ [fork]
    counts := m.counts ++ [1]
    captures := m.captures ++ (table.indexOf? offset).toList }

def detach (m : Assembler) : Result (Assembler × List StateId) := do
  let count ← expect .noGroup m.counts.getLast?
  let kept ← expect .underflow (if count ≤ m.ends.length then some (m.ends.length - count) else none)
  return ({ m with counts := m.counts.dropLast, ends := m.ends.take kept }, m.ends.drop kept)

def absorb (m : Assembler) (gone target : StateId) : Result Assembler := do
  let m ← m.edit (.retargetIncoming gone target)
  let m ← m.edit (.removeState gone)
  return { m with
    start := m.start.renumbered gone
    forks := m.forks.map (·.renumbered gone)
    ends := m.ends.map (·.renumbered gone) }

def leadBack (m : Assembler) (fork : StateId) : List StateId → Result (Assembler × StateId)
  | [] => .ok (m, fork)
  | id :: later =>
    if id == fork then leadBack m fork later
    else if m.arena.hasOutgoing id then
      match m.link id fork [] with
      | .error fault => .error fault
      | .ok linked => leadBack linked fork later
    else
      match m.absorb id fork with
      | .error fault => .error fault
      | .ok merged => leadBack merged (fork.renumbered id) (later.map (·.renumbered id))
termination_by ends => ends.length

def closeLoop (m : Assembler) (ends : List StateId) : Result (Assembler × StateId) := do
  m.leadBack (← m.fork) ends.eraseReps

def join (m : Assembler) : List StateId → Result (Assembler × StateId)
  | [only] => .ok (m, only)
  | ends => do
    let target := m.arena.nextId
    let m ← m.edit .addState
    let m ← ends.foldlM (fun m id => m.link id target []) m
    return (m, target)

def gather (m : Assembler) (starred : Bool) (ends : List StateId) : Result (Assembler × StateId) :=
  if starred then m.closeLoop ends else m.join ends

def leave (table : CaptureTable) (m : Assembler) (offset : Nat) (stop : StateId) : Result Assembler := do
  let m ← { m with forks := m.forks.dropLast }.setBranchEnd stop
  if m.forks.length ≠ m.counts.length then throw (.depths m.forks.length m.counts.length)
  let own := m.captures.getLast?.any fun index => table.closesAt index offset
  return { m with captures := if own then m.captures.dropLast else m.captures }

def closeGroup (table : CaptureTable) (m : Assembler) (offset : Nat) (starred : Bool) : Result Assembler := do
  let m ← m.flush
  let (m, ends) ← m.detach
  let (m, stop) ← m.gather starred ends
  m.leave table offset stop

-- Answers with how far to advance.
def step (table : CaptureTable) (body : Text) (m : Assembler) (offset : Nat) (c : Char) : Result (Assembler × Nat) :=
  if body.occursBareAt offset ['|'] then m.openBranch.map (·, 1)
  else if body.occursBareAt offset ['('] then
    let marked := body.occursAt (offset + 1) CaptureTable.plainMark
    (m.openGroup table body offset).map (·, if marked then 3 else 1)
  else if body.occursBareAt offset [')'] then
    let starred := isRepeated body (offset + 1)
    (m.closeGroup table offset starred).map (·, if starred then 2 else 1)
  else if body.occursBareAt offset ['\\'] then .ok (m, 1)
  else if isRepeated body (offset + c.utf8Size) then (m.star c).map (·, c.utf8Size + 1)
  else .ok ({ m with pending := m.pending ++ [c] }, c.utf8Size)

theorem advance_ok {result : Result Assembler} {m : Assembler} {width width' : Nat} :
    result.map (·, width) = .ok (m, width') ↔ result = .ok m ∧ width = width' := by
  cases result <;> simp [Except.map]

section

variable {table : CaptureTable} {body after : Text} {m m' : Assembler} {offset width : Nat} {c : Char}

theorem step_advances (stepped : m.step table body offset c = .ok (m', width)) : 0 < width := by
  have positive := c.utf8Size_pos
  unfold step at stepped
  split_ifs at stepped <;> simp only [advance_ok, Except.ok.injEq, Prod.mk.injEq] at stepped <;> grind

theorem step_shrinks (here : body.from? offset = some (c :: after)) (stepped : m.step table body offset c = .ok (m', width)) :
    body.size - (offset + width) < body.size - offset := by
  have advances := step_advances stepped
  have inside := Text.from?_size here
  have positive := c.utf8Size_pos
  rw [Text.size_cons] at inside
  omega

end

def scanFrom (table : CaptureTable) (body : Text) (m : Assembler) (offset : Nat) : Result Assembler :=
  match here : body.from? offset with
  | none => .error (.cut offset)
  | some [] => m.flush
  | some (c :: _) =>
    match stepped : m.step table body offset c with
    | .error fault => .error fault
    | .ok (m', width) =>
      have := step_shrinks here stepped
      scanFrom table body m' (offset + width)
termination_by body.size - offset

def scan (table : CaptureTable) (body : Text) : Result Assembler := scanFrom table body initial 0

-- What the steps of a scan come to, with the offset up to which the body is read.
inductive Reached (table : CaptureTable) (body : Text) : Nat → Assembler → Prop where
  | begin : Reached table body 0 initial
  | step : Reached table body offset m → body.from? offset = some (c :: after) →
      m.step table body offset c = .ok (m', width) → Reached table body (offset + width) m'

-- Leading the ends of a loop back to its fork, from its beginning to where the ends `later` are left.
inductive Leads (m : Assembler) (fork : StateId) (stops : List StateId) : Assembler → StateId → List StateId → Prop where
  | begin : Leads m fork stops m fork stops
  | skip : Leads m fork stops c target (target :: later) → Leads m fork stops c target later
  | link : Leads m fork stops c target (stop :: later) → stop ≠ target → c.arena.hasOutgoing stop = true →
      c.link stop target [] = .ok c' → Leads m fork stops c' target later
  | merge : Leads m fork stops c target (gone :: later) → gone ≠ target → c.arena.hasOutgoing gone = false →
      c.absorb gone target = .ok c' → Leads m fork stops c' (target.renumbered gone) (later.map (·.renumbered gone))

def finish (m : Assembler) (table : CaptureTable) (anchors : Anchors) : Result Automaton := do
  let m ← m.ends.foldlM (fun m id => m.edit (.markTerminal id)) m
  (m.arena.finish m.start anchors table.length).mapError (.edit ∘ .refused)

def build (table : CaptureTable) (body : Text) (anchors : Anchors) : Result Automaton := do
  let a ← (← scan table body).finish table anchors
  match a.defect? with
  | none => return a
  | some defect => throw (.malformed defect)

end Assembler
end PatternMachine
