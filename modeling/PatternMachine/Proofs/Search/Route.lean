import PatternMachine.Search.Basic
import PatternMachine.Proofs.Automaton.Sealed
import PatternMachine.Proofs.Text.Offsets

namespace PatternMachine.Search

structure Configuration where
  state : StateId
  position : Nat
  deriving DecidableEq

variable {a : Automaton} {input : Text}

def Configuration.after (c : Configuration) (e : Edge) : Configuration :=
  ⟨e.destination, c.position + Text.size e.text⟩

-- Edges are named by their index. One of the outgoing list leads on where its text occurs.
inductive Leads (a : Automaton) (input : Text) (c : Configuration) : Nat → Configuration → Prop where
  | along : edge ∈ a.outgoingIds c.state → a.edge? edge = some e →
      Text.occursAt input c.position e.text = true → Leads a input c edge (c.after e)

def Accepts (a : Automaton) (input : Text) (c : Configuration) : Prop :=
  a.isTerminal c.state = true ∧ (a.anchors.fixedEnd = true → c.position = Text.size input)

inductive Route (a : Automaton) (input : Text) :
    Configuration → List Nat → List Configuration → Configuration → Prop where
  | stop : Route a input c [] [c] c
  | go : Leads a input c edge d → Route a input d edges passed last →
      Route a input c (edge :: edges) (c :: passed) last

def Reaches (a : Automaton) (input : Text) (c : Configuration) : Prop :=
  ∃ edges passed last, Route a input c edges passed last ∧ Accepts a input last

def Accepting (a : Automaton) (input : Text) (c : Configuration) (edges : List Nat)
    (last : Configuration) : Prop :=
  ∃ passed, Route a input c edges passed last ∧ passed.Nodup ∧ Accepts a input last

-- Outgoing lists ascend. At the first difference the earlier edge comes first, and going on comes
-- before stopping.
inductive Before : List Nat → List Nat → Prop where
  | longer : Before (edge :: edges) []
  | earlier {edge other : Nat} : edge < other → Before (edge :: edges) (other :: others)
  | later : Before edges others → Before (edge :: edges) (edge :: others)

structure First (a : Automaton) (input : Text) (c : Configuration) (edges : List Nat)
    (last : Configuration) : Prop where
  accepting : Accepting a input c edges last
  least : ∀ others stop, Accepting a input c others stop → others = edges ∨ Before edges others

structure Candidate (anchors : Anchors) (input : Text) (offset start : Nat) : Prop where
  boundary : Text.isBoundary input start = true
  notBelow : offset ≤ start
  fixed : anchors.fixedStart = true → start = 0

theorem Before.append {edges others : List Nat} (front : List Nat) (before : Before edges others) :
    Before (front ++ edges) (front ++ others) := by
  induction front with
  | nil => exact before
  | cons edge front ih => exact .later ih

theorem Before.asymm {edges others : List Nat} (before : Before edges others) : ¬ Before others edges := by
  induction before with
  | longer => intro back; cases back
  | earlier less =>
    intro back
    cases back with
    | earlier more => omega
    | later _ => omega
  | later _ ih =>
    intro back
    cases back with
    | earlier less => omega
    | later back => exact ih back

theorem First.unique (one : First a input c edges last) (other : First a input c edges' last') : edges = edges' := by
  rcases one.least _ _ other.accepting with same | before
  · exact same.symm
  · rcases other.least _ _ one.accepting with same | back
    · exact same
    · exact (before.asymm back).elim

theorem Route.consumes (route : Route a input c edges passed last) (here : Text.from? input c.position = some rest) :
    ∃ after, rest = (edges.filterMap a.edge?).flatMap (·.text) ++ after ∧
      last.position = c.position + Text.size ((edges.filterMap a.edge?).flatMap (·.text)) := by
  induction route generalizing rest with
  | stop => exact ⟨rest, by simp, by simp⟩
  | go leads _ ih =>
    cases leads with
    | @along e _ at_edge occurs =>
      obtain ⟨later, rfl⟩ := (Text.occursAt_iff here).mp occurs
      obtain ⟨after, rfl, ends⟩ := ih (Text.from?_advance here)
      refine ⟨after, by simp [at_edge], ?_⟩
      simp only [ends, Configuration.after, List.filterMap_cons, at_edge, List.flatMap_cons, Text.size_append]
      omega

theorem Route.sliced (route : Route a input c edges passed last) (here : Text.from? input c.position = some rest) :
    Text.slice? input c.position last.position = some ((edges.filterMap a.edge?).flatMap (·.text)) := by
  obtain ⟨after, rfl, ends⟩ := route.consumes here
  rw [ends]
  exact Text.slice?_of_from? here

theorem edges_of_named {edges : List Nat} {taken : List Edge} (named : edges.map a.edge? = taken.map some) :
    edges.filterMap a.edge? = taken := by
  have mapped := congrArg (List.filterMap id) named
  simpa [List.filterMap_map, Function.comp_def] using mapped

theorem Route.cut (route : Route a input c edges passed last) (member : x ∈ passed) :
    ∃ front back edges', passed = front ++ back ∧ Route a input x edges' back last := by
  induction route with
  | stop =>
    cases List.mem_singleton.mp member
    exact ⟨[], _, [], rfl, .stop⟩
  | @go c edge d edges passed last leads rest ih =>
    rcases List.mem_cons.mp member with rfl | later
    · exact ⟨[], _, _, rfl, .go leads rest⟩
    · obtain ⟨front, back, edges', rfl, route⟩ := ih later
      exact ⟨c :: front, back, edges', rfl, route⟩

end PatternMachine.Search
