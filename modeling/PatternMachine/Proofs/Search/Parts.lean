import PatternMachine.Proofs.Automaton.Editing
import PatternMachine.Proofs.Construction.Placement
import PatternMachine.Proofs.Search.Answers

namespace PatternMachine

namespace Placement

def here : Placement := ⟨0, [], 0⟩

theorem here_state (id : StateId) : here.state id = id := by
  unfold state
  split
  · symm
    assumption
  · rfl

theorem here_edge (e : Edge) : here.edge e = e := by
  unfold edge
  rw [here_state, here_state]
  simp [groups, here]

def configuration (p : Placement) (c : Search.Configuration) : Search.Configuration := ⟨p.state c.state, c.position⟩

theorem configuration_injective (p : Placement) : Function.Injective p.configuration := by
  intro c d same
  obtain ⟨state, position⟩ := c
  obtain ⟨state', position'⟩ := d
  simp only [configuration, Search.Configuration.mk.injEq] at same ⊢
  exact ⟨p.state_injective same.1, same.2⟩

end Placement

namespace Search

theorem leads_iff_edge {a : Automaton} (sealed : a.Sealed) {input : Text} {c d : Configuration} {edge : Nat} :
    Leads a input c edge d ↔ ∃ e, a.edge? edge = some e ∧ e.origin = c.state ∧
      Text.occursAt input c.position e.text = true ∧ d = c.after e := by
  constructor
  · intro leads
    cases leads with
    | along listed at_edge occurs =>
      obtain ⟨_, _, at_edge', origin⟩ := Automaton.mem_outgoingIds.mp listed
      cases at_edge.symm.trans at_edge'
      exact ⟨_, at_edge, origin, occurs, rfl⟩
  · intro along
    obtain ⟨e, at_edge, origin, occurs, rfl⟩ := along
    have live : c.state < a.states.length := origin ▸ (sealed.edges_live e (List.mem_of_getElem? at_edge)).1
    exact .along (Automaton.mem_outgoingIds.mpr ⟨live, e, at_edge, origin⟩) at_edge occurs

theorem Route.ends {a : Automaton} (sealed : a.Sealed) {input : Text} {c last : Configuration} {edges : List Nat}
    {passed : List Configuration} (route : Route a input c edges passed last) :
    (edges = [] ∧ last = c) ∨ ∃ e ∈ a.edges, last.state = e.destination := by
  induction route with
  | stop => exact .inl ⟨rfl, rfl⟩
  | go first _ ih =>
    obtain ⟨e, at_edge, _, _, rfl⟩ := (leads_iff_edge sealed).mp first
    rcases ih with ⟨_, rfl⟩ | entered
    · exact .inr ⟨e, List.mem_of_getElem? at_edge, rfl⟩
    · exact .inr entered

def Arrives (a : Automaton) (input : Text) (c : Configuration) (edges : List Nat) (passed : List Configuration)
    (last : Configuration) : Prop :=
  Route a input c edges passed last ∧ Accepts a input last

def ArrivesIn (part : Automaton) (p : Placement) (offset : Nat) (input : Text) (c : Configuration) (edges : List Nat)
    (passed : List Configuration) (last : Configuration) : Prop :=
  ∃ edges' passed' last', Arrives part input c edges' passed' last' ∧ edges = edges'.map (· + offset) ∧
    passed = passed'.map p.configuration ∧ last = p.configuration last'

theorem accepting_iff {a : Automaton} {input : Text} {c last : Configuration} {edges : List Nat} :
    Accepting a input c edges last ↔ ∃ passed, passed.Nodup ∧ Arrives a input c edges passed last := by
  constructor
  · intro accepting
    obtain ⟨passed, route, distinct, accepts⟩ := accepting
    exact ⟨passed, distinct, route, accepts⟩
  · intro arrives
    obtain ⟨passed, distinct, route, accepts⟩ := arrives
    exact ⟨passed, route, distinct, accepts⟩

-- A copy of `part`, its edges in one piece from `offset` on. Once entered, it is not left again.
structure Part (whole part : Automaton) (p : Placement) (offset : Nat) : Prop where
  whole_sealed : whole.Sealed
  part_sealed : part.Sealed
  anchors : whole.anchors = part.anchors
  start : whole.start = p.state part.start
  laid : ∀ edge e, part.edge? edge = some e → whole.edge? (edge + offset) = some (p.edge e)
  closed : ∀ entry ∈ part.edges, ∀ edge e, whole.edge? edge = some e → e.origin = p.state entry.destination →
    ∃ edge' e', part.edge? edge' = some e' ∧ edge = edge' + offset ∧ e = p.edge e'
  terminal : ∀ entry ∈ part.edges,
    whole.isTerminal (p.state entry.destination) = part.isTerminal entry.destination

namespace Part

variable {whole part : Automaton} {p : Placement} {offset : Nat} {input : Text} {c d last : Configuration}
  {edge : Nat} {edges : List Nat} {passed : List Configuration}

theorem leads (copy : Part whole part p offset) (leads : Leads part input c edge d) :
    Leads whole input (p.configuration c) (edge + offset) (p.configuration d) := by
  obtain ⟨e, at_edge, origin, occurs, rfl⟩ := (leads_iff_edge copy.part_sealed).mp leads
  exact (leads_iff_edge copy.whole_sealed).mpr ⟨p.edge e, copy.laid _ e at_edge, congrArg p.state origin, occurs, rfl⟩

theorem leads_back (copy : Part whole part p offset) {e : Edge} (at_edge : part.edge? edge = some e)
    (leads : Leads whole input (p.configuration c) (edge + offset) d) :
    Leads part input c edge (c.after e) ∧ d = p.configuration (c.after e) := by
  obtain ⟨_, at_copy, origin, occurs, rfl⟩ := (leads_iff_edge copy.whole_sealed).mp leads
  cases at_copy.symm.trans (copy.laid edge e at_edge)
  exact ⟨(leads_iff_edge copy.part_sealed).mpr ⟨e, at_edge, p.state_injective origin, occurs, rfl⟩, rfl⟩

theorem route (copy : Part whole part p offset) (route : Route part input c edges passed last) :
    Route whole input (p.configuration c) (edges.map (· + offset)) (passed.map p.configuration)
      (p.configuration last) := by
  induction route with
  | stop => exact .stop
  | go first _ ih => exact .go (copy.leads first) ih

theorem path (copy : Part whole part p offset) (route : Route part input c edges passed last) :
    (edges.map (· + offset)).filterMap whole.edge? = (edges.filterMap part.edge?).map p.edge := by
  induction route with
  | stop => rfl
  | @go c edge d edges passed last first _ ih =>
    obtain ⟨e, at_edge, _⟩ := (leads_iff_edge copy.part_sealed).mp first
    rw [List.map_cons, List.filterMap_cons, List.filterMap_cons, at_edge, copy.laid edge e at_edge, ih]
    rfl

theorem accepts (copy : Part whole part p offset)
    (terminal : whole.isTerminal (p.state c.state) = part.isTerminal c.state) :
    Accepts whole input (p.configuration c) ↔ Accepts part input c := by
  have same : whole.isTerminal (p.configuration c).state = part.isTerminal c.state := terminal
  unfold Accepts
  rw [copy.anchors, same]
  rfl

theorem arrives (copy : Part whole part p offset) (arrives : Arrives part input c edges passed last)
    (begins : edges = [] → whole.isTerminal (p.state c.state) = part.isTerminal c.state) :
    Arrives whole input (p.configuration c) (edges.map (· + offset)) (passed.map p.configuration)
      (p.configuration last) := by
  obtain ⟨route, accepts⟩ := arrives
  refine ⟨copy.route route, (copy.accepts ?_).mpr accepts⟩
  rcases route.ends copy.part_sealed with ⟨rfl, rfl⟩ | ⟨e, entered, same⟩
  · exact begins rfl
  · rw [same]
    exact copy.terminal e entered

theorem arrives_cons (copy : Part whole part p offset) {e : Edge} (at_edge : part.edge? edge = some e)
    (first : Leads whole input (p.configuration c) (edge + offset) d)
    (onward : d = p.configuration (c.after e) → ArrivesIn part p offset input (c.after e) edges passed last) :
    ArrivesIn part p offset input c ((edge + offset) :: edges) (p.configuration c :: passed) last := by
  obtain ⟨first', same⟩ := copy.leads_back at_edge first
  obtain ⟨edges', passed', last', ⟨route, accepts⟩, rfl, rfl, rfl⟩ := onward same
  exact ⟨edge :: edges', c :: passed', last', ⟨.go first' route, accepts⟩, rfl, rfl, rfl⟩

theorem arrives_back (copy : Part whole part p offset) {entry : Edge} (entered : entry ∈ part.edges)
    (inside : c.state = entry.destination) (arrives : Arrives whole input (p.configuration c) edges passed last) :
    ArrivesIn part p offset input c edges passed last := by
  obtain ⟨route, accepts⟩ := arrives
  generalize placed : p.configuration c = here at route
  induction route generalizing c entry with
  | stop =>
    subst placed
    have terminal := copy.terminal entry entered
    rw [← inside] at terminal
    exact ⟨[], [c], c, ⟨.stop, (copy.accepts terminal).mp accepts⟩, rfl, rfl, rfl⟩
  | go first _ ih =>
    subst placed
    obtain ⟨e, at_edge, origin, _⟩ := (leads_iff_edge copy.whole_sealed).mp first
    obtain ⟨edge', e', at_edge', rfl, rfl⟩ := copy.closed entry entered _ e at_edge (inside ▸ origin)
    exact copy.arrives_cons at_edge' first fun same => ih (List.mem_of_getElem? at_edge') rfl accepts same.symm

end Part

end Search
end PatternMachine
