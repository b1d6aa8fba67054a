import PatternMachine.Proofs.Construction.Layout
import PatternMachine.Proofs.Pattern.Alternatives

namespace PatternMachine

structure Placement where
  -- How many states come between the start and the rest of the layout.
  states : Nat
  around : List Nat
  captures : Nat

namespace Placement

variable (p : Placement)

def state (id : StateId) : StateId := if id = 0 then 0 else id + p.states
def groups (groups : List Nat) : List Nat := p.around ++ groups.map (· + p.captures)
def edge (e : Edge) : Edge := ⟨p.state e.origin, p.state e.destination, e.text, p.groups e.groups⟩
def strand (s : Strand) : Strand := ⟨s.edges.map p.edge, p.state s.stop, s.next + p.states, s.pending⟩
def sheaf (sheaf : Sheaf) : Sheaf := ⟨sheaf.edges.map p.edge, sheaf.stops.map p.state, sheaf.next + p.states⟩

theorem state_of_pos {id : StateId} (positive : 0 < id) : p.state id = id + p.states := if_neg (Nat.ne_of_gt positive)

theorem state_injective : Function.Injective p.state := by
  intro id other same
  unfold state at same
  dsimp only [StateId] at *
  split_ifs at same <;> omega

theorem groups_append (captures : List Nat) (capture : Option Nat) :
    p.groups captures ++ (capture.map (· + p.captures)).toList = p.groups (captures ++ capture.toList) := by
  cases capture <;> simp [groups]

theorem state_renumbered {id gone : StateId} (positive : 0 < gone) :
    p.state (id.renumbered gone) = (p.state id).renumbered (p.state gone) := by
  unfold state StateId.renumbered
  grind

theorem state_absorbed {id gone target : StateId} (positive : 0 < gone) :
    p.state (StateId.absorbed gone target id) = StateId.absorbed (p.state gone) (p.state target) (p.state id) := by
  unfold StateId.absorbed
  by_cases same : id = gone
  · rw [if_pos same, if_pos (congrArg p.state same)]
  · rw [if_neg same, if_neg fun equal => same (p.state_injective equal)]
    exact p.state_renumbered positive

theorem edge_moved {gone target : StateId} (positive : 0 < gone) (e : Edge) :
    p.edge (e.moved (StateId.absorbed gone target)) = (p.edge e).moved (StateId.absorbed (p.state gone) (p.state target)) := by
  simp [edge, Edge.moved, p.state_absorbed positive]

theorem leaves_map (edges : List Edge) (id : StateId) : Edge.leaves (edges.map p.edge) (p.state id) = Edge.leaves edges id := by
  have same : ∀ e : Edge, ((p.edge e).origin == p.state id) = (e.origin == id) := by
    intro e
    rw [Bool.eq_iff_iff, beq_iff_eq, beq_iff_eq]
    exact p.state_injective.eq_iff
  simp [Edge.leaves, Function.comp_def, same]

theorem joining (captures : List Nat) (target id : StateId) :
    p.edge (Edge.joining target captures id) = Edge.joining (p.state target) (p.groups captures) (p.state id) := rfl

end Placement

theorem eraseReps_map {f : StateId → StateId} (injective : Function.Injective f) (stops : List StateId) :
    (stops.map f).eraseReps = stops.eraseReps.map f := by
  have loop : ∀ (rest : List StateId) (id : StateId) (held : List StateId),
      List.eraseRepsBy.loop (· == ·) (f id) (rest.map f) (held.map f) =
        (List.eraseRepsBy.loop (· == ·) id rest held).map f := by
    intro rest
    induction rest with
    | nil =>
      intro id held
      simp [List.eraseRepsBy.loop]
    | cons next rest ih =>
      intro id held
      have same : (f id == f next) = (id == next) := by
        rw [Bool.eq_iff_iff, beq_iff_eq, beq_iff_eq]
        exact injective.eq_iff
      rw [List.map_cons, List.eraseRepsBy.loop, List.eraseRepsBy.loop, same]
      split
      · exact ih id held
      · exact ih next (id :: held)
  cases stops with
  | nil => rfl
  | cons id rest => exact loop rest id []

section

variable (p : Placement) {captures : List Nat} {fork first next : StateId} {s : Strand}

theorem loopBack_placed {stops : List StateId} {edges : List Edge} (fork_lt : fork < first) (next_ge : first ≤ next)
    (inside : ∀ id ∈ stops, id = fork ∨ first ≤ id ∧ id < next)
    (distinct : stops.Pairwise fun id other => id = other → id = fork) :
    loopBack (p.groups captures) (p.state fork) (stops.map p.state) (edges.map p.edge) (next + p.states) =
      ((loopBack captures fork stops edges next).1.map p.edge, (loopBack captures fork stops edges next).2 + p.states) := by
  induction count : stops.length generalizing stops edges next with
  | zero =>
    cases List.eq_nil_of_length_eq_zero count
    rw [List.map_nil, loopBack, loopBack]
  | succ n ih =>
    cases stops with
    | nil => cases count
    | cons id later =>
      have shorter : later.length = n := Nat.succ.inj count
      have inside' : ∀ id ∈ later, id = fork ∨ first ≤ id ∧ id < next :=
        fun id member => inside id (List.mem_cons_of_mem _ member)
      obtain ⟨different, distinct'⟩ := List.pairwise_cons.mp distinct
      rw [List.map_cons, loopBack, loopBack]
      by_cases apart : id = fork
      · rw [if_pos apart, if_pos (congrArg p.state apart)]
        exact ih next_ge inside' distinct' shorter
      have other : ∀ id' ∈ later, id' ≠ id := fun id' member equal => apart (different id' member equal.symm)
      have apart' : p.state id ≠ p.state fork := fun same => apart (p.state_injective same)
      rw [if_neg apart, if_neg apart', p.leaves_map]
      split
      · have laid := @ih next later (edges ++ [Edge.joining fork captures id]) next_ge inside' distinct' shorter
        rw [List.map_append, List.map_singleton, p.joining] at laid
        exact laid
      · obtain ⟨first_le, lt_next⟩ := (inside id List.mem_cons_self).resolve_left apart
        have fork_lt_id : fork < id := Nat.lt_of_lt_of_le fork_lt first_le
        have positive : 0 < id := Nat.zero_lt_of_lt fork_lt_id
        have laid := @ih (next - 1) (later.map (·.renumbered id)) (edges.map (Edge.moved (StateId.absorbed id fork)))
          (Nat.le_sub_one_of_lt (Nat.lt_of_le_of_lt first_le lt_next))
          (inside_renumbered fork_lt first_le lt_next other inside') (distinct_renumbered fork_lt_id other distinct')
          (by simpa using shorter)
        have count : next - 1 + p.states = next + p.states - 1 :=
          (Nat.sub_add_comm (Nat.zero_lt_of_lt lt_next)).symm
        rw [count] at laid
        simpa [Function.comp_def, p.state_renumbered positive, p.edge_moved positive] using laid

namespace Strand

theorem extend_placed (positive : 0 < s.next) (text : Text) :
    p.strand (s.extend captures text) = (p.strand s).extend (p.groups captures) text := by
  simp [Placement.strand, Strand.extend, Placement.edge, p.state_of_pos positive, Nat.add_right_comm]

theorem flush_placed (positive : 0 < s.next) :
    p.strand (s.flush captures) = (p.strand s).flush (p.groups captures) := by
  unfold Strand.flush
  by_cases settled : s.pending = []
  · rw [if_pos settled, if_pos (show (p.strand s).pending = [] from settled)]
  · rw [if_neg settled, if_neg (show ¬ (p.strand s).pending = [] from settled)]
    exact extend_placed p positive s.pending

theorem entry_placed (positive : 0 < s.next) :
    p.strand (s.entry captures fork) = (p.strand s).entry (p.groups captures) (p.state fork) := by
  unfold Strand.entry
  by_cases here : s.stop = fork
  · rw [if_pos here, if_pos (show (p.strand s).stop = p.state fork from congrArg p.state here)]
    exact extend_placed p positive []
  · have apart : (p.strand s).stop ≠ p.state fork := fun same => here (p.state_injective same)
    rw [if_neg here, if_neg apart]

theorem approach_placed (within : s.Within fork first) (starred : Bool) :
    p.strand (s.approach captures fork starred) =
      (p.strand s).approach (p.groups captures) (p.state fork) starred := by
  have positive : 0 < s.next := Nat.zero_lt_of_lt within.fork_lt_next
  cases starred with
  | false => exact flush_placed p positive
  | true =>
    have flushed : (s.flush captures).Within fork first := within.flush
    rw [Strand.approach, Strand.approach, if_pos rfl, if_pos rfl, ← flush_placed p positive]
    exact entry_placed p (Nat.zero_lt_of_lt flushed.fork_lt_next)

theorem onward_placed (s later : Strand) : p.strand (s.onward later) = (p.strand s).onward (p.strand later) := by
  simp [Placement.strand, Strand.onward]

end Strand

namespace Sheaf

theorem cons_placed (s : Strand) (later : Sheaf) : p.sheaf (.cons s later) = .cons (p.strand s) (p.sheaf later) := by
  simp [Placement.sheaf, Placement.strand, Sheaf.cons]

theorem joined_placed {sheaf : Sheaf} (positive : 0 < sheaf.next) :
    p.strand (sheaf.joined captures) = (p.sheaf sheaf).joined (p.groups captures) := by
  obtain ⟨edges, stops, next⟩ := sheaf
  match stops with
  | [only] => rfl
  | [] => simp [Sheaf.joined, Placement.strand, Placement.sheaf, p.state_of_pos positive, Nat.add_right_comm]
  | stop :: other :: stops =>
    simp [Sheaf.joined, Placement.strand, Placement.sheaf, p.state_of_pos positive, p.joining, Nat.add_right_comm,
      Function.comp_def]

theorem looped_placed {sheaf : Sheaf} (within : sheaf.Within fork first) :
    p.strand (sheaf.looped captures fork) = (p.sheaf sheaf).looped (p.groups captures) (p.state fork) := by
  obtain ⟨sublist, _⟩ := eraseReps_spec sheaf.stops
  have laid : loopBack (p.groups captures) (p.state fork) (sheaf.stops.eraseReps.map p.state) (sheaf.edges.map p.edge)
      (sheaf.next + p.states) = _ :=
    loopBack_placed p within.fork_lt within.next_ge (fun id member => within.stops id (sublist.subset member))
      (within.distinct.sublist sublist)
  unfold Sheaf.looped
  simp only [Placement.sheaf, eraseReps_map p.state_injective, laid]
  rfl

theorem close_placed {sheaf : Sheaf} (within : sheaf.Within fork first) (starred : Bool) :
    p.strand (sheaf.close captures fork starred) = (p.sheaf sheaf).close (p.groups captures) (p.state fork) starred := by
  cases starred with
  | false => exact joined_placed p (Nat.zero_lt_of_lt within.fork_lt_next)
  | true => exact looped_placed p within

end Sheaf

end

mutual
theorem Item.lay_placed (p : Placement) {captures : List Nat} {fork first : StateId} {s : Strand}
    (within : s.Within fork first) : (item : Item) →
    p.strand (item.lay captures fork s) = (item.shift p.captures).lay (p.groups captures) (p.state fork) (p.strand s)
  | .char _ false => rfl
  | .char c true => by
    have approached : p.strand (s.approach captures fork true) = _ := Strand.approach_placed p within true
    rw [Item.shift, Item.lay, Item.lay, ← approached]
    simp [Placement.strand, Strand.spin, Placement.edge]
  | .group capture body starred => by
    have approached : p.strand (s.approach captures fork starred) = _ := Strand.approach_placed p within starred
    have lt : (s.approach captures fork starred).stop < (s.approach captures fork starred).next :=
      (within.approach starred).stop_lt
    rw [Item.shift, Item.lay, Item.lay, ← approached, p.groups_append, Strand.onward_placed,
      Sheaf.close_placed p (Item.layAny_within lt body), Item.layAny_placed p lt body]
    rfl
theorem Item.layAll_placed (p : Placement) {captures : List Nat} {fork first : StateId} {s : Strand}
    (within : s.Within fork first) : (items : List Item) →
    p.strand (Item.layAll captures fork s items) =
      Item.layAll (p.groups captures) (p.state fork) (p.strand s) (Item.shiftAll p.captures items)
  | [] => rfl
  | item :: items => by
    rw [Item.layAll, Item.layAll_placed p (Item.lay_within within item) items, Item.lay_placed p within item]
    rfl
theorem Item.layAny_placed (p : Placement) {captures : List Nat} {fork next : StateId} (fork_lt : fork < next) :
    (body : List (List Item)) →
    p.sheaf (Item.layAny captures fork next body) =
      Item.layAny (p.groups captures) (p.state fork) (next + p.states) (Item.shiftAny p.captures body)
  | [] => rfl
  | branch :: body => by
    have laid : (Item.layAll captures fork (.start fork next) branch).Within fork next :=
      Item.layAll_within (.start fork_lt) branch
    have flushed : ((Item.layAll captures fork (.start fork next) branch).flush captures).Within fork next := laid.flush
    have placed : p.strand ((Item.layAll captures fork (.start fork next) branch).flush captures) =
        (Item.layAll (p.groups captures) (p.state fork) (.start (p.state fork) (next + p.states))
          (Item.shiftAll p.captures branch)).flush (p.groups captures) := by
      rw [Strand.flush_placed p (Nat.zero_lt_of_lt laid.fork_lt_next), Item.layAll_placed p (.start fork_lt) branch]
      rfl
    rw [Item.layAny, Sheaf.cons_placed, Item.layAny_placed p flushed.fork_lt_next body, placed, Item.shiftAny, Item.layAny,
      ← placed]
    rfl
end

end PatternMachine
