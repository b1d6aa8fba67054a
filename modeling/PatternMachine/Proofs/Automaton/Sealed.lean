import PatternMachine.Automaton.Arena

namespace PatternMachine

theorem StateId.renumbered_of_lt {id removed : StateId} (before : id < removed) : id.renumbered removed = id := by
  unfold StateId.renumbered
  rw [if_neg (Nat.not_lt.mpr (Nat.le_of_lt before))]

theorem StateId.renumbered_of_gt {id removed : StateId} (after : removed < id) :
    id.renumbered removed = id - 1 := if_pos after

namespace Arena

theorem requireLive_ok {a : Arena} {id : StateId} : a.requireLive id = .ok () ↔ id < a.states.length := by
  unfold requireLive isLive
  by_cases live : id < a.states.length <;> simp [live]

theorem requireUnreferenced_ok {a : Arena} {id : StateId} :
    a.requireUnreferenced id = .ok () ↔ ∀ e ∈ a.edges, e.origin ≠ id ∧ e.destination ≠ id := by
  unfold requireUnreferenced
  cases found : a.edges.findIdx? (·.touches id) with
  | none => simpa [Edge.touches] using found
  | some edge =>
    obtain ⟨inside, touches, _⟩ := List.findIdx?_eq_some_iff_getElem.mp found
    constructor
    · intro ok
      cases ok
    · intro apart
      obtain ⟨origin, destination⟩ := apart _ (List.getElem_mem inside)
      simp [Edge.touches, origin, destination] at touches

theorem addEdge_ok {a b : Arena} {edge : Edge} :
    a.addEdge edge = .ok b ↔ edge.origin < a.states.length ∧ edge.destination < a.states.length ∧
      b = { a with edges := a.edges ++ [edge] } := by
  by_cases origin : edge.origin < a.states.length <;> by_cases destination : edge.destination < a.states.length <;>
    simp [addEdge, requireLive, isLive, origin, destination, bind, Except.bind, pure, Except.pure, eq_comm]

theorem retargetIncoming_ok {a b : Arena} {source target : StateId} :
    a.retargetIncoming source target = .ok b ↔ target < a.states.length ∧
      b = { a with edges := a.edges.map fun e =>
        if e.destination == source then { e with destination := target } else e } := by
  by_cases live : target < a.states.length <;>
    simp [retargetIncoming, requireLive, isLive, live, bind, Except.bind, pure, Except.pure]
  exact eq_comm

theorem removeState_ok {a b : Arena} {id : StateId} :
    a.removeState id = .ok b ↔ id < a.states.length ∧
      (∀ e ∈ a.edges, e.origin ≠ id ∧ e.destination ≠ id) ∧
      b = {
        states := (a.states.eraseIdx id).map fun s => { s with id := s.id.renumbered id }
        edges := a.edges.map fun e =>
          { e with origin := e.origin.renumbered id, destination := e.destination.renumbered id } } := by
  rw [← requireLive_ok, ← requireUnreferenced_ok]
  cases live : a.requireLive id <;> cases unreferenced : a.requireUnreferenced id <;>
    simp [removeState, live, unreferenced, bind, Except.bind, pure, Except.pure, eq_comm]

theorem markTerminal_ok {a b : Arena} {id : StateId} :
    a.markTerminal id = .ok b ↔ id < a.states.length ∧
      b = { a with states := a.states.modify id fun s => { s with terminal := true } } := by
  by_cases live : id < a.states.length <;>
    simp [markTerminal, requireLive, isLive, live, bind, Except.bind, pure, Except.pure, eq_comm]

theorem finish_ok {a : Arena} {start : StateId} {anchors : Anchors} {groupCount : Nat} {sealed : Automaton} :
    a.finish start anchors groupCount = .ok sealed ↔
      start < a.states.length ∧ sealed = ⟨a.states, a.edges, start, anchors, groupCount⟩ := by
  by_cases live : start < a.states.length <;>
    simp [finish, requireLive, isLive, live, bind, Except.bind, pure, Except.pure, eq_comm]

inductive Operation where
  | addState
  | addEdge (edge : Edge)
  | retargetIncoming (source target : StateId)
  | removeState (id : StateId)
  | markTerminal (id : StateId)

def perform (a : Arena) : Operation → Except ArenaFault Arena
  | .addState => .ok a.addState
  | .addEdge edge => a.addEdge edge
  | .retargetIncoming source target => a.retargetIncoming source target
  | .removeState id => a.removeState id
  | .markTerminal id => a.markTerminal id

-- A fault gives no arena, so the operations after it find the one before it.
inductive Grown : Arena → Prop where
  | empty : Grown .empty
  | step : Grown a → a.perform operation = .ok b → Grown b

structure Sound (a : Arena) : Prop where
  dense : ∀ i (inside : i < a.states.length), a.states[i].id = i
  live : ∀ e ∈ a.edges, e.origin < a.states.length ∧ e.destination < a.states.length

theorem empty_sound : Sound .empty where
  dense := by intro i inside; cases inside
  live := by intro e member; cases member

theorem addState_sound (sound : Sound a) : Sound a.addState where
  dense := by
    intro i inside
    simp only [addState, List.length_append, List.length_singleton] at inside
    by_cases old : i < a.states.length
    · simpa [addState, List.getElem_append_left old] using sound.dense i old
    · have last : i = a.states.length := by omega
      subst last
      simp [addState, nextId]
  live := by
    intro e member
    obtain ⟨origin, destination⟩ := sound.live e member
    simp only [addState, List.length_append, List.length_singleton]
    exact ⟨Nat.lt_succ_of_lt origin, Nat.lt_succ_of_lt destination⟩

theorem addEdge_sound (sound : Sound a) (added : a.addEdge edge = .ok b) : Sound b := by
  obtain ⟨origin, destination, rfl⟩ := addEdge_ok.mp added
  refine ⟨sound.dense, ?_⟩
  intro e member
  rcases List.mem_append.mp member with old | new
  · exact sound.live e old
  · cases List.mem_singleton.mp new
    exact ⟨origin, destination⟩

theorem retargetIncoming_sound (sound : Sound a) (moved : a.retargetIncoming source target = .ok b) : Sound b := by
  obtain ⟨target, rfl⟩ := retargetIncoming_ok.mp moved
  refine ⟨sound.dense, ?_⟩
  intro e member
  obtain ⟨old, present, rfl⟩ := List.mem_map.mp member
  have bounds := sound.live old present
  split
  · exact ⟨bounds.1, target⟩
  · exact bounds

theorem removeState_sound {id : StateId} (sound : Sound a) (removed : a.removeState id = .ok b) : Sound b := by
  obtain ⟨live, unreferenced, rfl⟩ := removeState_ok.mp removed
  have fewer : (a.states.eraseIdx id).length = a.states.length - 1 := by
    rw [List.length_eraseIdx, if_pos live]
  refine ⟨?_, ?_⟩
  · intro i inside
    simp only [List.length_map, fewer] at inside
    simp only [List.getElem_map, List.getElem_eraseIdx]
    split
    · rename_i before
      rw [sound.dense, StateId.renumbered_of_lt before]
    · rename_i beyond
      rw [sound.dense, StateId.renumbered_of_gt (Nat.lt_succ_of_le (Nat.le_of_not_lt beyond))]
      rfl
  · intro e member
    obtain ⟨old, present, rfl⟩ := List.mem_map.mp member
    obtain ⟨origin, destination⟩ := sound.live old present
    obtain ⟨apart, apart'⟩ := unreferenced old present
    simp only [List.length_map, fewer, StateId.renumbered]
    dsimp only [StateId] at *
    constructor <;> split <;> omega

theorem markTerminal_sound {id : StateId} (sound : Sound a) (marked : a.markTerminal id = .ok b) : Sound b := by
  obtain ⟨_, rfl⟩ := markTerminal_ok.mp marked
  refine ⟨?_, by simpa using sound.live⟩
  intro i inside
  have old := sound.dense i (by simpa using inside)
  simp only [List.getElem_modify]
  split <;> simpa using old

theorem perform_sound (sound : Sound a) (ran : a.perform operation = .ok b) : Sound b := by
  cases operation with
  | addState => cases ran; exact addState_sound sound
  | addEdge edge => exact addEdge_sound sound ran
  | retargetIncoming source target => exact retargetIncoming_sound sound ran
  | removeState id => exact removeState_sound sound ran
  | markTerminal id => exact markTerminal_sound sound ran

section

variable {a b : Arena} (grown : Grown a)
include grown

theorem Grown.addState : Grown a.addState :=
  have ran : a.perform .addState = .ok a.addState := rfl
  .step grown ran

theorem Grown.addEdge {edge : Edge} (added : a.addEdge edge = .ok b) : Grown b :=
  have ran : a.perform (.addEdge edge) = .ok b := added
  .step grown ran

theorem Grown.retargetIncoming {source target : StateId} (moved : a.retargetIncoming source target = .ok b) : Grown b :=
  have ran : a.perform (.retargetIncoming source target) = .ok b := moved
  .step grown ran

theorem Grown.removeState {id : StateId} (removed : a.removeState id = .ok b) : Grown b :=
  have ran : a.perform (.removeState id) = .ok b := removed
  .step grown ran

end

theorem Grown.sound (grown : Grown a) : Sound a := by
  induction grown with
  | empty => exact empty_sound
  | step _ ran ih => exact perform_sound ih ran

theorem Grown.performAll (grown : Grown a) (operations : List Operation)
    (ran : operations.foldlM perform a = .ok b) : Grown b := by
  induction operations generalizing a with
  | nil => cases ran; exact grown
  | cons operation later ih =>
    cases first : a.perform operation with
    | error fault => simp [first, bind, Except.bind] at ran
    | ok next =>
      rw [List.foldlM_cons, first] at ran
      exact ih (.step grown first) ran

end Arena

namespace Automaton

def Sealed (a : Automaton) : Prop :=
  ∃ arena start anchors groupCount, Arena.Grown arena ∧ arena.finish start anchors groupCount = .ok a

theorem Sealed.start_live {a : Automaton} (sealed : a.Sealed) : a.start < a.states.length := by
  obtain ⟨arena, start, anchors, groupCount, _, finished⟩ := sealed
  obtain ⟨live, rfl⟩ := Arena.finish_ok.mp finished
  exact live

theorem Sealed.edges_live {a : Automaton} (sealed : a.Sealed) :
    ∀ e ∈ a.edges, e.origin < a.states.length ∧ e.destination < a.states.length := by
  obtain ⟨arena, start, anchors, groupCount, grown, finished⟩ := sealed
  obtain ⟨_, rfl⟩ := Arena.finish_ok.mp finished
  exact grown.sound.live

end Automaton
end PatternMachine
