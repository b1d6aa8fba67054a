import PatternMachine.Proofs.Automaton.Editing
import PatternMachine.Proofs.Construction.Loop
import Mathlib.Data.Set.Function
import Mathlib.Order.Bounds.Defs

namespace PatternMachine

theorem StateId.renumbered_strictMonoOn (gone : StateId) : StrictMonoOn (StateId.renumbered · gone) {id | id ≠ gone} := by
  rintro id (different : id ≠ gone) other (different' : other ≠ gone) before
  show id.renumbered gone < other.renumbered gone
  unfold StateId.renumbered
  dsimp only [StateId] at *
  split <;> split <;> omega

theorem StateId.renumbered_bijOn {gone : StateId} {count : Nat} (live : gone < count + 1) :
    Set.BijOn (StateId.renumbered · gone) {id | id < count + 1 ∧ id ≠ gone} {id | id < count} := by
  refine ⟨?_, (StateId.renumbered_strictMonoOn gone).injOn.mono fun id place => place.2, ?_⟩
  · rintro id ⟨inside, different⟩
    show id.renumbered gone < count
    unfold StateId.renumbered
    dsimp only [StateId] at *
    split <;> omega
  · rintro id (inside : id < count)
    rcases Nat.lt_or_ge id gone with before | beyond
    · exact ⟨id, ⟨Nat.lt_succ_of_lt inside, Nat.ne_of_lt before⟩, StateId.renumbered_of_lt before⟩
    · have after : gone < id + 1 := Nat.lt_succ_of_le beyond
      exact ⟨id + 1, ⟨Nat.succ_lt_succ inside, Nat.ne_of_gt after⟩, StateId.renumbered_of_gt after⟩

theorem Edge.touches_iff {e : Edge} {id : StateId} : e.touches id = true ↔ e.origin = id ∨ e.destination = id := by
  simp [Edge.touches]

namespace Arena

variable {a b : Arena} {id : StateId}

-- An arena less one of its states. The others keep their order and all that is known of them but their ids, and every
-- edge follows its two ends.
structure Reduced (a : Arena) (gone : StateId) (b : Arena) : Prop where
  fewer : b.states.length + 1 = a.states.length
  onto : Set.BijOn (StateId.renumbered · gone) {id | id < a.states.length ∧ id ≠ gone} {id | id < b.states.length}
  ordered : StrictMonoOn (StateId.renumbered · gone) {id | id < a.states.length ∧ id ≠ gone}
  states : ∀ id, id ≠ gone →
    b.states[id.renumbered gone]? = a.states[id]?.map fun state => { state with id := id.renumbered gone }
  edges : b.edges = a.edges.map (Edge.moved (StateId.renumbered · gone))

theorem removeState_reduced (sound : Sound a) (removed : a.removeState id = .ok b) : Reduced a id b := by
  obtain ⟨live, _, rfl⟩ := removeState_ok.mp removed
  have fewer : (a.states.eraseIdx id).length + 1 = a.states.length := by
    rw [List.length_eraseIdx, if_pos live]
    exact Nat.sub_add_cancel (Nat.one_le_of_lt live)
  have kept : ∀ other, other ≠ id → (a.states.eraseIdx id)[other.renumbered id]? = a.states[other]? := by
    intro other different
    rcases Nat.lt_or_gt_of_ne different with before | after
    · rw [StateId.renumbered_of_lt before, List.getElem?_eraseIdx_of_lt before]
    · have bound : id ≤ other - 1 := Nat.le_sub_one_of_lt after
      have restored : other - 1 + 1 = other := Nat.sub_add_cancel (Nat.one_le_of_lt after)
      rw [StateId.renumbered_of_gt after, List.getElem?_eraseIdx_of_ge bound, restored]
  refine ⟨?_, ?_, fun _ place _ place' => StateId.renumbered_strictMonoOn id place.2 place'.2,
    fun other different => ?_, rfl⟩
  · rw [List.length_map]
    exact fewer
  · rw [List.length_map, ← fewer]
    exact StateId.renumbered_bijOn (fewer ▸ live)
  · rw [List.getElem?_map, kept other different]
    cases found : a.states[other]? with
    | none => rfl
    | some state =>
      obtain ⟨inside, same⟩ := List.getElem?_eq_some_iff.mp found
      have own : state.id = other := same ▸ sound.dense other inside
      rw [Option.map_some, Option.map_some, own]

theorem requireUnreferenced_error {fault : ArenaFault} : a.requireUnreferenced id = .error fault ↔
    ∃ index, fault = .stillReferenced id index ∧ IsLeast {index | ∃ e, a.edges[index]? = some e ∧ e.touches id = true} index := by
  have least : ∀ index, a.edges.findIdx? (·.touches id) = some index ↔
      IsLeast {index | ∃ e, a.edges[index]? = some e ∧ e.touches id = true} index := by
    intro index
    rw [List.findIdx?_eq_some_iff_getElem]
    constructor
    · rintro ⟨inside, touches, silent⟩
      refine ⟨⟨_, List.getElem?_eq_getElem inside, touches⟩, ?_⟩
      rintro other ⟨e, found, touches'⟩
      obtain ⟨inside', rfl⟩ := List.getElem?_eq_some_iff.mp found
      by_contra before
      exact silent other (Nat.lt_of_not_le before) touches'
    · rintro ⟨⟨e, found, touches⟩, first⟩
      obtain ⟨inside, rfl⟩ := List.getElem?_eq_some_iff.mp found
      refine ⟨inside, touches, fun other before touches' => ?_⟩
      have present : ∃ e, a.edges[other]? = some e ∧ e.touches id = true :=
        ⟨_, List.getElem?_eq_getElem (Nat.lt_trans before inside), touches'⟩
      exact Nat.not_le.mpr before (first present)
  simp only [← least]
  unfold requireUnreferenced
  cases found : a.edges.findIdx? (·.touches id) <;> simp [eq_comm]

theorem removeState_error {fault : ArenaFault} : a.removeState id = .error fault ↔
    (a.states.length ≤ id ∧ fault = .missingState id a.states.length) ∨
      id < a.states.length ∧ ∃ index, fault = .stillReferenced id index ∧
        IsLeast {index | ∃ e, a.edges[index]? = some e ∧ e.touches id = true} index := by
  rw [← requireUnreferenced_error]
  by_cases live : id < a.states.length
  · cases unreferenced : a.requireUnreferenced id <;>
      simp [removeState, requireLive, isLive, live, unreferenced, bind, Except.bind, pure, Except.pure]
  · simp [removeState, requireLive, isLive, live, Nat.not_lt.mp live, bind, Except.bind, eq_comm]

theorem removeState_refused : (∃ fault, a.removeState id = .error fault) ↔
    a.states.length ≤ id ∨ ∃ e ∈ a.edges, e.origin = id ∨ e.destination = id := by
  cases result : a.removeState id with
  | ok b =>
    obtain ⟨live, untouched, _⟩ := removeState_ok.mp result
    have kept : ¬(a.states.length ≤ id ∨ ∃ e ∈ a.edges, e.origin = id ∨ e.destination = id) := by
      rintro (missing | ⟨e, member, origin | destination⟩)
      · exact Nat.not_le.mpr live missing
      · exact (untouched e member).1 origin
      · exact (untouched e member).2 destination
    simp [kept]
  | error fault =>
    refine iff_of_true ⟨fault, rfl⟩ ?_
    rcases removeState_error.mp result with ⟨missing, _⟩ | ⟨_, _, _, ⟨e, found, touches⟩, _⟩
    · exact .inl missing
    · exact .inr ⟨e, List.mem_of_getElem? found, Edge.touches_iff.mp touches⟩

-- Of any arena that operations come to, faults among them or not: a state is removed exactly where it is there and no
-- edge touches it, and else the arena stays as it is.
theorem removeState_renumbers (operations : List Operation) (id : StateId) :
    let a := edited .empty operations
    ((∃ fault, a.removeState id = .error fault) ↔
      a.states.length ≤ id ∨ ∃ e ∈ a.edges, e.origin = id ∨ e.destination = id) ∧
    (∀ fault, a.removeState id = .error fault ↔
      (a.states.length ≤ id ∧ fault = .missingState id a.states.length) ∨
        id < a.states.length ∧ ∃ index, fault = .stillReferenced id index ∧
          IsLeast {index | ∃ e, a.edges[index]? = some e ∧ (e.origin = id ∨ e.destination = id)} index) ∧
    (∀ fault, a.removeState id = .error fault → (Operation.removeState id).edit.run a = .error (.refused fault) a) ∧
    ∀ b, a.removeState id = .ok b → (Operation.removeState id).edit.run a = .ok () b ∧ Reduced a id b := by
  intro a
  have sound : Sound a := (edited_grown .empty operations).sound
  refine ⟨removeState_refused, fun fault => ?_, fun fault refused => edit_refused sound (.removeState id) refused,
    fun b removed => ⟨edit_performed sound (.removeState id) removed, removeState_reduced sound removed⟩⟩
  have refused := @removeState_error a id fault
  simpa only [Edge.touches_iff] using refused

def spared : List Operation :=
  [.addState, .addState, .addState, .addState, .markTerminal 3, .addEdge ⟨0, 2, ['a'], [0]⟩, .addEdge ⟨2, 9, [], []⟩,
    .addEdge ⟨3, 3, ['b'], []⟩]

theorem removeState_renumbers_spared :
    let a := edited .empty spared
    let b : Arena := ⟨[⟨0, false⟩, ⟨1, false⟩, ⟨2, true⟩], [⟨0, 1, ['a'], [0]⟩, ⟨2, 2, ['b'], []⟩]⟩
    a.removeState 1 = .ok b ∧ (Operation.removeState 1).edit.run a = .ok () b ∧ Reduced a 1 b ∧
      a.removeState 3 = .error (.stillReferenced 3 1) ∧
      (Operation.removeState 3).edit.run a = .error (.refused (.stillReferenced 3 1)) a := by
  intro a b
  have removed : a.removeState 1 = .ok b := rfl
  have refused : a.removeState 3 = .error (.stillReferenced 3 1) := rfl
  obtain ⟨ran, reduced⟩ := (removeState_renumbers spared 1).2.2.2 b removed
  exact ⟨removed, ran, reduced, refused, (removeState_renumbers spared 3).2.2.1 _ refused⟩

end Arena
end PatternMachine
