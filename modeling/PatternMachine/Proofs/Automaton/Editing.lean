import PatternMachine.Proofs.Automaton.Sealed

namespace PatternMachine

inductive EditFault where
  | refused (fault : ArenaFault)
  | sparse
  deriving DecidableEq

-- Both outcomes carry the arena.
abbrev Edit := EStateM EditFault Arena Unit

namespace Edit

def require (check : Arena → Except ArenaFault Unit) : Edit := do
  match check (← get) with
  | .ok () => pure ()
  | .error fault => throw (.refused fault)

def requireDense : Edit := do
  unless (← get).states.zipIdx.all fun (state, position) => state.id == position do
    throw .sparse

def after (edit : Edit) (a : Arena) : Arena :=
  match edit.run a with
  | .ok () next => next
  | .error _ next => next

end Edit

namespace Arena

def eraseState (id : StateId) (a : Arena) : Arena := { a with states := a.states.eraseIdx id }

def renumberStates (id : StateId) (a : Arena) : Arena :=
  { a with states := a.states.take id ++ (a.states.drop id).map fun s => { s with id := s.id.renumbered id } }

def renumberEdges (id : StateId) (a : Arena) : Arena :=
  { a with edges := a.edges.map fun e =>
    { e with origin := e.origin.renumbered id, destination := e.destination.renumbered id } }

def Operation.edit : Operation → Edit
  | .addState => modify Arena.addState
  | .addEdge edge => do
    Edit.require (·.requireLive edge.origin)
    Edit.require (·.requireLive edge.destination)
    modify fun a => { a with edges := a.edges ++ [edge] }
  | .retargetIncoming source target => do
    Edit.require (·.requireLive target)
    modify fun a => { a with edges := a.edges.map fun e =>
      if e.destination == source then { e with destination := target } else e }
  | .removeState id => do
    Edit.require (·.requireLive id)
    Edit.require (·.requireUnreferenced id)
    modify (eraseState id)
    modify (renumberStates id)
    modify (renumberEdges id)
    Edit.requireDense
  | .markTerminal id => do
    Edit.require (·.requireLive id)
    modify fun a => { a with states := a.states.modify id fun s => { s with terminal := true } }

-- The arena that a list of operations leaves, faults among them or not.
def edited (a : Arena) (operations : List Operation) : Arena :=
  operations.foldl (fun a operation => operation.edit.after a) a

end Arena

namespace Edit

variable {a : Arena} {edit : Edit} {result : Except ArenaFault Arena}

def Follows (edit : Edit) (a : Arena) (result : Except ArenaFault Arena) : Prop :=
  edit.run a = match result with
    | .ok next => .ok () next
    | .error fault => .error (.refused fault) a

theorem require_run (check : Arena → Except ArenaFault Unit) (a : Arena) :
    (require check).run a = match check a with
      | .ok () => .ok () a
      | .error fault => .error (.refused fault) a := by
  show (match check a with
    | .ok () => pure ()
    | .error fault => throw (.refused fault) : Edit).run a = _
  cases check a <;> rfl

theorem Follows.require (check : Arena → Except ArenaFault Unit) (follows : check a = .ok () → edit.Follows a result) :
    Edit.Follows (require check >>= fun _ => edit) a (check a >>= fun _ => result) := by
  have ran := require_run check a
  unfold Follows
  rw [EStateM.run_bind, ran]
  cases checked : check a with
  | ok => exact follows checked
  | error fault => rfl

theorem Follows.modify (change : Arena → Arena) : Edit.Follows (modify change) a (.ok (change a)) := rfl

theorem requireDense_run (dense : ∀ i (inside : i < a.states.length), a.states[i].id = i) :
    requireDense.run a = .ok () a := by
  have ordered : (a.states.zipIdx.all fun (state, position) => state.id == position) = true := by
    rw [List.all_eq_true]
    intro entry member
    obtain ⟨inside, same⟩ := List.getElem?_eq_some_iff.mp (List.mem_zipIdx_iff_getElem?.mp member)
    have found := dense entry.2 inside
    rw [same] at found
    exact beq_iff_eq.mpr found
  show (if _ then pure () else throw EditFault.sparse : Edit).run a = _
  rw [if_pos ordered]
  rfl

end Edit

namespace Arena

theorem renumberStates_erased {id : StateId} (sound : Sound a) :
    (renumberStates id (eraseState id a)).states =
      (a.states.eraseIdx id).map fun s => { s with id := s.id.renumbered id } := by
  have kept : ∀ s ∈ (a.states.eraseIdx id).take id, { s with id := s.id.renumbered id } = s := by
    intro s member
    obtain ⟨i, inside, rfl⟩ := List.mem_iff_getElem.mp member
    rw [List.length_take, Nat.lt_min] at inside
    have own : ((a.states.eraseIdx id).take id)[i].id = i := by
      rw [List.getElem_take, List.getElem_eraseIdx_of_lt _ inside.1]
      exact sound.dense i _
    have unmoved : ((a.states.eraseIdx id).take id)[i].id.renumbered id = ((a.states.eraseIdx id).take id)[i].id := by
      rw [own, StateId.renumbered_of_lt inside.1]
    rw [unmoved]
  calc (renumberStates id (eraseState id a)).states
      = (a.states.eraseIdx id).take id ++
          ((a.states.eraseIdx id).drop id).map fun s => { s with id := s.id.renumbered id } := rfl
    _ = ((a.states.eraseIdx id).take id).map (fun s => { s with id := s.id.renumbered id }) ++
          ((a.states.eraseIdx id).drop id).map fun s => { s with id := s.id.renumbered id } := by
      rw [List.map_congr_left kept, List.map_id']
    _ = (a.states.eraseIdx id).map fun s => { s with id := s.id.renumbered id } := by
      rw [← List.map_append, List.take_append_drop]

theorem edit_removeState {id : StateId} (sound : Sound a) :
    (Operation.edit (.removeState id)).Follows a (a.removeState id) := by
  refine Edit.Follows.require _ fun live => Edit.Follows.require _ fun unreferenced => ?_
  have whole : renumberEdges id (renumberStates id (eraseState id a)) = {
      states := (a.states.eraseIdx id).map fun s => { s with id := s.id.renumbered id }
      edges := a.edges.map fun e =>
        { e with origin := e.origin.renumbered id, destination := e.destination.renumbered id } } :=
    congrArg (Arena.mk · _) (renumberStates_erased sound)
  have removed : a.removeState id = .ok _ := removeState_ok.mpr
    ⟨requireLive_ok.mp live, requireUnreferenced_ok.mp unreferenced, whole⟩
  have dense := Edit.requireDense_run (removeState_sound sound removed).dense
  exact dense.trans (congrArg (EStateM.Result.ok ()) whole)

theorem edit_perform (sound : Sound a) (operation : Operation) : operation.edit.Follows a (a.perform operation) := by
  cases operation with
  | addState => exact Edit.Follows.modify _
  | addEdge edge => exact Edit.Follows.require _ fun _ => Edit.Follows.require _ fun _ => Edit.Follows.modify _
  | retargetIncoming source target => exact Edit.Follows.require _ fun _ => Edit.Follows.modify _
  | removeState id => exact edit_removeState sound
  | markTerminal id => exact Edit.Follows.require _ fun _ => Edit.Follows.modify _

theorem edit_performed (sound : Sound a) (operation : Operation) (performed : a.perform operation = .ok b) :
    operation.edit.run a = .ok () b := by
  have ran := edit_perform sound operation
  unfold Edit.Follows at ran
  rwa [performed] at ran

theorem edit_refused {fault : ArenaFault} (sound : Sound a) (operation : Operation)
    (refused : a.perform operation = .error fault) : operation.edit.run a = .error (.refused fault) a := by
  have ran := edit_perform sound operation
  unfold Edit.Follows at ran
  rwa [refused] at ran

theorem after_grown (grown : Grown a) (operation : Operation) : Grown (operation.edit.after a) := by
  unfold Edit.after
  cases performed : a.perform operation with
  | ok next =>
    rw [edit_performed grown.sound operation performed]
    exact .step grown performed
  | error fault =>
    rw [edit_refused grown.sound operation performed]
    exact grown

theorem edited_grown (grown : Grown a) (operations : List Operation) : Grown (a.edited operations) := by
  unfold edited
  induction operations generalizing a with
  | nil => exact grown
  | cons operation _ ih => exact ih (after_grown grown operation)

theorem fault_unchanged {next : Arena} {fault : EditFault} (sound : Sound a) (operation : Operation)
    (faulted : operation.edit.run a = .error fault next) : next = a := by
  cases performed : a.perform operation with
  | ok => cases (edit_performed sound operation performed).symm.trans faulted
  | error =>
    cases (edit_refused sound operation performed).symm.trans faulted
    rfl

end Arena

namespace Automaton

def outgoingTable (a : Automaton) : List (List Nat) :=
  a.edges.zipIdx.foldl (fun table (edge, index) => table.modify edge.origin (· ++ [index]))
    (List.replicate a.states.length [])

theorem tabled_getElem? (indexed : List (Edge × Nat)) (table : List (List Nat)) (state : StateId) :
    (indexed.foldl (fun table (edge, index) => table.modify edge.origin (· ++ [index])) table)[state]? =
      table[state]?.map (· ++ (indexed.filter (·.1.origin == state)).map (·.2)) := by
  induction indexed generalizing table with
  | nil => simp
  | cons entry rest ih =>
    rw [List.foldl_cons, ih, List.getElem?_modify]
    by_cases own : entry.1.origin = state
    · cases table[state]? <;> simp [own]
    · cases table[state]? <;> simp [own]

theorem outgoingTable_getElem? (a : Automaton) (state : StateId) :
    a.outgoingTable[state]? = if a.has state then some (a.outgoingIds state) else none := by
  unfold outgoingTable outgoingIds has
  rw [tabled_getElem?, List.getElem?_replicate]
  by_cases live : state < a.states.length <;> simp [live]

theorem tabled_length (indexed : List (Edge × Nat)) (table : List (List Nat)) :
    (indexed.foldl (fun table (edge, index) => table.modify edge.origin (· ++ [index])) table).length = table.length := by
  induction indexed generalizing table with
  | nil => rfl
  | cons entry rest ih => rw [List.foldl_cons, ih, List.length_modify]

theorem outgoingTable_length (a : Automaton) : a.outgoingTable.length = a.states.length := by
  unfold outgoingTable
  rw [tabled_length, List.length_replicate]

theorem mem_outgoingIds {a : Automaton} {state : StateId} {index : Nat} :
    index ∈ a.outgoingIds state ↔ state < a.states.length ∧ ∃ e, a.edge? index = some e ∧ e.origin = state := by
  unfold outgoingIds edge? has
  by_cases live : state < a.states.length
  · simp [live, List.mem_zipIdx_iff_getElem?]
  · simp [live]

theorem outgoingIds_ascending (a : Automaton) (state : StateId) : (a.outgoingIds state).Pairwise (· < ·) := by
  unfold outgoingIds
  split
  · refine List.pairwise_map.mpr (List.Pairwise.filter _ (List.pairwise_map.mp ?_))
    rw [List.zipIdx_map_snd]
    exact List.pairwise_lt_range'
  · exact List.Pairwise.nil

theorem Sealed.dense {a : Automaton} (sealed : a.Sealed) : ∀ i (inside : i < a.states.length), a.states[i].id = i := by
  obtain ⟨arena, start, anchors, groupCount, grown, finished⟩ := sealed
  obtain ⟨_, rfl⟩ := Arena.finish_ok.mp finished
  exact grown.sound.dense

theorem Sealed.sparseId? {a : Automaton} (sealed : a.Sealed) : a.sparseId? = none := by
  unfold Automaton.sparseId?
  rw [List.findSome?_eq_none_iff]
  intro entry member
  obtain ⟨inside, same⟩ := List.getElem?_eq_some_iff.mp (List.mem_zipIdx_iff_getElem?.mp member)
  have own := sealed.dense entry.2 inside
  rw [same] at own
  simp [own]

theorem Sealed.danglingEdge? {a : Automaton} (sealed : a.Sealed) : a.danglingEdge? = none := by
  unfold Automaton.danglingEdge?
  rw [List.findSome?_eq_none_iff]
  intro entry member
  have present : entry.1 ∈ a.edges := List.mem_of_getElem? (List.mem_zipIdx_iff_getElem?.mp member)
  obtain ⟨origin, destination⟩ := sealed.edges_live entry.1 present
  simp [has, origin, destination]

theorem Sealed.defect? {a : Automaton} (sealed : a.Sealed) :
    a.defect? = if a.states.any (·.terminal) then none else some .noTerminal := by
  have start : a.has a.start = true := decide_eq_true sealed.start_live
  unfold Automaton.defect?
  rw [sealed.sparseId?, sealed.danglingEdge?, start]
  rfl

theorem Sealed.sound_of_terminal {a : Automaton} (sealed : a.Sealed) {id : StateId} (terminal : a.isTerminal id = true) :
    a.defect? = none := by
  obtain ⟨state, found, accepts⟩ := (Option.any_eq_true _ _).mp terminal
  rw [sealed.defect?, if_pos (List.any_eq_true.mpr ⟨state, List.mem_of_getElem? found, accepts⟩)]

end Automaton

namespace Arena

theorem edited_sealed (operations : List Operation) :
    Sound (edited .empty operations) ∧
    (∀ (operation : Operation) fault next,
      operation.edit.run (edited .empty operations) = .error fault next → next = edited .empty operations) ∧
    ∀ start anchors groupCount sealed, (edited .empty operations).finish start anchors groupCount = .ok sealed →
      sealed.defect? = (if sealed.states.any (·.terminal) then none else some .noTerminal) ∧
      sealed.outgoingTable.length = sealed.states.length ∧
      (∀ index (inside : index < sealed.edges.length) state ids, sealed.outgoingTable[state]? = some ids →
        (index ∈ ids ↔ state = sealed.edges[index].origin)) ∧
      ∀ ids ∈ sealed.outgoingTable, ids.Pairwise (· < ·) ∧ ∀ index ∈ ids, index < sealed.edges.length := by
  have grown : Grown (edited .empty operations) := edited_grown .empty operations
  refine ⟨grown.sound, fun operation _ _ faulted => fault_unchanged grown.sound operation faulted, ?_⟩
  intro start anchors groupCount sealed finished
  have origin : sealed.Sealed := ⟨_, start, anchors, groupCount, grown, finished⟩
  have listed : ∀ {state ids}, sealed.outgoingTable[state]? = some ids →
      state < sealed.states.length ∧ ids = sealed.outgoingIds state := by
    intro state ids found
    rw [Automaton.outgoingTable_getElem?] at found
    split at found
    · rename_i live
      exact ⟨of_decide_eq_true live, (Option.some.inj found).symm⟩
    · cases found
  refine ⟨origin.defect?, sealed.outgoingTable_length, ?_, ?_⟩
  · intro index inside state ids found
    obtain ⟨live, rfl⟩ := listed found
    rw [Automaton.mem_outgoingIds]
    simp [Automaton.edge?, List.getElem?_eq_getElem inside, live, eq_comm]
  · intro ids member
    obtain ⟨state, found⟩ := List.mem_iff_getElem?.mp member
    obtain ⟨_, rfl⟩ := listed found
    refine ⟨sealed.outgoingIds_ascending state, ?_⟩
    intro index present
    obtain ⟨_, e, at_edge, _⟩ := Automaton.mem_outgoingIds.mp present
    exact (List.getElem?_eq_some_iff.mp at_edge).1

-- Four of these operations fault: an edge to nowhere, a removal of a state in use, a target and a state
-- that are not there. The removal in between still finds the arena as it has to be.
def faultyOperations : List Operation :=
  [.addState, .addState, .addState, .addEdge ⟨0, 1, ['a'], []⟩, .addEdge ⟨0, 7, ['b'], []⟩, .removeState 1,
    .retargetIncoming 1 2, .retargetIncoming 2 9, .removeState 1, .removeState 5, .markTerminal 1]

theorem edited_sealed_faulty :
    ∃ sealed fault next, (edited .empty faultyOperations).finish 0 ⟨false, false⟩ 0 = .ok sealed ∧
      sealed.defect? = none ∧ sealed.outgoingTable = [[0], []] ∧
      (Operation.removeState 1).edit.run (edited .empty faultyOperations) = .error fault next ∧
      next = edited .empty faultyOperations := by
  obtain ⟨_, unchanged, valid⟩ := edited_sealed faultyOperations
  refine ⟨⟨[⟨0, false⟩, ⟨1, true⟩], [⟨0, 1, ['a'], []⟩], 0, ⟨false, false⟩, 0⟩, .refused (.stillReferenced 1 0),
    edited .empty faultyOperations, rfl, ?_, rfl, rfl, unchanged (.removeState 1) _ _ rfl⟩
  obtain ⟨defect, _⟩ := valid 0 ⟨false, false⟩ 0 _ rfl
  exact defect

end Arena
end PatternMachine
