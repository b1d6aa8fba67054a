import PatternMachine.Proofs.Automaton.Sealed

namespace PatternMachine

def Edge.joining (target : StateId) (captures : List Nat) (id : StateId) : Edge := ⟨id, target, [], captures⟩

def StateId.absorbed (gone target id : StateId) : StateId := if id = gone then target else id.renumbered gone

def Edge.moved (move : StateId → StateId) (e : Edge) : Edge :=
  { e with origin := move e.origin, destination := move e.destination }

def Edge.retargeted (gone target : StateId) (e : Edge) : Edge :=
  if e.destination == gone then { e with destination := target } else e

def StateId.merged (gone target id : StateId) : StateId := (if id = gone then target else id).renumbered gone

theorem StateId.merged_eq_absorbed {gone target : StateId} (target_lt : target < gone) :
    StateId.merged gone target = StateId.absorbed gone target := by
  funext id
  unfold StateId.merged StateId.absorbed
  split
  · exact StateId.renumbered_of_lt target_lt
  · rfl

namespace Edge

variable {e : Edge} {gone target : StateId}

theorem retargeted_origin : (e.retargeted gone target).origin = e.origin := by
  unfold retargeted
  split <;> rfl

theorem retargeted_destination : (e.retargeted gone target).destination = if e.destination = gone then target else e.destination := by
  unfold retargeted
  by_cases enters : e.destination = gone <;> simp [enters]

theorem retargeted_moved (leaves : e.origin ≠ gone) :
    (e.retargeted gone target).moved (StateId.renumbered · gone) = e.moved (StateId.merged gone target) := by
  unfold retargeted moved StateId.merged
  rw [if_neg leaves]
  by_cases enters : e.destination = gone <;> simp [enters]

end Edge

theorem Arena.retarget_remove {a : Arena} {gone target : StateId} (live : gone < a.states.length)
    (live' : target < a.states.length) (apart : gone ≠ target) (stuck : ∀ e ∈ a.edges, e.origin ≠ gone) :
    a.retargetIncoming gone target = .ok ⟨a.states, a.edges.map (Edge.retargeted gone target)⟩ ∧
      (Arena.mk a.states (a.edges.map (Edge.retargeted gone target))).removeState gone =
        .ok ⟨(a.states.eraseIdx gone).map fun s => { s with id := s.id.renumbered gone },
          a.edges.map (Edge.moved (StateId.merged gone target))⟩ := by
  have untouched : ∀ e ∈ a.edges.map (Edge.retargeted gone target), e.origin ≠ gone ∧ e.destination ≠ gone := by
    intro e member
    obtain ⟨old, present, rfl⟩ := List.mem_map.mp member
    rw [Edge.retargeted_origin, Edge.retargeted_destination]
    refine ⟨stuck old present, ?_⟩
    split
    · exact apart.symm
    · assumption
  have moved : a.edges.map (Edge.moved (StateId.merged gone target)) =
      (a.edges.map (Edge.retargeted gone target)).map (Edge.moved (StateId.renumbered · gone)) := by
    rw [List.map_map]
    exact List.map_congr_left fun e member => (Edge.retargeted_moved (stuck e member)).symm
  refine ⟨retargetIncoming_ok.mpr ⟨live', rfl⟩, removeState_ok.mpr ⟨live, untouched, ?_⟩⟩
  rw [moved]
  rfl

def Edge.leaves (edges : List Edge) (id : StateId) : Bool := edges.any (·.origin == id)

def loopBack (captures : List Nat) (fork : StateId) (stops : List StateId) (edges : List Edge) (next : StateId) :
    List Edge × StateId :=
  match stops with
  | [] => (edges, next)
  | id :: later =>
    if id = fork then loopBack captures fork later edges next
    else if Edge.leaves edges id then loopBack captures fork later (edges ++ [Edge.joining fork captures id]) next
    else loopBack captures fork (later.map (·.renumbered id)) (edges.map (·.moved (StateId.absorbed id fork))) (next - 1)
termination_by stops.length

theorem StateId.absorbed_below {gone target id : StateId} (below : id < gone) :
    StateId.absorbed gone target id = id := by
  unfold StateId.absorbed
  rw [if_neg (Nat.ne_of_lt below), StateId.renumbered_of_lt below]

theorem StateId.absorbed_apart {gone target id other : StateId} (target_lt : target < gone)
    (same : StateId.absorbed gone target id = StateId.absorbed gone target other) :
    id = other ∨ StateId.absorbed gone target id = target := by
  unfold StateId.absorbed StateId.renumbered at *
  grind

theorem StateId.absorbed_eq_target {gone target id : StateId} (target_lt : target < gone)
    (same : StateId.absorbed gone target id = target) : id = target ∨ id = gone := by
  unfold StateId.absorbed StateId.renumbered at *
  grind

-- Where the states of a loop go as its ends are merged into the fork. States stay apart unless they
-- are merged, and only ends that no edge leaves are.
structure Merges (fork first next : StateId) (stops : List StateId) (edges : List Edge) (next' : StateId)
    (merge : StateId → StateId) : Prop where
  fixed : ∀ id, id < first → merge id = id
  apart : ∀ id other, merge id = merge other → id = other ∨ merge id = fork
  merged : ∀ id, merge id = fork → id = fork ∨ id ∈ stops ∧ Edge.leaves edges id = false
  closes : ∀ id ∈ stops, id = fork ∨ Edge.leaves edges id = true ∨ merge id = fork
  range : ∀ id, first ≤ id → id < next → merge id = fork ∨ first ≤ merge id ∧ merge id < next'
  next_ge : first ≤ next'

theorem Edge.leaves_append {edges : List Edge} {e : Edge} {id : StateId} :
    Edge.leaves (edges ++ [e]) id = (Edge.leaves edges id || e.origin == id) := by
  simp [Edge.leaves]

theorem Edge.leaves_absorbed {edges : List Edge} {gone target id : StateId} (target_lt : target < gone)
    (kept : id ≠ gone) (kept' : id ≠ target) :
    Edge.leaves (edges.map (Edge.moved (StateId.absorbed gone target))) (StateId.absorbed gone target id) =
      Edge.leaves edges id := by
  have same : ∀ e : Edge, ((e.moved (StateId.absorbed gone target)).origin == StateId.absorbed gone target id) =
      (e.origin == id) := by
    intro e
    rw [Bool.eq_iff_iff, beq_iff_eq, beq_iff_eq]
    constructor
    · intro equal
      rcases StateId.absorbed_apart target_lt equal.symm with origin | merged
      · exact origin.symm
      · rcases StateId.absorbed_eq_target target_lt merged with equal | equal
        · exact (kept' equal).elim
        · exact (kept equal).elim
    · intro same
      subst same
      rfl
  simp [Edge.leaves, List.any_map, Function.comp_def, same]

def Edge.linked (fork : StateId) (edges : List Edge) (stops : List StateId) : List StateId :=
  stops.filter fun id => !(id == fork) && Edge.leaves edges id

section Loop

variable {captures : List Nat} {fork first next next' id : StateId} {later : List StateId} {edges : List Edge}
  {merge : StateId → StateId}

theorem Merges.skip (merges : Merges fork first next later edges next' merge) :
    Merges fork first next (fork :: later) edges next' merge := by
  refine ⟨merges.fixed, merges.apart, ?_, ?_, merges.range, merges.next_ge⟩
  · intro id equal
    rcases merges.merged id equal with rfl | ⟨member, stuck⟩
    · exact .inl rfl
    · exact .inr ⟨List.mem_cons_of_mem _ member, stuck⟩
  · intro id member
    rcases List.mem_cons.mp member with rfl | member
    · exact .inl rfl
    · exact merges.closes id member

theorem Merges.link (merges : Merges fork first next later (edges ++ [Edge.joining fork captures id]) next' merge)
    (leaves : Edge.leaves edges id = true) (other : ∀ id' ∈ later, id' ≠ id) :
    Merges fork first next (id :: later) edges next' merge := by
  refine ⟨merges.fixed, merges.apart, ?_, ?_, merges.range, merges.next_ge⟩
  · intro id' equal
    rcases merges.merged id' equal with rfl | ⟨member, stuck⟩
    · exact .inl rfl
    · rw [Edge.leaves_append, Bool.or_eq_false_iff] at stuck
      exact .inr ⟨List.mem_cons_of_mem _ member, stuck.1⟩
  · intro id' member
    rcases List.mem_cons.mp member with rfl | member
    · exact .inr (.inl leaves)
    · rcases merges.closes id' member with fork | leaves' | merged
      · exact .inl fork
      · rw [Edge.leaves_append, Edge.joining, beq_eq_false_iff_ne.mpr (other id' member).symm, Bool.or_false] at leaves'
        exact .inr (.inl leaves')
      · exact .inr (.inr merged)

theorem Edge.linked_link (other : ∀ id' ∈ later, id' ≠ id) :
    Edge.linked fork (edges ++ [Edge.joining fork captures id]) later = Edge.linked fork edges later := by
  apply List.filter_congr
  intro id' member
  rw [Edge.leaves_append, Edge.joining, beq_eq_false_iff_ne.mpr (other id' member).symm, Bool.or_false]

theorem StateId.renumbered_eq_absorbed (target : StateId) {id' : StateId} (different : id' ≠ id) :
    id'.renumbered id = StateId.absorbed id target id' := by
  rw [StateId.absorbed, if_neg different]

theorem Merges.absorb (merges : Merges fork first (next - 1) (later.map (·.renumbered id))
      (edges.map (Edge.moved (StateId.absorbed id fork))) next' merge)
    (fork_lt : fork < first) (first_le : first ≤ id) (lt_next : id < next) (stuck : Edge.leaves edges id = false)
    (other : ∀ id' ∈ later, id' ≠ id) :
    Merges fork first next (id :: later) edges next' (fun id' => merge (StateId.absorbed id fork id')) := by
  have fork_lt_id : fork < id := Nat.lt_of_lt_of_le fork_lt first_le
  have fork_fixed : merge fork = fork := merges.fixed fork fork_lt
  have target : ∀ id', StateId.absorbed id fork id' = fork → id' = fork ∨ id' = id :=
    fun id' => StateId.absorbed_eq_target fork_lt_id
  refine ⟨?_, ?_, ?_, ?_, ?_, merges.next_ge⟩
  · intro id' before
    rw [StateId.absorbed_below (Nat.lt_of_lt_of_le before first_le)]
    exact merges.fixed id' before
  · intro one two same
    rcases merges.apart _ _ same with equal | merged
    · rcases StateId.absorbed_apart fork_lt_id equal with equal | absorbed
      · exact .inl equal
      · exact .inr (by rw [absorbed, fork_fixed])
    · exact .inr merged
  · intro id' equal
    have here : StateId.absorbed id fork id' = fork → id' = fork ∨ id' ∈ id :: later ∧ Edge.leaves edges id' = false := by
      intro absorbed
      rcases target id' absorbed with same | rfl
      · exact .inl same
      · exact .inr ⟨List.mem_cons_self, stuck⟩
    rcases merges.merged _ equal with absorbed | ⟨member, stuck'⟩
    · exact here absorbed
    · obtain ⟨old, present, same⟩ := List.mem_map.mp member
      rw [StateId.renumbered_eq_absorbed fork (other old present)] at same
      rcases StateId.absorbed_apart fork_lt_id same with rfl | absorbed
      · by_cases at_fork : old = fork
        · exact .inl at_fork
        · rw [Edge.leaves_absorbed fork_lt_id (other old present) at_fork] at stuck'
          exact .inr ⟨List.mem_cons_of_mem _ present, stuck'⟩
      · exact here (same ▸ absorbed)
  · intro id' member
    rcases List.mem_cons.mp member with rfl | member
    · refine .inr (.inr ?_)
      rw [StateId.absorbed, if_pos rfl, fork_fixed]
    · by_cases at_fork : id' = fork
      · exact .inl at_fork
      · have closes := merges.closes _ (List.mem_map.mpr ⟨id', member, rfl⟩)
        rw [StateId.renumbered_eq_absorbed fork (other id' member),
          Edge.leaves_absorbed fork_lt_id (other id' member) at_fork] at closes
        rcases closes with absorbed | leaves | merged
        · rcases target id' absorbed with same | same
          · exact .inl same
          · exact (other id' member same).elim
        · exact .inr (.inl leaves)
        · exact .inr (.inr merged)
  · intro id' after before
    by_cases same : id' = id
    · refine .inl ?_
      rw [StateId.absorbed, if_pos same, fork_fixed]
    · refine merges.range _ ?_ ?_ <;>
      · rw [← StateId.renumbered_eq_absorbed fork same]
        unfold StateId.renumbered
        grind

theorem Edge.linked_absorb (fork_lt_id : fork < id) (other : ∀ id' ∈ later, id' ≠ id) :
    Edge.linked fork (edges.map (Edge.moved (StateId.absorbed id fork))) (later.map (·.renumbered id)) =
      (Edge.linked fork edges later).map (StateId.absorbed id fork) := by
  have renumbered : later.map (·.renumbered id) = later.map (StateId.absorbed id fork) :=
    List.map_congr_left fun id' member => StateId.renumbered_eq_absorbed fork (other id' member)
  unfold Edge.linked
  rw [renumbered, List.filter_map]
  refine congrArg _ (List.filter_congr ?_)
  intro id' member
  by_cases at_fork : id' = fork
  · subst at_fork
    simp [StateId.absorbed_below fork_lt_id]
  · have kept : StateId.absorbed id fork id' ≠ fork := by
      intro absorbed
      rcases StateId.absorbed_eq_target fork_lt_id absorbed with same | same
      · exact at_fork same
      · exact other id' member same
    rw [Function.comp_apply, Edge.leaves_absorbed fork_lt_id (other id' member) at_fork,
      beq_eq_false_iff_ne.mpr kept, beq_eq_false_iff_ne.mpr at_fork]

theorem Merges.origin {e : Edge} {place : StateId} {stops : List StateId}
    (merges : Merges fork first next stops edges next' merge)
    (present : e ∈ edges ++ (Edge.linked fork edges stops).map (Edge.joining fork captures))
    (kept : merge place = fork → place = fork) (same : merge e.origin = merge place) : e.origin = place := by
  rcases merges.apart _ _ same with equal | merged
  · exact equal
  · have begins := kept (same.symm.trans merged)
    rcases merges.merged _ merged with equal | ⟨_, stuck⟩
    · exact equal.trans begins.symm
    · have leaves : Edge.leaves edges e.origin = true := by
        rcases List.mem_append.mp present with here | back
        · exact List.any_eq_true.mpr ⟨e, here, beq_self_eq_true _⟩
        · obtain ⟨id, linked, rfl⟩ := List.mem_map.mp back
          exact (Bool.and_eq_true _ _ ▸ (List.mem_filter.mp linked).2).2
      rw [stuck] at leaves
      cases leaves

end Loop

theorem inside_renumbered {fork first next id : StateId} {later : List StateId} (fork_lt : fork < first)
    (first_le : first ≤ id) (lt_next : id < next) (other : ∀ id' ∈ later, id' ≠ id)
    (inside : ∀ id' ∈ later, id' = fork ∨ first ≤ id' ∧ id' < next) :
    ∀ id' ∈ later.map (·.renumbered id), id' = fork ∨ first ≤ id' ∧ id' < next - 1 := by
  intro id' member
  obtain ⟨old, present, rfl⟩ := List.mem_map.mp member
  have bounds := inside old present
  have different := other old present
  unfold StateId.renumbered
  grind

theorem distinct_renumbered {fork id : StateId} {later : List StateId} (fork_lt_id : fork < id)
    (other : ∀ id' ∈ later, id' ≠ id) (distinct : later.Pairwise fun id other => id = other → id = fork) :
    (later.map (·.renumbered id)).Pairwise fun id other => id = other → id = fork := by
  refine List.pairwise_map.mpr (distinct.imp_of_mem ?_)
  intro one two here there separate equal
  rw [StateId.renumbered_eq_absorbed fork (other one here), StateId.renumbered_eq_absorbed fork (other two there)] at equal
  rw [StateId.renumbered_eq_absorbed fork (other one here)]
  rcases StateId.absorbed_apart fork_lt_id equal with same | merged
  · rw [separate same]
    exact StateId.absorbed_below fork_lt_id
  · exact merged

-- A loop is its branches with an empty edge back from every end that some edge leaves, the other
-- ends merged. The merges renumber the ends still to come, so the induction is on their number.
theorem loopBack_merges {captures : List Nat} {fork first next : StateId} {stops : List StateId} {edges : List Edge}
    (fork_lt : fork < first) (next_ge : first ≤ next) (inside : ∀ id ∈ stops, id = fork ∨ first ≤ id ∧ id < next)
    (distinct : stops.Pairwise fun id other => id = other → id = fork) :
    ∃ merge, Merges fork first next stops edges (loopBack captures fork stops edges next).2 merge ∧
      (loopBack captures fork stops edges next).1 =
        (edges ++ (Edge.linked fork edges stops).map (Edge.joining fork captures)).map (Edge.moved merge) := by
  induction count : stops.length generalizing stops edges next with
  | zero =>
    cases List.eq_nil_of_length_eq_zero count
    rw [loopBack]
    refine ⟨fun id => id, ⟨fun _ _ => rfl, fun _ _ same => .inl same, fun _ same => .inl same, by simp, ?_, next_ge⟩, ?_⟩
    · intro id after before
      exact .inr ⟨after, before⟩
    · have kept : Edge.moved (fun id => id) = id := rfl
      simp [Edge.linked, kept]
  | succ n ih =>
    cases stops with
    | nil => cases count
    | cons id later =>
      have shorter : later.length = n := Nat.succ.inj count
      have inside' : ∀ id ∈ later, id = fork ∨ first ≤ id ∧ id < next :=
        fun id member => inside id (List.mem_cons_of_mem _ member)
      obtain ⟨different, distinct'⟩ := List.pairwise_cons.mp distinct
      rw [loopBack]
      by_cases apart : id = fork
      · subst apart
        obtain ⟨merge, merges, laid⟩ := @ih _ _ edges next_ge inside' distinct' shorter
        rw [if_pos rfl]
        exact ⟨merge, merges.skip, by simpa [Edge.linked] using laid⟩
      have other : ∀ id' ∈ later, id' ≠ id := fun id' member equal => apart (different id' member equal.symm)
      rw [if_neg apart]
      by_cases leaves : Edge.leaves edges id = true
      · obtain ⟨merge, merges, laid⟩ := @ih _ _ (edges ++ [Edge.joining fork captures id]) next_ge inside' distinct' shorter
        have here : Edge.linked fork edges (id :: later) = id :: Edge.linked fork edges later :=
          List.filter_cons_of_pos (by simp [apart, leaves])
        rw [if_pos leaves]
        refine ⟨merge, merges.link leaves other, ?_⟩
        rw [laid, here, Edge.linked_link other]
        simp
      · obtain ⟨first_le, lt_next⟩ := (inside id List.mem_cons_self).resolve_left apart
        have fork_lt_id : fork < id := Nat.lt_of_lt_of_le fork_lt first_le
        have inside_map := inside_renumbered fork_lt first_le lt_next other inside'
        have distinct_map := distinct_renumbered fork_lt_id other distinct'
        obtain ⟨merge, merges, laid⟩ := @ih _ _ (edges.map (Edge.moved (StateId.absorbed id fork)))
          (Nat.le_sub_one_of_lt (Nat.lt_of_le_of_lt first_le lt_next)) inside_map distinct_map (by simpa using shorter)
        have here : Edge.linked fork edges (id :: later) = Edge.linked fork edges later :=
          List.filter_cons_of_neg (by simp [leaves])
        have joining : ∀ id', Edge.joining fork captures (StateId.absorbed id fork id') =
            (Edge.joining fork captures id').moved (StateId.absorbed id fork) := by
          intro id'
          simp [Edge.joining, Edge.moved, StateId.absorbed_below fork_lt_id]
        rw [if_neg leaves]
        refine ⟨_, merges.absorb fork_lt first_le lt_next (Bool.eq_false_iff.mpr leaves) other, ?_⟩
        rw [laid, here, Edge.linked_absorb fork_lt_id other]
        simp [joining, Edge.moved, Function.comp_def]

theorem eraseReps_loop (id : StateId) (rest held : List StateId) :
    ∃ kept, List.eraseRepsBy.loop (· == ·) id rest held = held.reverse ++ kept ∧ kept.Sublist (id :: rest) ∧
      ∀ id' ∈ id :: rest, id' ∈ kept := by
  induction rest generalizing id held with
  | nil => exact ⟨[id], by simp [List.eraseRepsBy.loop], List.Sublist.refl _, by simp⟩
  | cons next rest ih =>
    rw [List.eraseRepsBy.loop]
    split
    · rename_i same
      obtain rfl := beq_iff_eq.mp same
      obtain ⟨kept, whole, sublist, members⟩ := ih id held
      refine ⟨kept, whole, sublist.trans (List.sublist_cons_self _ _), ?_⟩
      intro id' member
      rcases List.mem_cons.mp member with rfl | member
      · exact members id' List.mem_cons_self
      · exact members id' member
    · obtain ⟨kept, whole, sublist, members⟩ := ih next (id :: held)
      refine ⟨id :: kept, by simp [whole], sublist.cons_cons _, ?_⟩
      intro id' member
      rcases List.mem_cons.mp member with rfl | member
      · exact List.mem_cons_self
      · exact List.mem_cons_of_mem _ (members id' member)

theorem eraseReps_spec (stops : List StateId) :
    stops.eraseReps.Sublist stops ∧ ∀ id ∈ stops, id ∈ stops.eraseReps := by
  cases stops with
  | nil => exact ⟨List.Sublist.refl _, by simp⟩
  | cons id rest =>
    obtain ⟨kept, whole, sublist, members⟩ := eraseReps_loop id rest []
    have same : (id :: rest).eraseReps = kept := whole
    rw [same]
    exact ⟨sublist, members⟩

end PatternMachine
