import PatternMachine.Proofs.Automaton.Path
import PatternMachine.Proofs.Automaton.Removal

namespace PatternMachine

def Edge.carried (e : Edge) : List (Text × List Nat) := if e.isEmpty then [] else [(e.text, e.groups)]

def Carries (edges : List Edge) (start : StateId) (labels : List (Text × List Nat)) (stop : StateId) : Prop :=
  ∃ path, Walk edges start path stop ∧ path.flatMap Edge.carried = labels

section

variable {edges path : List Edge} {labels : List (Text × List Nat)} {gone target start stop id other : StateId}

theorem Carries.stay : Carries edges start [] start := ⟨[], .stay, rfl⟩

theorem Carries.step {e : Edge} (member : e ∈ edges) (onward : Carries edges e.destination labels stop) :
    Carries edges e.origin (e.carried ++ labels) stop := by
  obtain ⟨path, walk, rfl⟩ := onward
  exact ⟨e :: path, .step member walk, rfl⟩

theorem StateId.merged_of_ne (different : id ≠ gone) : id.renumbered gone = StateId.merged gone target id := by
  rw [StateId.merged, if_neg different]

theorem StateId.merged_gone : StateId.merged gone target gone = StateId.merged gone target target := by
  unfold StateId.merged
  rw [if_pos rfl, ite_self]

theorem StateId.merged_apart (different : id ≠ gone) (different' : other ≠ gone)
    (same : StateId.merged gone target id = StateId.merged gone target other) : id = other := by
  rw [← merged_of_ne different, ← merged_of_ne different'] at same
  exact (StateId.renumbered_strictMonoOn gone).injOn different different' same

theorem Walk.merged {captures : List Nat} (walk : Walk (edges ++ [Edge.joining target captures gone]) start path stop) :
    Carries (edges.map (Edge.moved (StateId.merged gone target))) (StateId.merged gone target start)
      (path.flatMap Edge.carried) (StateId.merged gone target stop) := by
  induction walk with
  | stay => exact .stay
  | @step path stop e member _ ih =>
    rw [List.flatMap_cons]
    rcases List.mem_append.mp member with old | new
    · have moved : e.moved (StateId.merged gone target) ∈ edges.map (Edge.moved (StateId.merged gone target)) :=
        List.mem_map.mpr ⟨e, old, rfl⟩
      exact .step moved ih
    · cases List.mem_singleton.mp new
      show Carries _ (StateId.merged gone target gone) (path.flatMap Edge.carried) _
      rw [StateId.merged_gone]
      exact ih

-- Back again: a walk that comes to the merged state comes to the one that is gone and goes on by the empty edge. The
-- induction is on the walk after the merge, for every state that stands for where it starts.
theorem Walk.unmerged {captures : List Nat} (apart : gone ≠ target) (stuck : ∀ e ∈ edges, e.origin ≠ gone) {first last : StateId}
    (walk : Walk (edges.map (Edge.moved (StateId.merged gone target))) first path last) (begins : start ≠ gone)
    (ends : stop ≠ gone) (from_start : StateId.merged gone target start = first)
    (to_stop : StateId.merged gone target stop = last) :
    Carries (edges ++ [Edge.joining target captures gone]) start (path.flatMap Edge.carried) stop := by
  induction walk generalizing start with
  | stay =>
    cases StateId.merged_apart begins ends (from_start.trans to_stop.symm)
    exact .stay
  | @step path last e' member _ ih =>
    obtain ⟨e, old, rfl⟩ := List.mem_map.mp member
    have present : e ∈ edges ++ [Edge.joining target captures gone] := List.mem_append_left _ old
    cases StateId.merged_apart begins (stuck e old) from_start
    rw [List.flatMap_cons]
    by_cases enters : e.destination = gone
    · have onward := ih apart.symm (by rw [← StateId.merged_gone, ← enters]; rfl) to_stop
      have joins : Edge.joining target captures gone ∈ edges ++ [Edge.joining target captures gone] := by simp
      have hopped : Carries (edges ++ [Edge.joining target captures gone]) e.destination (path.flatMap Edge.carried) stop := by
        rw [enters]
        exact .step joins onward
      exact .step present hopped
    · exact .step present (ih enters rfl to_stop)

end

namespace Arena

variable {a : Arena} {gone target : StateId}

-- Leading what enters a state to another one and removing the state does to all other states what an empty edge from
-- the one to the other does, under any captures, and neither operation faults.
theorem merge_carries (sound : Sound a) (live : gone < a.states.length) (live' : target < a.states.length)
    (apart : gone ≠ target) (stuck : ∀ e ∈ a.edges, e.origin ≠ gone) (captures : List Nat) :
    ∃ moved merged linked,
      a.retargetIncoming gone target = .ok moved ∧ (Operation.retargetIncoming gone target).edit.run a = .ok () moved ∧
      moved.removeState gone = .ok merged ∧ (Operation.removeState gone).edit.run moved = .ok () merged ∧
      a.addEdge ⟨gone, target, [], captures⟩ = .ok linked ∧
      ∀ start stop, start ≠ gone → stop ≠ gone →
        merged.states[start.renumbered gone]?.map (·.terminal) = a.states[start]?.map (·.terminal) ∧
        ∀ labels, Carries linked.edges start labels stop ↔
          Carries merged.edges (start.renumbered gone) labels (stop.renumbered gone) := by
  obtain ⟨retargeted, removed⟩ := retarget_remove live live' apart stuck
  have sound' := retargetIncoming_sound sound retargeted
  have reduced := removeState_reduced sound' removed
  refine ⟨_, _, _, retargeted, edit_performed sound (.retargetIncoming gone target) retargeted, removed,
    edit_performed sound' (.removeState gone) removed, addEdge_ok.mpr ⟨live, live', rfl⟩,
    fun start stop begins ends => ⟨?_, fun labels => ⟨?_, ?_⟩⟩⟩
  · rw [reduced.states start begins, Option.map_map]
    rfl
  · rintro ⟨path, walk, rfl⟩
    rw [StateId.merged_of_ne begins, StateId.merged_of_ne ends]
    exact walk.merged
  · rintro ⟨path, walk, rfl⟩
    exact walk.unmerged apart stuck begins ends (StateId.merged_of_ne begins).symm (StateId.merged_of_ne ends).symm

def looping : List Operation :=
  [.addState, .addState, .addState, .addState, .addEdge ⟨0, 1, ['a'], []⟩, .addEdge ⟨3, 1, ['b'], [0]⟩, .markTerminal 3]

theorem merge_carries_looping :
    let a := edited .empty looping
    let merged : Arena := ⟨[⟨0, false⟩, ⟨1, false⟩, ⟨2, true⟩], [⟨0, 2, ['a'], []⟩, ⟨2, 2, ['b'], [0]⟩]⟩
    Sound a ∧ 1 < a.states.length ∧ 3 < a.states.length ∧ (∀ e ∈ a.edges, e.origin ≠ 1) ∧
      ∃ moved linked, a.retargetIncoming 1 3 = .ok moved ∧ moved.removeState 1 = .ok merged ∧
        a.addEdge ⟨1, 3, [], []⟩ = .ok linked ∧
        ∀ labels, Carries linked.edges 0 labels 3 ↔ Carries merged.edges 0 labels 2 := by
  intro a merged
  have sound : Sound a := (edited_grown .empty looping).sound
  have live : 1 < a.states.length := by decide
  have live' : 3 < a.states.length := by decide
  have stuck : ∀ e ∈ a.edges, e.origin ≠ 1 := by decide
  obtain ⟨moved, merged', linked, retargeted, _, removed, _, added, same⟩ :=
    merge_carries sound live live' (by decide) stuck []
  have left : moved.removeState 1 = .ok merged := by
    cases retargeted
    rfl
  cases left.symm.trans removed
  exact ⟨sound, live, live', stuck, moved, linked, retargeted, left, added, (same 0 3 (by decide) (by decide)).2⟩

end Arena
end PatternMachine
