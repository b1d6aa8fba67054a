import Mathlib.Algebra.Ring.Nat
import PatternMachine.Proofs.Automaton.Removal
import PatternMachine.Proofs.Construction.Stepping

namespace PatternMachine

-- What a token does to the forks and the branch counts of the open groups, outermost first.
def Token.Shapes (before after : List (StateId × Nat)) : Token → Prop
  | .literal _ _ => after = before
  | .bar => ∃ around fork count, before = around ++ [(fork, count)] ∧ after = around ++ [(fork, count + 1)]
  | .opening _ _ => ∃ fork, after = before ++ [(fork, 1)]
  | .closing _ _ => ∃ inner, before = after ++ [inner]

theorem Token.Shapes.outermost {token : Token} {before after : List (StateId × Nat)} (shapes : token.Shapes before after)
    (some : before ≠ []) (some' : after ≠ []) : ∃ fork count, before.head? = .some (fork, count) ∧
      after.head? = .some (fork, if token = .bar ∧ before.length = 1 then count + 1 else count) := by
  obtain ⟨⟨fork, count⟩, rest, rfl⟩ := List.exists_cons_of_ne_nil some
  refine ⟨fork, count, rfl, ?_⟩
  cases token with
  | literal c starred =>
    cases shapes
    rfl
  | bar =>
    obtain ⟨around, fork', count', same, rfl⟩ := shapes
    cases around with
    | nil =>
      cases same
      rfl
    | cons level around =>
      cases same
      simp
  | opening offset starred =>
    obtain ⟨fork', rfl⟩ := shapes
    rfl
  | closing offset starred =>
    obtain ⟨inner, same⟩ := shapes
    obtain ⟨level, others, rfl⟩ := List.exists_cons_of_ne_nil some'
    cases same
    rfl

namespace Builder

variable {table : CaptureTable} {b b' b'' : Builder} {token : Token}

def shape (b : Builder) : List (StateId × Nat) := b.levels.map fun level => (level.fork, level.ends.length)

theorem forks_eq (b : Builder) : b.forks = b.shape.map (·.1) := by
  rw [forks, shape, List.map_map]
  rfl

theorem shape_length (b : Builder) : b.shape.length = b.outer.length + 1 := by simp [shape, levels]

theorem shape_nonempty (b : Builder) : b.shape ≠ [] := List.ne_nil_of_length_eq_add_one b.shape_length

structure Keeps (b b' : Builder) : Prop where
  fork : b'.level.fork = b.level.fork
  closed : b'.level.closed = b.level.closed
  outer : b'.outer = b.outer

namespace Keeps

theorem trans (first : b.Keeps b') (second : b'.Keeps b'') : b.Keeps b'' :=
  ⟨second.fork.trans first.fork, second.closed.trans first.closed, second.outer.trans first.outer⟩

theorem shape (keeps : b.Keeps b') : b'.shape = b.shape := by
  have count : b'.level.ends.length = b.level.ends.length := by simp [Level.ends, keeps.closed]
  simp [Builder.shape, levels, keeps.fork, keeps.outer, count]

end Keeps

theorem link_keeps {origin destination : StateId} {text : Text} (linked : b.link origin destination text = .ok b') :
    b' = { b with arena := b'.arena } := by
  obtain ⟨arena, _, same⟩ := bind_ok.mp linked
  cases same
  rfl

theorem extend_keeps {text : Text} (extended : b.extend text = .ok b') : b.Keeps b' := by
  obtain ⟨linked, ran, same⟩ := bind_ok.mp extended
  cases same
  rw [link_keeps ran]
  exact ⟨rfl, rfl, rfl⟩

theorem flush_keeps (flushed : b.flush = .ok b') : b.Keeps b' := by
  unfold flush at flushed
  split at flushed
  · cases flushed
    exact ⟨rfl, rfl, rfl⟩
  · have keeps := extend_keeps flushed
    exact ⟨keeps.fork, keeps.closed, keeps.outer⟩

theorem loopEntry_keeps (entered : b.loopEntry = .ok b') : b.Keeps b' := by
  unfold loopEntry at entered
  split at entered
  · exact extend_keeps entered
  · cases entered
    exact ⟨rfl, rfl, rfl⟩

theorem approach_keeps {starred : Bool} (approached : b.approach starred = .ok b') : b.Keeps b' := by
  obtain ⟨flushed, ran, entered⟩ := bind_ok.mp approached
  cases starred with
  | false =>
    cases entered
    exact flush_keeps ran
  | true => exact (flush_keeps ran).trans (loopEntry_keeps entered)

theorem star_keeps {c : Char} (starred : b.star c = .ok b') : b.Keeps b' := by
  rw [star_eq] at starred
  obtain ⟨inner, approached, linked⟩ := bind_ok.mp starred
  have keeps := approach_keeps approached
  rw [link_keeps linked]
  exact ⟨keeps.fork, keeps.closed, keeps.outer⟩

theorem step_shapes (stands : b.Stands) (stepped : b.step table token = .ok b') : token.Shapes b.shape b'.shape := by
  cases token with
  | literal c starred =>
    cases starred with
    | false =>
      cases stepped
      rfl
    | true => exact (star_keeps stepped).shape
  | bar =>
    obtain ⟨inner, flushed, same⟩ := bind_ok.mp stepped
    cases same
    have keeps := flush_keeps flushed
    refine ⟨b.outer.reverse.map fun level => (level.fork, level.ends.length), b.level.fork, b.level.ends.length, ?_, ?_⟩
    · simp [shape, levels]
    · simp [shape, levels, keeps.fork, keeps.outer, Level.ends, keeps.closed]
  | opening offset starred =>
    rw [step, openGroup_eq] at stepped
    obtain ⟨inner, approached, same⟩ := bind_ok.mp stepped
    cases same
    rw [← (approach_keeps approached).shape]
    exact ⟨inner.level.current, by simp [shape, levels, Level.ends]⟩
  | closing offset starred =>
    rw [step, closeGroup_eq_leave] at stepped
    obtain ⟨inner, flushed, left⟩ := bind_ok.mp stepped
    obtain ⟨_, flushed', stands', _⟩ := stands.flush
    cases flushed.symm.trans flushed'
    obtain ⟨first, here, around⟩ := stands'.levels.innermost
    obtain ⟨reached, ran, closes⟩ := stands'.closes here around starred
    obtain ⟨_, ran', left⟩ := bind_ok.mp left
    cases ran.symm.trans ran'
    rw [← (flush_keeps flushed).shape]
    split at left
    · cases left
    · rename_i level outer popped
      cases left
      have held : inner.outer = level :: outer := closes.outer.symm.trans popped
      exact ⟨(inner.level.fork, inner.level.ends.length), by simp [shape, levels, Level.ends, held]⟩

theorem mem_levels {level : Level} : level ∈ b.levels ↔ level ∈ b.level :: b.outer := by
  simp [levels, or_comm]

theorem Stands.forks_live (stands : b.Stands) : ∀ id ∈ b.forks, id < b.arena.states.length := by
  intro id member
  obtain ⟨level, present, rfl⟩ := List.mem_map.mp member
  exact (stands.levels.bounds level (mem_levels.mp present)).1

theorem Stands.current_off (stands : b.Stands) : b.level.current = b.level.fork ∨ b.level.current ∉ b.forks := by
  obtain ⟨first, here, around⟩ := stands.levels.innermost
  refine (here.ends b.level.current (List.mem_append_right _ List.mem_cons_self)).imp id fun beyond member => ?_
  obtain ⟨level, present, same⟩ := List.mem_map.mp member
  rcases List.mem_cons.mp (mem_levels.mp present) with rfl | outer
  · exact Nat.not_le.mpr here.fork_lt (same ▸ beyond.1)
  · exact Nat.not_le.mpr (around level outer).1 (same ▸ beyond.1)

theorem Reached.bottom {body : Text} {front later : List Cursor} (reached : Reached table body front later b) :
    b.forks.head? = some 0 := by
  induction reached with
  | begin => rfl
  | step reached stepped ih =>
    unfold reads at stepped
    split at stepped
    · obtain ⟨fork, count, before, after⟩ :=
        (step_shapes reached.stands.1 stepped).outermost (shape_nonempty _) (shape_nonempty _)
      rw [forks_eq, List.head?_map, before] at ih
      rw [forks_eq, List.head?_map, after]
      exact ih
    · cases stepped
      exact ih

end Builder
end PatternMachine
