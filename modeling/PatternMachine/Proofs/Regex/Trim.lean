import PatternMachine.Proofs.Construction.Assembly
import PatternMachine.Proofs.Construction.Trim
import PatternMachine.Proofs.Regex.Acceptance

namespace PatternMachine

theorem Regex.ofPattern_ok {source : Text} {r : Regex} (compiled : Regex.ofPattern source = .ok r) :
    compile source = .ok r.automaton := by
  unfold Regex.ofPattern at compiled
  cases built : compile source with
  | error error => simp [built, Except.map] at compiled
  | ok a =>
    rw [built] at compiled
    cases compiled
    rfl

theorem compile_parse_error {source : Text} {error : PatternError} (refused : Pattern.parse source = .error error) :
    compile source = .error (.pattern error) := by
  simp [compile, refused, Except.mapError, bind, Except.bind]

theorem compile_assembled {source : Text} {p : Pattern} {a : Automaton} (parsed : Pattern.parse source = .ok p)
    (compiled : compile source = .ok a) : Assembler.build (.ofText p.body) p.body p.anchors = .ok a := by
  rw [Builder.build_flat]
  unfold compile at compiled
  rw [parsed] at compiled
  change p.build.mapError _ = _ at compiled
  change p.build.mapError _ = _
  cases built : p.build with
  | error fault =>
    rw [built] at compiled
    cases compiled
  | ok a' =>
    rw [built] at compiled
    cases compiled
    rfl

namespace Automaton

structure Useful (a : Automaton) (id : StateId) : Prop where
  reached : Reachable a.edges a.start id
  accepts : ∃ stop, a.isTerminal stop = true ∧ Reachable a.edges id stop

theorem Laid.useful {a : Automaton} {sheaf : Sheaf} (laid : a.Laid sheaf) (within : sheaf.Within 0 1)
    (trim : sheaf.Trim 0 1) (some : sheaf.stops ≠ []) {id : StateId} (live : id < a.states.length) : a.Useful id := by
  rw [laid.count] at live
  rcases Nat.eq_zero_or_pos id with rfl | after
  · obtain ⟨stop, member⟩ := List.exists_mem_of_ne_nil _ some
    refine ⟨?_, stop, (laid.terminal stop).mpr member, ?_⟩
    · rw [laid.start]
      exact .refl _ _
    · rw [laid.edges]
      exact trim.crosses within member
  · obtain ⟨stop, member, reach⟩ := trim.leads id after live
    refine ⟨?_, stop, (laid.terminal stop).mpr member, ?_⟩
    · rw [laid.edges, laid.start]
      exact trim.reached id after live
    · rwa [laid.edges]

end Automaton

theorem compile_trim (source : Text) :
    (∀ error, compile source = .error error → ∃ cause, error = .pattern cause ∧ Pattern.parse source = .error cause) ∧
    ((∃ a, compile source = .ok a) ↔ ∃ p, Pattern.parse source = .ok p) ∧
    (∀ p, Pattern.parse source = .ok p → ∃ a, compile source = .ok a ∧
      Assembler.build (.ofText p.body) p.body p.anchors = .ok a) ∧
    ∀ a, compile source = .ok a → a.defect? = none ∧ a.start = 0 ∧ (∀ e ∈ a.edges, e.destination ≠ a.start) ∧
      ∀ id, id < a.states.length → a.Useful id := by
  cases parsed : Pattern.parse source with
  | error cause =>
    have refused := compile_parse_error parsed
    simp [refused]
  | ok p =>
    obtain ⟨tree, r, _, made, sealed, laid, _, _, spelled⟩ := Regex.ofPattern_laid parsed
    have compiled := Regex.ofPattern_ok made
    refine ⟨?_, ⟨fun _ => ⟨p, rfl⟩, fun _ => ⟨r.automaton, compiled⟩⟩, ?_, ?_⟩
    · intro error failed
      cases compiled.symm.trans failed
    · intro other same
      cases same
      exact ⟨r.automaton, compiled, compile_assembled parsed compiled⟩
    · intro a built
      cases compiled.symm.trans built
      have within : (Item.layAny [] 0 1 tree.body).Within 0 1 := Item.layAny_within Nat.zero_lt_one tree.body
      have useful : ∀ id, id < r.automaton.states.length → r.automaton.Useful id := fun id live =>
        laid.useful within (Item.layAny_trim Nat.zero_lt_one tree.body spelled) (spelled.stops 0 1) live
      obtain ⟨stop, terminal, _⟩ := (useful r.automaton.start sealed.start_live).accepts
      refine ⟨sealed.sound_of_terminal terminal, laid.start, ?_, useful⟩
      intro e member
      rw [laid.edges] at member
      rw [laid.start]
      exact Nat.ne_of_gt (within.edges e member).2.1

-- `(a|(b|)*)*`: two ends are merged away and a third gets an edge back.
theorem compile_trim_merged :
    ∃ a, compile ['(', 'a', '|', '(', 'b', '|', ')', '*', ')', '*'] = .ok a ∧ a.defect? = none ∧ a.start = 0 ∧
      (∀ e ∈ a.edges, e.destination ≠ a.start) ∧ ∀ id, id < a.states.length → a.Useful id := by
  obtain ⟨_, succeeds, _, valid⟩ := compile_trim ['(', 'a', '|', '(', 'b', '|', ')', '*', ')', '*']
  obtain ⟨a, compiled⟩ := succeeds.mpr ⟨⟨['(', 'a', '|', '(', 'b', '|', ')', '*', ')', '*'],
    ['(', 'a', '|', '(', 'b', '|', ')', '*', ')', '*'], ⟨false, false⟩⟩, rfl⟩
  exact ⟨a, compiled, valid a compiled⟩

end PatternMachine
