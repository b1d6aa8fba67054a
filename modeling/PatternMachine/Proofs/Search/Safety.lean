import PatternMachine.Proofs.Search.Leftmost

namespace PatternMachine

variable {a : Automaton} {input : Text}

theorem Automaton.leaving_ids (a : Automaton) (state : StateId) :
    (a.leaving state).map (·.2) = a.outgoingIds state := by
  unfold leaving outgoingIds
  split <;> rfl

theorem Automaton.state_ok {state : StateId} : (∃ found, a.state state = .ok found) ↔ state < a.states.length := by
  unfold Automaton.state
  by_cases live : state < a.states.length
  · simp [live]
  · simp [live]

namespace Search

variable {origin : Configuration}

-- Every look-up that the search makes for a frame gives a result. The edges still to be tried are
-- those that the last of the outgoing ids name.
structure Frame.Safe (a : Automaton) (input : Text) (start : Nat) (frame : Frame) : Prop where
  state : ∃ state, a.state frame.state = .ok state
  reached : start ≤ frame.position
  inside : frame.position ≤ Text.size input
  boundary : Text.isBoundary input frame.position = true
  rest : Text.from? input frame.position = some frame.rest
  untried : ∃ tried later, a.outgoingIds frame.state = tried ++ later ∧
    later.map a.edge? = frame.untried.map some
  via : ∀ e, frame.via = some e → ∃ edge, a.edge? edge = some e

theorem edges_named {state : StateId} {later : List (Edge × Nat)} (listed : ∀ p ∈ later, p ∈ a.leaving state) :
    (later.map (·.2)).map a.edge? = (later.map (·.1)).map some := by
  rw [List.map_map, List.map_map]
  apply List.map_congr_left
  intro p member
  exact (Automaton.mem_leaving.mp (listed p member)).2

theorem Standing.safe (standing : Standing a input frame tried untried) (reached : start ≤ frame.position)
    (left : frame.untried = untried.map (·.1)) (via : ∀ e, frame.via = some e → ∃ edge, a.edge? edge = some e) :
    frame.Safe a input start := by
  have whole := Text.from?_size standing.rest
  obtain ⟨before, cut⟩ := Text.from?_eq_some.mp standing.rest
  refine ⟨Automaton.state_ok.mpr standing.live, reached, by omega, Text.isBoundary_iff.mpr ⟨before, _, cut⟩,
    standing.rest, ⟨tried.map (·.2), untried.map (·.2), ?_, ?_⟩, via⟩
  · rw [← Automaton.leaving_ids, standing.leaving, List.map_append]
  · rw [left]
    apply edges_named
    intro p member
    rw [standing.leaving]
    exact List.mem_append_right _ member

theorem Trail.below_safe (trail : Trail a input origin stack edges tried untried) :
    ∃ top lower, stack = top :: lower ∧ origin.position ≤ top.position ∧
      (∀ e, top.via = some e → ∃ edge, a.edge? edge = some e) ∧
      ∀ frame ∈ lower, frame.Safe a input origin.position := by
  induction trail with
  | @origin frame _ _ _ here via _ =>
    refine ⟨frame, [], rfl, Nat.le_of_eq (congrArg Configuration.position here).symm, ?_, ?_⟩
    · intro e named
      rw [via] at named
      cases named
    · intro frame member
      cases member
  | @push parent lower edges tried e edge later frame _ _ under left _ here via _ _ _ ih =>
    obtain ⟨_, _, same, reached, named, below⟩ := ih
    cases same
    have listed : (e, edge) ∈ a.leaving parent.state := by rw [under.standing.leaving]; simp
    have onward : frame.position = parent.position + Text.size e.text := congrArg Configuration.position here
    refine ⟨frame, parent :: lower, rfl, by omega, ?_, ?_⟩
    · intro e' same
      cases via.symm.trans same
      exact ⟨edge, (Automaton.mem_leaving.mp listed).2⟩
    · intro frame member
      rcases List.mem_cons.mp member with rfl | member
      · exact (Trail.Standing.advance under.standing).safe reached left named
      · exact below frame member

theorem Valid.safe (valid : Valid a input origin run) : ∀ frame ∈ run.stack, frame.Safe a input origin.position := by
  obtain ⟨visited, stack⟩ := run
  cases stack with
  | nil =>
    intro frame member
    cases member
  | cons top lower =>
    obtain ⟨edges, tried, untried, trail, left⟩ := valid.trail top lower rfl
    obtain ⟨_, _, same, reached, named, below⟩ := trail.below_safe
    cases same
    intro frame member
    rcases List.mem_cons.mp member with rfl | member
    · exact trail.standing.safe reached left named
    · exact below frame member

theorem checkOffset_error {offset : Nat} {error : OffsetError} :
    checkOffset input offset = .error error ↔
      Text.size input < offset ∧ error = .outOfRange offset (Text.size input) ∨
        offset ≤ Text.size input ∧ Text.isBoundary input offset = false ∧ error = .offBoundary offset := by
  unfold checkOffset
  by_cases beyond : Text.size input < offset
  · simp only [beyond, Nat.not_le.mpr beyond, if_true, true_and, false_and, or_false, Except.error.injEq]
    exact eq_comm
  · have within := Nat.le_of_not_lt beyond
    cases boundary : Text.isBoundary input offset with
    | true => simp [beyond]
    | false =>
      simp only [beyond, within, if_false, Bool.false_eq_true, false_and, true_and, false_or, Except.error.injEq]
      exact eq_comm

theorem findFrom_sliced (sealed : a.Sealed) {offset : Nat} {m : Match}
    (found : a.findFrom input offset = some m) :
    m.start ≤ m.stop ∧ m.stop ≤ Text.size input ∧ Text.isBoundary input m.start = true ∧
      Text.isBoundary input m.stop = true ∧ Text.slice? input m.start m.stop = some m.text := by
  have listed : ∀ p ∈ candidates a.anchors input offset, Text.from? input p.1 = some p.2 :=
    fun p member => (mem_candidates.mp member).2
  rcases firstMatch_leftmost sealed (fun () _ => ()) () _ listed with
    ⟨failed, _⟩ | ⟨_, start, _, _, _, last, text, _, _, _, sliced, answer⟩
  · cases failed.symm.trans found
  · cases answer.symm.trans found
    obtain ⟨before, after, rfl, rfl, stop⟩ := Text.slice?_eq_some.mp sliced
    have first : Text.isBoundary (before ++ text ++ after) (Text.size before) = true :=
      Text.isBoundary_iff.mpr ⟨before, text ++ after, by simp, rfl⟩
    have second : Text.isBoundary (before ++ text ++ after) (Text.size before + Text.size text) = true :=
      Text.isBoundary_iff.mpr ⟨before ++ text, after, rfl, by simp⟩
    have covered : Text.slice? (before ++ text ++ after) (Text.size before) (Text.size before + Text.size text) = some text :=
      Text.slice?_eq_some.mpr ⟨before, after, rfl, rfl, rfl⟩
    have inside : Text.size before + Text.size text ≤ Text.size (before ++ text ++ after) := by simp
    exact ⟨Nat.le_add_right _ _, inside, first, second, covered⟩

end Search

namespace Automaton

open Search

theorem findAt_error {offset : Nat} {error : OffsetError} :
    a.findAt input offset = .error error ↔ checkOffset input offset = .error error := by
  cases checked : checkOffset input offset <;>
    simp [findAt, checked, bind, Except.bind, pure, Except.pure]

theorem findAt_ok {offset : Nat} {found : Option Match} (answered : a.findAt input offset = .ok found) :
    a.findFrom input offset = found := by
  cases checked : checkOffset input offset with
  | error error => cases (findAt_error.mpr checked).symm.trans answered
  | ok => simpa [findAt, checked, bind, Except.bind, pure, Except.pure] using answered

-- An offset that is no boundary is refused, for the one reason or the other. From any other one the
-- search runs into no look-up that fails, and a match covers a slice of the input.
theorem findAt_safe (sealed : a.Sealed) (input : Text) (offset : Nat) :
    (∀ error, a.findAt input offset = .error error ↔
      Text.size input < offset ∧ error = .outOfRange offset (Text.size input) ∨
        offset ≤ Text.size input ∧ Text.isBoundary input offset = false ∧ error = .offBoundary offset) ∧
      (∀ start rest, (start, rest) ∈ candidates a.anchors input offset → ∀ steps run,
        (Setting.of a input).Runs ((Setting.of a input).begin start rest) steps run →
          ∀ frame ∈ run.stack, frame.Safe a input start) ∧
      ∀ m, a.findAt input offset = .ok (some m) →
        m.start ≤ m.stop ∧ m.stop ≤ Text.size input ∧ Text.isBoundary input m.start = true ∧
          Text.isBoundary input m.stop = true ∧ Text.slice? input m.start m.stop = some m.text := by
  refine ⟨fun error => findAt_error.trans checkOffset_error, ?_, ?_⟩
  · intro start rest listed steps run runs
    have began := begin_valid sealed (mem_candidates.mp listed).2
    exact (runs.valid sealed began).safe
  · intro m answered
    exact findFrom_sliced sealed (findAt_ok answered)

theorem findAt_safe_cyclic :
    cyclic.Sealed ∧
      (∀ error, cyclic.findAt ['é', 'a'] 1 = .error error ↔
        Text.size ['é', 'a'] < 1 ∧ error = .outOfRange 1 (Text.size ['é', 'a']) ∨
          1 ≤ Text.size ['é', 'a'] ∧ Text.isBoundary ['é', 'a'] 1 = false ∧ error = .offBoundary 1) ∧
      (∀ start rest, (start, rest) ∈ candidates cyclic.anchors ['é', 'a'] 1 → ∀ steps run,
        (Setting.of cyclic ['é', 'a']).Runs ((Setting.of cyclic ['é', 'a']).begin start rest) steps run →
          ∀ frame ∈ run.stack, frame.Safe cyclic ['é', 'a'] start) ∧
      ∀ m, cyclic.findAt ['é', 'a'] 1 = .ok (some m) →
        m.start ≤ m.stop ∧ m.stop ≤ Text.size ['é', 'a'] ∧ Text.isBoundary ['é', 'a'] m.start = true ∧
          Text.isBoundary ['é', 'a'] m.stop = true ∧ Text.slice? ['é', 'a'] m.start m.stop = some m.text :=
  ⟨cyclic_sealed, findAt_safe cyclic_sealed _ _⟩

example : cyclic.findAt ['é', 'a'] 1 = .error (.offBoundary 1) := rfl
example : cyclic.findAt ['é', 'a'] 2 = .ok (some ⟨2, ['a'], [['a']]⟩) := by cbv

end Automaton
end PatternMachine
