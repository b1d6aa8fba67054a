import PatternMachine.Proofs.Search.Trail

namespace PatternMachine.Search

variable {a : Automaton} {input : Text} {origin : Configuration}

-- What a step may do, each case with what holds of the frame on top. All that is proved of single
-- steps is proved by these cases.
inductive Setting.Step (m : Setting) : Run → Progress → Prop where
  | failed : m.Step ⟨visited, []⟩ .failed
  | rejected : top.untried = e :: later → Text.strip? e.text top.rest = none →
      m.Step ⟨visited, top :: lower⟩
        (.running [.reject e top.position] ⟨visited, { top with untried := later } :: lower⟩)
  | revisited : top.untried = e :: later → Text.strip? e.text top.rest = some rest →
      visited.seen e.destination (top.position + Text.size e.text) = true →
      m.Step ⟨visited, top :: lower⟩ (.running [.revisit e.destination (top.position + Text.size e.text)]
        ⟨visited, { top with untried := later } :: lower⟩)
  | taken : top.untried = e :: later → Text.strip? e.text top.rest = some rest →
      visited.seen e.destination (top.position + Text.size e.text) = false →
      m.Step ⟨visited, top :: lower⟩ (.running [.edge e (top.position + Text.size e.text)]
        ⟨visited.insert e.destination (top.position + Text.size e.text),
          ⟨e.destination, top.position + Text.size e.text, rest, m.outgoing e.destination, some e⟩ ::
            { top with untried := later } :: lower⟩)
  | accepted : top.untried = [] → m.accepts top.state top.position = true →
      m.Step ⟨visited, top :: lower⟩ (.accepted (.accept top.state top.position) (top :: lower))
  | emptied : top.untried = [] → m.accepts top.state top.position = false →
      m.Step ⟨visited, [top]⟩ (.running [.deadEnd top.state top.position] ⟨visited, []⟩)
  | resumed : top.untried = [] → m.accepts top.state top.position = false →
      m.Step ⟨visited, top :: parent :: lower⟩
        (.running [.deadEnd top.state top.position, .backtrack parent.state parent.position]
          ⟨visited, parent :: lower⟩)

theorem Setting.step_spec {m : Setting} {run : Run} {progress : Progress} (moved : m.step run = progress) :
    m.Step run progress := by
  subst moved
  obtain ⟨visited, stack⟩ := run
  cases stack with
  | nil => exact .failed
  | cons top lower =>
    cases left : top.untried with
    | nil =>
      cases accepts : m.accepts top.state top.position with
      | true => simpa [Setting.step, left, accepts] using Setting.Step.accepted left accepts
      | false =>
        cases lower with
        | nil => simpa [Setting.step, left, accepts] using Setting.Step.emptied left accepts
        | cons parent lower => simpa [Setting.step, left, accepts] using Setting.Step.resumed left accepts
    | cons e later =>
      cases stripped : Text.strip? e.text top.rest with
      | none => simpa [Setting.step, left, stripped] using Setting.Step.rejected left stripped
      | some rest =>
        cases seen : visited.seen e.destination (top.position + Text.size e.text) with
        | true => simpa [Setting.step, left, stripped, seen] using Setting.Step.revisited left stripped seen
        | false => simpa [Setting.step, left, stripped, seen] using Setting.Step.taken left stripped seen

theorem Setting.Step.moved {m : Setting} {run : Run} {progress : Progress} (step : m.Step run progress) :
    m.step run = progress := by
  cases step with
  | failed => rfl
  | rejected left stripped => simp [Setting.step, left, stripped]
  | revisited left stripped seen | taken left stripped seen => simp [Setting.step, left, stripped, seen]
  | accepted left accepts | emptied left accepts | resumed left accepts => simp [Setting.step, left, accepts]

section

variable {m : Setting} {observe : σ → Event → σ} {seen : σ} {run next : Run}

theorem Setting.explore_running (moved : m.step run = .running events next) :
    m.explore observe seen run = m.explore observe (events.foldl observe seen) next := by
  rw [Setting.explore.eq_def]
  split <;> simp_all

theorem Setting.explore_accepted (moved : m.step run = .accepted event stack) :
    m.explore observe seen run = (observe seen event, some stack) := by
  rw [Setting.explore.eq_def]
  split <;> simp_all

theorem Setting.explore_failed (moved : m.step run = .failed) : m.explore observe seen run = (seen, none) := by
  rw [Setting.explore.eq_def]
  split <;> simp_all

end

structure Valid (a : Automaton) (input : Text) (origin : Configuration) (run : Run) : Prop where
  fits : run.visited.Fits a.states.length (Text.size input + 1)
  trail : ∀ top lower, run.stack = top :: lower → ∃ edges tried untried,
    Trail a input origin (top :: lower) edges tried untried ∧ top.untried = untried.map (·.1)
  held : ∀ frame ∈ run.stack, run.visited.seen frame.state frame.position = true
  closed : ∀ c : Configuration, c.state < a.states.length → c.position ≤ Text.size input →
    run.visited.seen c.state c.position = true → Blocked a input (run.stack.map Frame.here) c
  began : origin.state < a.states.length ∧ origin.position ≤ Text.size input ∧
    run.visited.seen origin.state origin.position = true

theorem begin_valid (sealed : a.Sealed) (from_start : Text.from? input start = some rest) :
    Valid a input ⟨a.start, start⟩ ((Setting.of a input).begin start rest) := by
  have live := sealed.start_live
  have whole := Text.from?_size from_start
  have inside : start < Text.size input + 1 := by omega
  have fits := Visited.empty_fits a.states.length (Text.size input + 1)
  have marked := Visited.seen_insert_self fits inside a.start
  refine ⟨Visited.insert_fits fits _ _, ?_, ?_, ?_, live, Nat.le_of_lt_succ inside, marked⟩
  · intro top lower same
    cases same
    refine ⟨[], [], a.leaving a.start, .origin ⟨rfl, from_start, live⟩ rfl rfl ?_, ?_⟩
    · intro p member
      cases member
    · rw [Automaton.leaving_edges]
      exact Setting.of_outgoing a input a.start
  · intro frame member
    cases List.mem_singleton.mp member
    exact marked
  · intro c alive within seen
    have inside' : c.position < Text.size input + 1 := by omega
    rcases (Visited.seen_insert fits inside).mp seen with ⟨state, position⟩ | before
    · have same : c = ⟨a.start, start⟩ := by
        cases c
        cases state
        cases position
        rfl
      exact Blocked.of_mem (List.mem_singleton.mpr same)
    · rw [Visited.seen_empty alive inside'] at before
      cases before

theorem Valid.pass (valid : Valid a input origin ⟨visited, top :: lower⟩)
    (trail : Trail a input origin (top :: lower) edges tried (p :: later))
    (vain : Text.occursAt input top.position p.1.text = true →
      Blocked a input ((top :: lower).map Frame.here) (top.here.after p.1)) :
    Valid a input origin ⟨visited, { top with untried := later.map (·.1) } :: lower⟩ := by
  refine ⟨valid.fits, ?_, ?_, valid.closed, valid.began⟩
  · intro top' lower' same
    cases same
    exact ⟨edges, tried ++ [p], later, trail.advance vain _, rfl⟩
  · intro frame member
    rcases List.mem_cons.mp member with rfl | member
    · exact valid.held top List.mem_cons_self
    · exact valid.held frame (List.mem_cons_of_mem _ member)

theorem Trail.onward (sealed : a.Sealed) (trail : Trail a input origin (top :: lower) edges tried ((e, edge) :: later))
    (stripped : Text.strip? e.text top.rest = some rest) :
    Text.from? input (top.position + Text.size e.text) = some rest ∧
      Text.occursAt input top.position e.text = true ∧ e.destination < a.states.length ∧
      top.position + Text.size e.text ≤ Text.size input := by
  have standing := trail.standing
  have split := Text.strip?_eq_some.mp stripped
  have listed : (e, edge) ∈ a.leaving top.state := by rw [standing.leaving]; simp
  have next_rest := Text.from?_advance (split ▸ standing.rest)
  have whole := Text.from?_size next_rest
  exact ⟨next_rest, (Text.occursAt_iff standing.rest).mpr ⟨_, split⟩, Automaton.leaving_live sealed listed, by omega⟩

theorem Valid.push (sealed : a.Sealed) (valid : Valid a input origin ⟨visited, top :: lower⟩)
    (trail : Trail a input origin (top :: lower) edges tried ((e, edge) :: later))
    (occurs : Text.strip? e.text top.rest = some rest)
    (fresh : visited.seen e.destination (top.position + Text.size e.text) = false) :
    Valid a input origin ⟨visited.insert e.destination (top.position + Text.size e.text),
      ⟨e.destination, top.position + Text.size e.text, rest, a.outgoing e.destination, some e⟩ ::
        { top with untried := later.map (·.1) } :: lower⟩ := by
  obtain ⟨next_rest, occursAt, live, within⟩ := trail.onward sealed occurs
  have inside := Nat.lt_succ_of_le within
  have apart : top.here.after e ∉ (top :: lower).map Frame.here := by
    intro member
    obtain ⟨frame, present, same⟩ := List.mem_map.mp member
    have seen := valid.held frame present
    have state : frame.state = e.destination := congrArg Configuration.state same
    have position : frame.position = top.position + Text.size e.text := congrArg Configuration.position same
    rw [state, position, fresh] at seen
    cases seen
  refine ⟨Visited.insert_fits valid.fits _ _, ?_, ?_, ?_, ?_⟩
  · intro top' lower' same
    cases same
    refine ⟨edges ++ [edge], [], a.leaving e.destination, .push (trail.retry _) rfl occursAt rfl rfl apart
      ⟨rfl, next_rest, live⟩ ?_, (Automaton.leaving_edges _ _).symm⟩
    intro p member
    cases member
  · intro frame member
    rcases List.mem_cons.mp member with rfl | old
    · exact Visited.seen_insert_self valid.fits inside e.destination
    · apply Visited.seen_insert_of_seen _ _
      rcases List.mem_cons.mp old with rfl | below
      · exact valid.held top List.mem_cons_self
      · exact valid.held frame (List.mem_cons_of_mem _ below)
  · intro c alive within seen
    rcases (Visited.seen_insert valid.fits inside).mp seen with ⟨state, position⟩ | before
    · have same : c = top.here.after e := by cases c; simp_all [Configuration.after, Frame.here]
      exact Blocked.of_mem (List.mem_cons.mpr (.inl same))
    · exact (valid.closed c alive within before).mono fun x member => List.mem_cons_of_mem _ member
  · exact ⟨valid.began.1, valid.began.2.1, Visited.seen_insert_of_seen _ _ valid.began.2.2⟩

theorem Valid.pop (valid : Valid a input origin ⟨visited, top :: lower⟩)
    (trail : Trail a input origin (top :: lower) edges tried []) (rejects : ¬ Accepts a input top.here) :
    Valid a input origin ⟨visited, lower⟩ := by
  have gone : Blocked a input (lower.map Frame.here) top.here := by
    apply Blocked.of_leads rejects
    intro edge d leads
    obtain ⟨e, member, occurs, rfl⟩ := leads_iff.mp leads
    have spent : (e, edge) ∈ tried := by
      have listed : (e, edge) ∈ tried ++ [] := trail.standing.leaving ▸ member
      simpa using listed
    exact trail.spent _ spent occurs
  refine ⟨valid.fits, ?_, ?_, ?_, valid.began⟩
  · intro parent rest same
    subst same
    cases trail with
    | @push _ _ edges tried e edge later _ _ _ under left occurs here via fresh standing spent =>
      have returned : Trail a input origin (parent :: rest) edges (tried ++ [(e, edge)]) later :=
        under.advance (fun _ => here ▸ gone) parent.untried
      exact ⟨_, _, later, returned, left⟩
  · intro frame member
    exact valid.held frame (List.mem_cons_of_mem _ member)
  · intro c alive within seen
    exact (valid.closed c alive within seen).discharge gone

theorem Valid.next (valid : Valid a input origin ⟨visited, top :: lower⟩) (left : top.untried = e :: later) :
    ∃ edges tried edge rest, later = rest.map (·.1) ∧
      Trail a input origin (top :: lower) edges tried ((e, edge) :: rest) := by
  obtain ⟨edges, tried, untried, trail, listed⟩ := valid.trail top lower rfl
  rw [left] at listed
  cases untried with
  | nil => cases listed
  | cons p rest =>
    obtain ⟨rfl, rfl⟩ := List.cons.inj listed
    exact ⟨edges, tried, p.2, rest, rfl, trail⟩

theorem Valid.spent (valid : Valid a input origin ⟨visited, top :: lower⟩) (left : top.untried = []) :
    ∃ edges tried, Trail a input origin (top :: lower) edges tried [] := by
  obtain ⟨edges, tried, untried, trail, listed⟩ := valid.trail top lower rfl
  obtain rfl := List.map_eq_nil_iff.mp (listed.symm.trans left)
  exact ⟨edges, tried, trail⟩

theorem Valid.misses (valid : Valid a input origin ⟨visited, top :: lower⟩) (left : top.untried = e :: later)
    (stripped : Text.strip? e.text top.rest = none) : Text.occursAt input top.position e.text = false := by
  obtain ⟨edges, tried, edge, later, _, trail⟩ := valid.next left
  rw [← Bool.not_eq_true, Text.occursAt_iff trail.standing.rest]
  rintro ⟨after, split⟩
  exact Text.strip?_eq_none.mp stripped after split

theorem Valid.onward (sealed : a.Sealed) (valid : Valid a input origin ⟨visited, top :: lower⟩)
    (left : top.untried = e :: later) (stripped : Text.strip? e.text top.rest = some rest) :
    Text.occursAt input top.position e.text = true ∧ e.destination < a.states.length ∧
      top.position + Text.size e.text ≤ Text.size input := by
  obtain ⟨edges, tried, edge, later, _, trail⟩ := valid.next left
  exact (trail.onward sealed stripped).2

theorem not_accepts {c : Configuration} (rejects : (Setting.of a input).accepts c.state c.position = false) :
    ¬ Accepts a input c := fun accepting =>
  Bool.false_ne_true (rejects.symm.trans ((Setting.of_accepts a input c).mpr accepting))

theorem step_valid (sealed : a.Sealed) (valid : Valid a input origin run)
    (moved : (Setting.of a input).step run = .running events next) : Valid a input origin next := by
  cases Setting.step_spec moved with
  | rejected left stripped =>
    have misses := valid.misses left stripped
    obtain ⟨edges, tried, edge, later, rfl, trail⟩ := valid.next left
    refine valid.pass trail fun occurs => ?_
    exact (Bool.false_ne_true (misses.symm.trans occurs)).elim
  | @revisited e _ _ _ top _ left stripped seen =>
    obtain ⟨_, live, inside⟩ := valid.onward sealed left stripped
    obtain ⟨edges, tried, edge, later, rfl, trail⟩ := valid.next left
    exact valid.pass trail fun _ => valid.closed (top.here.after e) live inside seen
  | taken left stripped fresh =>
    obtain ⟨edges, tried, edge, later, rfl, trail⟩ := valid.next left
    rw [Setting.of_outgoing]
    exact valid.push sealed trail stripped fresh
  | @emptied _ top left rejects | @resumed _ top _ _ left rejects =>
    obtain ⟨edges, tried, trail⟩ := valid.spent left
    exact valid.pop trail (not_accepts (c := top.here) rejects)

theorem step_accepted (valid : Valid a input origin run)
    (moved : (Setting.of a input).step run = .accepted event stack) :
    ∃ top lower edges tried, stack = top :: lower ∧ Trail a input origin (top :: lower) edges tried [] ∧
      Accepts a input top.here := by
  cases Setting.step_spec moved with
  | @accepted _ top lower left accepts =>
    obtain ⟨edges, tried, trail⟩ := valid.spent left
    exact ⟨top, lower, edges, tried, rfl, trail, (Setting.of_accepts a input top.here).mp accepts⟩

theorem step_failed (valid : Valid a input origin run) (moved : (Setting.of a input).step run = .failed) :
    ¬ Reaches a input origin := by
  cases Setting.step_spec moved with
  | failed => exact not_reaches_of_blocked (valid.closed origin valid.began.1 valid.began.2.1 valid.began.2.2)

-- A search from one start fails only where nothing accepting can be reached, and accepts with a
-- stack that is a route, every edge before the ones on it tried in vain.
theorem explore_valid (sealed : a.Sealed) (observe : σ → Event → σ) (seen : σ) (valid : Valid a input origin run) :
    (((Setting.of a input).explore observe seen run).2 = none ∧ ¬ Reaches a input origin) ∨
      ∃ top lower edges tried, ((Setting.of a input).explore observe seen run).2 = some (top :: lower) ∧
        Trail a input origin (top :: lower) edges tried [] ∧ Accepts a input top.here := by
  fun_induction Setting.explore (Setting.of a input) observe seen run with
  | case1 seen run events next moved ih => exact ih (step_valid sealed valid moved)
  | case2 seen run event stack moved =>
    obtain ⟨top, lower, edges, tried, rfl, trail, accepts⟩ := step_accepted valid moved
    exact .inr ⟨top, lower, edges, tried, rfl, trail, accepts⟩
  | case3 seen run moved => exact .inl ⟨rfl, step_failed valid moved⟩

inductive Setting.Runs (m : Setting) : Run → List (List Event) → Run → Prop where
  | here : m.Runs run [] run
  | step : m.step run = .running events next → m.Runs next steps last → m.Runs run (events :: steps) last

theorem Setting.Runs.valid (sealed : a.Sealed) (runs : (Setting.of a input).Runs run steps last)
    (valid : Valid a input origin run) : Valid a input origin last := by
  induction runs with
  | here => exact valid
  | step moved _ ih => exact ih (step_valid sealed valid moved)

theorem Setting.explore_runs (m : Setting) (observe : σ → Event → σ) (seen : σ) (run : Run) :
    ∃ steps last, m.Runs run steps last ∧
      (m.step last = .failed ∧ m.explore observe seen run = (steps.flatten.foldl observe seen, none) ∨
        ∃ event stack, m.step last = .accepted event stack ∧
          m.explore observe seen run = ((steps.flatten ++ [event]).foldl observe seen, some stack)) := by
  fun_induction Setting.explore m observe seen run with
  | case1 seen run events next moved ih =>
    obtain ⟨steps, last, runs, ends⟩ := ih
    refine ⟨events :: steps, last, .step moved runs, ?_⟩
    simpa only [List.flatten_cons, List.foldl_append] using ends
  | case2 seen run event stack moved => exact ⟨[], run, .here, .inr ⟨event, stack, moved, rfl⟩⟩
  | case3 seen run moved => exact ⟨[], run, .here, .inl ⟨moved, rfl⟩⟩

end PatternMachine.Search
