import PatternMachine.Proofs.Construction.Assembly
import PatternMachine.Proofs.Pattern.Enclosing
import PatternMachine.Proofs.Text.Depth

namespace PatternMachine

open Text (occurrencesFrom bareCount)

namespace Text

theorem occurrencesFrom_bars (depth : Int) (p : Cursor) (later : List Cursor) :
    occurrencesFrom ['|'] true depth (p :: later) =
      (if p.isBare '|' ∧ depth = 0 then [p.offset] else []) ++ occurrencesFrom ['|'] true (past depth p) later := by
  have same : (!p.escaped && p.reads ['|']) = true ∧ (true = true → depth = [p].countP Cursor.closes) ↔
      p.isBare '|' = true ∧ depth = 0 := by
    by_cases bar : p.char = '|'
    · simp [Cursor.isBare, Cursor.closes, Cursor.reads, bar]
    · simp [Cursor.isBare, Cursor.reads, bar, Ne.symm bar]
  rw [occurrencesFrom_cons, if_congr same rfl rfl]

theorem occurrencesFrom_marks {marks : List Cursor} (silent : ∀ q ∈ marks, q.isMark = true) (depth : Int) :
    occurrencesFrom ['|'] true depth marks = [] := by
  induction marks generalizing depth with
  | nil => rfl
  | cons q marks ih =>
    obtain ⟨here, others⟩ := List.forall_mem_cons.mp silent
    have bare : ¬(q.isBare '|' = true ∧ depth = 0) := by simp [(Cursor.mark_silent here).2.2]
    rw [occurrencesFrom_bars, if_neg bare, ih others, List.nil_append]

end Text

section

variable {table : CaptureTable} {captures : List Nat} {p : Cursor} {rest : List Cursor} {token : Token}

theorem Role.role_bar : p.role = .bar ↔ p.isBare '|' = true := by
  unfold Cursor.role
  split_ifs with bar <;> simp_all

theorem Role.around_taken (taken : p.role.token? p rest = some token) :
    token.around table captures = p.role.around table captures p := by
  cases role : p.role <;> rw [role] at taken <;> cases taken <;> rfl

theorem Role.around_untaken (untaken : p.role.token? p rest = none) : p.role.around table captures p = captures := by
  cases role : p.role <;> rw [role] at untaken <;> first | rfl | cases untaken

theorem Role.bar_taken (taken : p.role.token? p rest = some token) : token = .bar ↔ p.isBare '|' = true := by
  rw [← Role.role_bar]
  cases role : p.role <;> rw [role] at taken <;> cases taken <;> simp

theorem Inside.behind {marks later : List Cursor} (inside : Inside table captures (marks ++ later))
    (silent : ∀ q ∈ marks, q.isMark = true) : Inside table captures later := by
  induction marks with
  | nil => exact inside
  | cons q marks ih =>
    obtain ⟨here, others⟩ := List.forall_mem_cons.mp silent
    have next := inside.next .bar
    rw [Role.around_silent table captures (Cursor.mark_silent here).1 (Cursor.mark_silent here).2.1] at next
    exact ih next others

theorem Inside.done (inside : Inside table captures []) : captures = [] := by
  obtain ⟨closers, _, ahead, nested, _⟩ := inside.around
  cases closers with
  | nil =>
    cases nested
    rfl
  | cons close closers => cases ahead.closes 0 (Nat.zero_lt_succ _)

end

namespace Builder

variable {table : CaptureTable} {body : Text} {front later : List Cursor} {b b' : Builder}

-- What a step of a balanced body keeps: the captures that stand around, and a branch of the body for each bar outside.
theorem Reached.unwinds (balanced : groupFault? body = none) (reached : Reached (.ofText body) body front later b) :
    Inside (.ofText body) b.captures later ∧
      ∃ fork, b.shape.head? = some (fork, 1 + (occurrencesFrom ['|'] true 0 front).length) := by
  induction reached with
  | begin => exact ⟨.of_balanced balanced, 0, rfl⟩
  | @step front p later b b' reached stepped ih =>
    obtain ⟨inside, fork, bars⟩ := ih
    obtain ⟨stands, depth⟩ := reached.stands
    have counted : (occurrencesFrom ['|'] true 0 (front ++ p :: later.take (p.role.skip p.after))).length =
        (occurrencesFrom ['|'] true 0 front).length + if p.isBare '|' ∧ b.outer.length = 0 then 1 else 0 := by
      have here : (0 : Int) + front.countP Cursor.opens - front.countP Cursor.closes = b.outer.length := by omega
      rw [Text.occurrencesFrom_append, here, Text.occurrencesFrom_bars, Text.occurrencesFrom_marks reached.marks,
        List.append_nil, List.length_append]
      simp only [Int.natCast_eq_zero]
      split <;> rfl
    have around : Inside (.ofText body) (p.role.around (.ofText body) b.captures p) (later.drop (p.role.skip p.after)) := by
      have next := inside.next .bar
      rw [Role.next_bar] at next
      rw [← List.take_append_drop (p.role.skip p.after) later] at next
      exact next.behind reached.marks
    rw [counted]
    unfold reads at stepped
    split at stepped
    · rename_i token taken
      have captures := (step_writes stepped).captures
      rw [captures, Role.around_taken taken]
      obtain ⟨fork', count, before, after⟩ :=
        (step_shapes stands stepped).outermost (shape_nonempty _) (shape_nonempty _)
      cases before.symm.trans bars
      have outside : (token = .bar ∧ b.shape.length = 1) ↔ (p.isBare '|' = true ∧ b.outer.length = 0) := by
        rw [Role.bar_taken taken, shape_length, Nat.add_eq_right]
      refine ⟨around, fork, after.trans ?_⟩
      simp only [outside]
      split <;> rfl
    · rename_i untaken
      cases stepped
      rw [Role.around_untaken untaken] at around
      have bare : ¬(p.isBare '|' = true ∧ b.outer.length = 0) := by
        intro both
        rw [Role.role_bar.mpr both.1] at untaken
        cases untaken
      rw [if_neg bare]
      exact ⟨around, fork, bars⟩

theorem Reached.last (balanced : groupFault? body = none) (reached : Reached (.ofText body) body body.cursors [] b)
    (flushed : b.flush = .ok b') : b'.outer = [] ∧ b'.level.ends.length = 1 + (body.occurrences ['|'] true).length ∧
      b'.captures = [] := by
  obtain ⟨inside, fork, bars⟩ := reached.unwinds balanced
  obtain ⟨_, depth⟩ := reached.stands
  have closed := (groupFaultFrom_eq_none.mp balanced).2
  have none_open : b.outer = [] := List.eq_nil_of_length_eq_zero (by simp only [List.length_nil] at closed; omega)
  have keeps := flush_keeps flushed
  have outer : b'.outer = [] := keeps.outer.trans none_open
  refine ⟨outer, ?_, (flush_emits flushed).captures.trans inside.done⟩
  have own : b'.shape = [(b'.level.fork, b'.level.ends.length)] := by simp [shape, levels, outer]
  rw [← keeps.shape, own] at bars
  exact congrArg Prod.snd (Option.some.inj bars)

end Builder

namespace Assembler

structure Stacked (m : Assembler) (depth : Nat) : Prop where
  forks : m.forks.length = depth + 1
  counts : m.counts.length = depth + 1
  positive : ∀ count ∈ m.counts, 1 ≤ count
  total : m.counts.sum = m.ends.length
  live : ∀ id ∈ m.start :: (m.forks ++ m.ends), id < m.arena.states.length
  start : m.start = 0
  bottom : m.forks.head? = some 0
  -- The branch being read is at its fork or off every fork.
  top : ∃ fork stop, m.forks.getLast? = some fork ∧ m.ends.getLast? = some stop ∧ (stop = fork ∨ stop ∉ m.forks)

-- A state removed while the ends `later` are still to be led back to `fork`. Every check of the two edits passes, the
-- state is not the fork and nothing that is held is it, so every id that is held becomes that of the same state.
structure Spared (c : Assembler) (fork gone : StateId) (later : List StateId) (c' : Assembler) : Prop where
  apart : gone ≠ fork
  start : gone ≠ c.start
  forks : gone ∉ c.forks
  ends : gone ∉ c.ends
  pending : gone ∉ later
  renumbered : c'.start = c.start.renumbered gone ∧ c'.forks = c.forks.map (·.renumbered gone) ∧
    c'.ends = c.ends.map (·.renumbered gone) ∧ c'.counts = c.counts
  edited : ∃ arena, (Arena.Operation.edit (.retargetIncoming gone fork)).run c.arena = .ok () arena ∧
    (Arena.Operation.edit (.removeState gone)).run arena = .ok () c'.arena ∧ arena.Reduced gone c'.arena
  same : ∀ id ∈ c.start :: (c.forks ++ c.ends) ++ later, ∃ state,
    c.arena.states[id]? = some state ∧ c'.arena.states[id.renumbered gone]? = some { state with id := id.renumbered gone }

end Assembler

namespace Builder

variable {table : CaptureTable} {body : Text} {front later : List Cursor} {b : Builder}

theorem Stands.stacked (stands : b.Stands) (bottom : b.forks.head? = some 0) : b.flat.Stacked b.outer.length where
  forks := by simp
  counts := by simp
  positive := by
    intro count member
    obtain ⟨level, _, rfl⟩ := List.mem_map.mp (show count ∈ b.levels.map (·.ends.length) from member)
    simp
  total := by
    show b.branchCounts.sum = b.branchEnds.length
    rw [branchEnds, List.length_flatMap, branchCounts]
  live := by
    refine List.forall_mem_cons.mpr ⟨?_, List.forall_mem_append.mpr ⟨stands.forks_live, stands.ends_live⟩⟩
    have start_lt : b.start < b.arena.states.length := by
      rw [stands.start]
      exact Nat.lt_of_le_of_lt (Nat.zero_le _) stands.levels.current_lt
    exact start_lt
  start := stands.start
  bottom := bottom
  top := ⟨b.level.fork, b.level.current, by simp, by simp, stands.current_off⟩

theorem Reached.stacked (reached : Reached table body front later b) : b.flat.Stacked b.outer.length :=
  reached.stands.1.stacked reached.bottom

theorem Looping.of_leads {first fork : StateId} {stops pending : List StateId} {c : Assembler} (looping : Looping first b stops)
    (leads : Assembler.Leads b.shell b.level.fork stops c fork pending) :
    ∃ c', Looped b stops c' pending ∧ Looping first c' pending ∧ c = c'.shell ∧ fork = c'.level.fork := by
  induction leads with
  | begin => exact ⟨b, .begin, looping, rfl, rfl⟩
  | skip _ ih =>
    obtain ⟨c', looped, here, rfl, rfl⟩ := ih
    exact ⟨c', looped.skip, here.skip, rfl, rfl⟩
  | link _ apart leaves linked ih =>
    obtain ⟨c', looped, here, rfl, rfl⟩ := ih
    obtain ⟨ran, onward⟩ := here.links apart
    obtain ⟨edited, _⟩ := link_edits (m := c'.shell) rfl rfl here.grown ran
    cases edited.symm.trans linked
    exact ⟨_, looped.link apart leaves ran, onward, rfl, rfl⟩
  | merge _ apart stuck absorbed ih =>
    obtain ⟨c', looped, here, rfl, rfl⟩ := ih
    obtain ⟨next, ran, kept, _, onward⟩ := here.merges apart stuck
    cases (absorb_shell here.grown ran).symm.trans absorbed
    refine ⟨next, looped.merge apart stuck ran, onward, rfl, ?_⟩
    rw [kept]
    exact StateId.renumbered_of_lt (Nat.lt_of_lt_of_le here.fork_lt (here.own apart).1)

namespace Looping

variable {first gone : StateId} {stops pending : List StateId}

theorem older (looping : Looping first b stops) : ∀ id ∈ b.shell.start :: (b.shell.forks ++ b.shell.ends), id < first := by
  have start_lt : b.start < first := by
    rw [looping.start]
    exact Nat.lt_of_le_of_lt (Nat.zero_le _) looping.fork_lt
  refine List.forall_mem_cons.mpr ⟨start_lt, List.forall_mem_append.mpr ⟨fun id member => ?_, fun id member => ?_⟩⟩
  · rcases List.mem_append.mp member with outer | inner
    · obtain ⟨level, held, rfl⟩ := List.mem_map.mp outer
      exact (looping.outer level (List.mem_reverse.mp held)).1
    · exact List.mem_singleton.mp inner ▸ looping.fork_lt
  · obtain ⟨level, held, ends⟩ := List.mem_flatMap.mp member
    exact (looping.outer level (List.mem_reverse.mp held)).2 id ends

theorem held (looping : Looping first b (gone :: pending)) (apart : gone ≠ b.level.fork) :
    ∀ id ∈ b.shell.start :: (b.shell.forks ++ b.shell.ends) ++ pending, id ≠ gone ∧ id < b.arena.states.length := by
  obtain ⟨first_le, _⟩ := looping.own apart
  refine List.forall_mem_append.mpr ⟨fun id member => ?_, fun id member => ⟨looping.other apart id member, ?_⟩⟩
  · have older := looping.older id member
    exact ⟨Nat.ne_of_lt (Nat.lt_of_lt_of_le older first_le), Nat.lt_of_lt_of_le older looping.first_le⟩
  · rcases looping.skip.inside id member with rfl | ⟨_, below⟩
    · exact Nat.lt_of_lt_of_le looping.fork_lt looping.first_le
    · exact below

theorem spared (looping : Looping first b (gone :: pending)) (apart : gone ≠ b.level.fork)
    (stuck : b.arena.hasOutgoing gone = false) : ∃ c : Assembler, b.shell.absorb gone b.level.fork = .ok c ∧
      Assembler.Spared b.shell b.level.fork gone pending c := by
  obtain ⟨_, _, _, ran, _, _⟩ := looping.absorbs apart stuck
  obtain ⟨middle, retargeted, removing⟩ := bind_ok.mp ran
  obtain ⟨arena, removed, _⟩ := bind_ok.mp removing
  have retargeted := checked_ok.mp retargeted
  have removed := checked_ok.mp removed
  have grown := looping.grown.retargetIncoming retargeted
  have reduced := Arena.removeState_reduced grown.sound removed
  have moved := Arena.edit_performed looping.grown.sound (.retargetIncoming gone b.level.fork) retargeted
  have erased := Arena.edit_performed grown.sound (.removeState gone) removed
  have held := looping.held apart
  obtain ⟨kept, pending⟩ := List.forall_mem_append.mp held
  obtain ⟨start, kept⟩ := List.forall_mem_cons.mp kept
  obtain ⟨forks, ends⟩ := List.forall_mem_append.mp kept
  refine ⟨_, Assembler.absorb_ok (m := b.shell) looping.grown retargeted removed, apart, start.1.symm,
    fun member => (forks gone member).1 rfl, fun member => (ends gone member).1 rfl, fun member => (pending gone member).1 rfl,
    ⟨rfl, rfl, rfl, rfl⟩, ⟨middle, moved, erased, reduced⟩, fun id member => ?_⟩
  obtain ⟨different, live⟩ := held id member
  obtain ⟨_, rfl⟩ := Arena.retargetIncoming_ok.mp retargeted
  refine ⟨b.arena.states[id], List.getElem?_eq_getElem live, ?_⟩
  show arena.states[id.renumbered gone]? = _
  rw [reduced.states id different, List.getElem?_eq_getElem live]
  rfl

end Looping

theorem Reached.counted {before rest : Text} (whole : body = before ++ rest) (reached : Reached table body front (Text.ahead before rest) b)
    (c : Char) : bareCount body c (Text.size before) = front.countP (·.isBare c) := by
  refine Text.bareCount_cut reached.split (fun p member => ?_) (Text.cursorsFrom_ascending rest _ _).1 c
  have split := reached.split
  cases rest with
  | nil =>
    obtain ⟨front', whole', place, _⟩ := Text.mem_cursors.mp (show p ∈ body.cursors by simp [split, member])
    have positive := p.char.utf8Size_pos
    have same : Text.size before = Text.size (front' ++ p.char :: p.after) := by rw [← whole', whole, List.append_nil]
    rw [Text.size_append, Text.size_cons] at same
    omega
  | cons d after =>
    rw [Text.ahead_cons] at split
    exact (Text.cursors_around split).1 p member

end Builder

namespace Assembler

open Builder (flatAnswer)

variable {table : CaptureTable} {body : Text} {offset : Nat} {m : Assembler}

theorem Reached.stacked (reached : Reached table body offset m) : ∃ depth,
    bareCount body '(' offset = bareCount body ')' offset + depth ∧ m.Stacked depth ∧
      ∀ flushed, m.flush = .ok flushed → flushed.Stacked depth := by
  obtain ⟨before, rest, front, b, whole, rfl, built, rfl⟩ := reached.built
  obtain ⟨stands, depth⟩ := built.stands
  obtain ⟨flushed, ran, stands', outer⟩ := stands.flush
  have bottom : flushed.forks.head? = some 0 := by
    rw [Builder.forks_eq, (Builder.flush_keeps ran).shape, ← Builder.forks_eq]
    exact built.bottom
  refine ⟨b.outer.length, ?_, stands.stacked built.bottom, fun other same => ?_⟩
  · rw [built.counted whole, built.counted whole]
    exact depth
  · cases (Builder.flush_flat stands.grown ran).symm.trans same
    exact outer ▸ stands'.stacked bottom

-- A loop that is closed where the scan has come to runs to its end, and no state that it removes is held.
theorem Reached.spares (reached : Reached table body offset m) : ∃ flushed closing ends fork, m.flush = .ok flushed ∧
    flushed.detach = .ok (closing, ends) ∧ closing.fork = .ok fork ∧
    (∃ last, Leads closing fork ends.eraseReps last fork [] ∧ closing.closeLoop ends = .ok (last, fork)) ∧
    ∀ c target gone pending, Leads closing fork ends.eraseReps c target (gone :: pending) → gone ≠ target →
      c.arena.hasOutgoing gone = false → ∃ c', c.absorb gone target = .ok c' ∧ Spared c target gone pending c' ∧
        closing.closeLoop ends = c'.leadBack (target.renumbered gone) (pending.map (·.renumbered gone)) := by
  obtain ⟨_, _, _, b, _, _, built, rfl⟩ := reached.built
  have grown := built.stands.1.grown
  obtain ⟨b, ran, stands, _⟩ := built.stands.1.flush
  obtain ⟨first, here, around⟩ := stands.levels.innermost
  have looping := stands.looping here around
  obtain ⟨last, ended⟩ := looping.ends .begin
  have leads := Builder.leads_shell looping ended
  rw [(looping.of_looped ended).2.1] at leads
  have closes : ∀ c target later, Leads b.shell b.level.fork b.level.ends.eraseReps c target later →
      b.shell.closeLoop b.level.ends = c.leadBack target later := by
    intro c target later leads
    rw [← leads.leadBack, closeLoop, b.shell_fork]
    rfl
  refine ⟨b.flat, b.shell, b.level.ends, b.level.fork, Builder.flush_flat grown ran, b.detach_flat, b.shell_fork,
    ⟨last.shell, leads, ?_⟩, ?_⟩
  · rw [closes _ _ _ leads, leadBack]
  · intro c target gone pending leads apart stuck
    obtain ⟨c', _, here', rfl, rfl⟩ := looping.of_leads leads
    obtain ⟨next, absorbed, spared⟩ := here'.spared apart stuck
    exact ⟨next, absorbed, spared, closes _ _ _ (leads.merge apart stuck absorbed)⟩

-- The scan of any body under any table is made of steps, up to its end or to the fault of the last one. After each of them, and
-- after the last edge is written, the stacks stand as deep as groups are open. A loop, wherever it is closed, removes no state
-- that is held. And a balanced body leaves nothing on the stacks but its own branches.
theorem scan_stacks (table : CaptureTable) (body : Text) :
    (∀ offset m, Reached table body offset m →
      ∃ depth, bareCount body '(' offset = bareCount body ')' offset + depth ∧ m.Stacked depth) ∧
    ((∃ m last, Reached table body body.size m ∧ m.flush = .ok last ∧ scan table body = .ok last ∧
        ∃ depth, bareCount body '(' body.size = bareCount body ')' body.size + depth ∧ last.Stacked depth) ∨
      ∃ offset m c after fault, Reached table body offset m ∧ body.from? offset = some (c :: after) ∧
        m.step table body offset c = .error fault ∧ scan table body = .error fault) ∧
    (∀ offset m, Reached table body offset m → ∃ flushed closing ends fork, m.flush = .ok flushed ∧
      flushed.detach = .ok (closing, ends) ∧ closing.fork = .ok fork ∧
      (∃ last, Leads closing fork ends.eraseReps last fork [] ∧ closing.closeLoop ends = .ok (last, fork)) ∧
      ∀ c target gone pending, Leads closing fork ends.eraseReps c target (gone :: pending) → gone ≠ target →
        c.arena.hasOutgoing gone = false → ∃ c', c.absorb gone target = .ok c' ∧ Spared c target gone pending c' ∧
          closing.closeLoop ends = c'.leadBack (target.renumbered gone) (pending.map (·.renumbered gone))) ∧
    (table = .ofText body → groupFault? body = none → ∃ last, scan table body = .ok last ∧ last.forks.length = 1 ∧
      last.ends.length = 1 + (body.occurrences ['|'] true).length ∧ last.counts.length = 1 ∧ last.captures.length = 0) := by
  refine ⟨fun offset m reached => ?_, ?_, fun offset m reached => reached.spares, ?_⟩
  · obtain ⟨depth, counted, stacked, _⟩ := reached.stacked
    exact ⟨depth, counted, stacked⟩
  · refine (Reached.begin.ends rfl).imp_left fun ⟨m, reached, scanned⟩ => ?_
    obtain ⟨depth, counted, _, stacked⟩ := reached.stacked
    obtain ⟨flushed, _, _, _, ran, _⟩ := reached.spares
    exact ⟨m, flushed, reached, ran, scanned.trans ran, depth, counted, stacked flushed ran⟩
  · intro own balanced
    cases own
    have within : ¬body.Overclosed := fun exceeds => (groupFaultFrom_eq_none.mp balanced).1 (Text.overclosed_iff.mp exceeds)
    obtain ⟨_, scanned, _⟩ := ((Builder.scan_verdict (.ofText body) body).resolve_left fun faulted => within faulted.1).2
    rcases (Builder.Reached.begin : Builder.Reached (.ofText body) body [] _ _).ends with
      ⟨b, reached, ran⟩ | ⟨_, _, _, _, _, _, _, faulted⟩
    · obtain ⟨last, flushed, _, _⟩ := reached.stands.1.flush
      obtain ⟨outer, ends, captures⟩ := reached.last balanced flushed
      have answer : scan (.ofText body) body = .ok last.flat := by
        rw [Builder.scan_flat, ran, flushed]
        rfl
      refine ⟨last.flat, answer, by simp [outer], ?_, by simp [outer], ?_⟩
      · simpa [outer] using ends
      · exact List.length_eq_zero_iff.mpr captures
    · cases faulted.symm.trans scanned

-- A starred group with two branches, in front of a second branch of the body, and what stands before that group is closed.
def starring : Text := "(a|b)*|c".toList

def starred : Assembler :=
  ⟨⟨[⟨0, false⟩, ⟨1, false⟩, ⟨2, false⟩], [⟨0, 1, [], []⟩, ⟨1, 2, ['a'], [0]⟩]⟩,
    0, [0, 1], [1, 2, 1], [1, 2], [0], ['b']⟩

theorem starred_reached : Reached (.ofText starring) starring 4 starred := by
  have opened : Reached (.ofText starring) starring (0 + 1) _ := Reached.begin.step rfl rfl
  exact ((opened.step rfl rfl).step rfl rfl).step rfl rfl

theorem scan_stacks_starring :
    Reached (.ofText starring) starring 4 starred ∧
    (∃ flushed closing reduced, starred.flush = .ok flushed ∧ flushed.detach = .ok (closing, [2, 3]) ∧
      closing.absorb 2 1 = .ok reduced ∧ Spared closing 1 2 [3] reduced) ∧
    ∃ last, scan (.ofText starring) starring = .ok last ∧ last.forks.length = 1 ∧ last.ends.length = 2 ∧
      last.counts.length = 1 ∧ last.captures.length = 0 := by
  obtain ⟨_, _, loops, unwound⟩ := scan_stacks (.ofText starring) starring
  obtain ⟨flushed, closing, ends, fork, ran, detached, forked, _, spares⟩ := loops _ _ starred_reached
  have shown : ends = [2, 3] ∧ fork = 1 ∧ closing.arena.hasOutgoing 2 = false := by
    cases ran
    cases detached
    cases forked
    exact ⟨rfl, rfl, rfl⟩
  obtain ⟨rfl, rfl, stuck⟩ := shown
  obtain ⟨reduced, absorbed, spared, _⟩ := spares closing 1 2 [3] .begin (by decide) stuck
  obtain ⟨last, scanned, depths⟩ := unwound rfl rfl
  exact ⟨starred_reached, ⟨flushed, closing, reduced, ran, detached, absorbed, spared⟩, last, scanned, depths⟩

end Assembler
end PatternMachine
