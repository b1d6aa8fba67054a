import PatternMachine.Proofs.Construction.Assembler
import PatternMachine.Proofs.Construction.Stacks
import PatternMachine.Proofs.Pattern.Pairing

namespace PatternMachine

def BuildFault.raised : BuildFault → AssemblyFault
  | .noBranchEnd => .noBranchEnd
  | .arena fault => .edit (.refused fault)

theorem BuildFault.raised_text (fault : BuildFault) : fault.raised.text? = some fault.message := by
  cases fault <;> rfl

namespace Assembler

variable {m : Assembler} {front : List StateId} {stop : StateId}

theorem edit_ok {operation : Arena.Operation} {arena : Arena} (grown : m.arena.Grown)
    (performed : m.arena.perform operation = .ok arena) : m.edit operation = .ok { m with arena } := by
  rw [edit, Arena.edit_performed grown.sound operation performed]

theorem setBranchEnd_ok (ends : m.ends = front ++ [stop]) (id : StateId) :
    m.setBranchEnd id = .ok { m with ends := front ++ [id] } := by
  simp [setBranchEnd, branchEnd, expect, ends, bind, Except.bind, pure, Except.pure]

theorem setBranchEnd_empty (ends : m.ends = []) (id : StateId) : m.setBranchEnd id = .error .noBranchEnd := by
  simp [setBranchEnd, branchEnd, expect, ends, bind, Except.bind]

theorem absorb_ok {middle arena : Arena} {gone target : StateId} (grown : m.arena.Grown)
    (retargeted : m.arena.retargetIncoming gone target = .ok middle) (removed : middle.removeState gone = .ok arena) :
    m.absorb gone target = .ok { m with
      arena
      start := m.start.renumbered gone
      forks := m.forks.map (·.renumbered gone)
      ends := m.ends.map (·.renumbered gone) } := by
  have moved : m.edit (.retargetIncoming gone target) = .ok { m with arena := middle } := edit_ok grown retargeted
  have erased : { m with arena := middle }.edit (.removeState gone) = .ok { m with arena } :=
    edit_ok (m := { m with arena := middle }) (grown.retargetIncoming retargeted) removed
  exact bind_ok.mpr ⟨_, moved, bind_ok.mpr ⟨_, erased, rfl⟩⟩

theorem Leads.leadBack {c : Assembler} {fork target : StateId} {stops later : List StateId} (leads : Leads m fork stops c target later) :
    m.leadBack fork stops = c.leadBack target later := by
  induction leads with
  | begin => rfl
  | skip _ ih => rw [ih, Assembler.leadBack, if_pos (beq_self_eq_true _)]
  | link _ apart leaves linked ih =>
    rw [ih, Assembler.leadBack, if_neg fun same => apart (beq_iff_eq.mp same), if_pos leaves, linked]
  | merge _ apart stuck absorbed ih =>
    rw [ih, Assembler.leadBack, if_neg fun same => apart (beq_iff_eq.mp same), if_neg (Bool.eq_false_iff.mp stuck), absorbed]

end Assembler

@[simp] theorem Level.ends_length (level : Level) : level.ends.length = level.closed.length + 1 := by
  simp [ends]

@[simp] theorem Level.renumbered_fork (level : Level) (gone : StateId) :
    (level.renumbered gone).fork = level.fork.renumbered gone := rfl

@[simp] theorem Level.renumbered_closed (level : Level) (gone : StateId) :
    (level.renumbered gone).closed = level.closed.map (·.renumbered gone) := rfl

@[simp] theorem Level.renumbered_ends (level : Level) (gone : StateId) :
    (level.renumbered gone).ends = level.ends.map (·.renumbered gone) := by
  simp [renumbered, ends]

namespace Builder

def branchCounts (b : Builder) : List Nat := b.levels.map (·.ends.length)

def flat (b : Builder) : Assembler := ⟨b.arena, b.start, b.forks, b.branchEnds, b.branchCounts, b.captures, b.pending⟩

-- What stands while the innermost group is closed: of it only the fork is left.
def shell (b : Builder) : Assembler where
  arena := b.arena
  start := b.start
  forks := b.outer.reverse.map (·.fork) ++ [b.level.fork]
  ends := b.outer.reverse.flatMap Level.ends
  counts := b.outer.reverse.map (·.ends.length)
  captures := b.captures
  pending := b.pending

variable {b b' : Builder}

@[simp] theorem flat_forks (b : Builder) : b.flat.forks = b.outer.reverse.map (·.fork) ++ [b.level.fork] := by
  simp [flat, forks, levels]

theorem branchEnds_eq (b : Builder) :
    b.branchEnds = (b.outer.reverse.flatMap Level.ends ++ b.level.closed) ++ [b.level.current] := by
  simp only [branchEnds, levels, List.flatMap_append, List.flatMap_singleton, List.append_assoc]
  rfl

@[simp] theorem flat_ends (b : Builder) :
    b.flat.ends = (b.outer.reverse.flatMap Level.ends ++ b.level.closed) ++ [b.level.current] := b.branchEnds_eq

@[simp] theorem flat_counts (b : Builder) :
    b.flat.counts = b.outer.reverse.map (·.ends.length) ++ [b.level.ends.length] := by
  simp [flat, branchCounts, levels]

theorem flat_branchEnd (b : Builder) : b.flat.branchEnd = .ok b.level.current := by
  simp [Assembler.branchEnd, Assembler.expect]

theorem flat_fork (b : Builder) : b.flat.fork = .ok b.level.fork := by
  simp [Assembler.fork, Assembler.expect]

theorem link_edits {m : Assembler} {origin destination : StateId} {text : Text} (arena : m.arena = b.arena)
    (captures : m.captures = b.captures) (grown : b.arena.Grown) (linked : b.link origin destination text = .ok b') :
    m.link origin destination text = .ok { m with arena := b'.arena } ∧ b'.arena.Grown := by
  obtain ⟨next, added, same⟩ := bind_ok.mp linked
  cases same
  have added := checked_ok.mp added
  refine ⟨?_, grown.addEdge added⟩
  rw [← arena] at grown added
  rw [← captures] at added
  exact Assembler.edit_ok grown added

theorem flat_setCurrent (b : Builder) (id : StateId) :
    (b.setCurrent id).flat = { b.flat with ends := (b.outer.reverse.flatMap Level.ends ++ b.level.closed) ++ [id] } := by
  have ends : b.outer.reverse.flatMap Level.ends ++ b.level.closed ++ [id] = (b.setCurrent id).flat.ends :=
    (flat_ends (b.setCurrent id)).symm
  rw [ends]
  simp [flat, setCurrent, forks, branchCounts, levels, Level.ends]

theorem extend_flat {text : Text} (grown : b.arena.Grown) (extended : b.extend text = .ok b') :
    b.flat.extend b.level.current text = .ok (b'.flat, b'.level.current) := by
  obtain ⟨linked, ran, same⟩ := bind_ok.mp extended
  cases same
  have added : b.flat.edit .addState = .ok { b.flat with arena := b.arena.addState } := Assembler.edit_ok grown rfl
  obtain ⟨edited, _⟩ := link_edits (m := { b.flat with arena := b.arena.addState })
    (b := { b with arena := b.arena.addState }) rfl rfl grown.addState ran
  have moved := Assembler.setBranchEnd_ok (m := { b.flat with arena := linked.arena }) b.flat_ends b.arena.nextId
  rw [link_keeps ran, flat_setCurrent]
  exact bind_ok.mpr ⟨_, added, bind_ok.mpr ⟨_, edited, bind_ok.mpr ⟨_, moved, rfl⟩⟩⟩

theorem flush_flat (grown : b.arena.Grown) (flushed : b.flush = .ok b') : b.flat.flush = .ok b'.flat := by
  unfold flush at flushed
  unfold Assembler.flush
  split at flushed
  · rename_i nothing
    cases flushed
    exact if_pos nothing
  · rename_i some
    have extended := extend_flat (b := { b with pending := [] }) grown flushed
    rw [if_neg (show ¬b.flat.pending.isEmpty = true from some)]
    exact bind_ok.mpr ⟨_, b.flat_branchEnd, bind_ok.mpr ⟨_, extended, rfl⟩⟩

theorem loopEntry_flat (grown : b.arena.Grown) (entered : b.loopEntry = .ok b') :
    b.flat.loopEntry = .ok (b'.flat, b'.level.current) := by
  refine bind_ok.mpr ⟨_, b.flat_branchEnd, ?_⟩
  unfold loopEntry at entered
  split at entered
  · rename_i held
    exact (if_pos held).trans (extend_flat grown entered)
  · rename_i apart
    cases entered
    exact if_neg apart

theorem star_flat {c : Char} (stands : b.Stands) (starred : b.star c = .ok b') : b.flat.star c = .ok b'.flat := by
  obtain ⟨flushed, ran, onward⟩ := bind_ok.mp starred
  obtain ⟨entered, ran', linked⟩ := bind_ok.mp onward
  obtain ⟨_, ran'', stands', _⟩ := stands.flush
  cases ran.symm.trans ran''
  obtain ⟨_, ran'', stands'', _⟩ := stands'.loopEntry
  cases ran'.symm.trans ran''
  obtain ⟨edited, _⟩ := link_edits (m := entered.flat) rfl rfl stands''.grown linked
  rw [link_keeps linked]
  exact bind_ok.mpr ⟨_, flush_flat stands.grown ran, bind_ok.mpr ⟨_, loopEntry_flat stands'.grown ran', edited⟩⟩

theorem openBranch_flat (stands : b.Stands) (opened : b.openBranch = .ok b') : b.flat.openBranch = .ok b'.flat := by
  obtain ⟨flushed, ran, same⟩ := bind_ok.mp opened
  cases same
  have counted : Assembler.expect .noBranchCount flushed.flat.counts.getLast? = .ok flushed.level.ends.length := by
    simp [Assembler.expect]
  refine bind_ok.mpr ⟨_, flush_flat stands.grown ran, bind_ok.mpr ⟨_, flushed.flat_fork, bind_ok.mpr ⟨_, counted, ?_⟩⟩⟩
  simp [flat, forks, branchEnds, branchCounts, levels, Level.ends, pure, Except.pure]

theorem openGroup_flat {table : CaptureTable} {body : Text} {offset : Nat} {starred : Bool} (stands : b.Stands)
    (loops : (groupEnd? body offset).any (fun close => Assembler.isRepeated body (close + 1)) = starred)
    (opened : b.openGroup table offset starred = .ok b') : b.flat.openGroup table body offset = .ok b'.flat := by
  rw [openGroup_eq] at opened
  obtain ⟨entered, approached, same⟩ := bind_ok.mp opened
  obtain ⟨flushed, ran, ran'⟩ := bind_ok.mp approached
  cases same
  obtain ⟨_, ran'', stands', _⟩ := stands.flush
  cases ran.symm.trans ran''
  have close : (body.countedEnd? offset).mapError AssemblyFault.depth = .ok (groupEnd? body offset) := by
    rw [body.countedEnd?_eq]
    rfl
  have entry : flushed.flat.approach starred = .ok (entered.flat, entered.level.current) := by
    cases starred with
    | true => exact loopEntry_flat stands'.grown ran'
    | false =>
      cases ran'
      rw [Assembler.approach, if_neg Bool.false_ne_true, flat_branchEnd]
      rfl
  rw [← loops] at entry
  refine bind_ok.mpr ⟨_, flush_flat stands.grown ran, bind_ok.mpr ⟨_, close, bind_ok.mpr ⟨_, entry, ?_⟩⟩⟩
  simp [flat, forks, branchEnds, branchCounts, levels, Level.ends, pure, Except.pure]

theorem detach_flat (b : Builder) : b.flat.detach = .ok (b.shell, b.level.ends) := by
  have counted : Assembler.expect .noGroup b.flat.counts.getLast? = .ok b.level.ends.length := by
    simp [Assembler.expect]
  have whole : b.flat.ends = b.outer.reverse.flatMap Level.ends ++ b.level.ends := by
    rw [flat_ends, List.append_assoc]
    rfl
  have kept : Assembler.expect .underflow (if b.level.ends.length ≤ b.flat.ends.length then
      some (b.flat.ends.length - b.level.ends.length) else none) = .ok (b.outer.reverse.flatMap Level.ends).length := by
    rw [whole, List.length_append, if_pos (Nat.le_add_left _ _), Nat.add_sub_cancel]
    rfl
  have taken : { b.flat with ends := b.outer.reverse.flatMap Level.ends, counts := b.outer.reverse.map (·.ends.length) } =
      b.shell := by
    simp [flat, shell, forks, levels]
  refine bind_ok.mpr ⟨_, counted, bind_ok.mpr ⟨_, kept, ?_⟩⟩
  simp only [whole, List.take_left, List.drop_left, flat_counts, List.dropLast_concat, taken]
  rfl

theorem absorb_shell {gone : StateId} (grown : b.arena.Grown) (absorbed : b.absorb gone b.level.fork = .ok b') :
    b.shell.absorb gone b.level.fork = .ok b'.shell := by
  obtain ⟨middle, retargeted, removing⟩ := bind_ok.mp absorbed
  obtain ⟨arena, removed, same⟩ := bind_ok.mp removing
  cases same
  -- The stacks around are renumbered level by level on the one side and entry by entry on the other.
  rw [Assembler.absorb_ok (m := b.shell) grown (checked_ok.mp retargeted) (checked_ok.mp removed)]
  simp [shell, List.map_flatMap, List.flatMap_map, ← List.map_reverse]

theorem leads_shell {first : StateId} {stops later : List StateId} {c : Builder} (looping : Looping first b stops)
    (looped : Looped b stops c later) : Assembler.Leads b.shell b.level.fork stops c.shell c.level.fork later := by
  induction looped with
  | begin => exact .begin
  | skip _ ih => exact .skip ih
  | @link c stop later c' looped apart leaves linked ih =>
    obtain ⟨here, _⟩ := looping.of_looped looped
    obtain ⟨edited, _⟩ := link_edits (m := c.shell) rfl rfl here.grown linked
    have same := link_keeps linked
    have onward : c.shell.link stop c.level.fork [] = .ok c'.shell := by
      rw [same]
      exact edited
    have forks : c'.level.fork = c.level.fork := by rw [same]
    exact forks ▸ .link ih apart leaves onward
  | @merge c gone later c' looped apart stuck absorbed ih =>
    obtain ⟨here, _⟩ := looping.of_looped looped
    have forks : c'.level.fork = c.level.fork.renumbered gone := by
      obtain ⟨_, _, removing⟩ := bind_ok.mp absorbed
      obtain ⟨_, _, same⟩ := bind_ok.mp removing
      cases same
      rfl
    exact forks ▸ .merge ih apart stuck (absorb_shell here.grown absorbed)

theorem shell_fork (b : Builder) : b.shell.fork = .ok b.level.fork := by
  simp [Assembler.fork, Assembler.expect, shell]

theorem joining_shell {target : StateId} {stops : List StateId} (grown : b.arena.Grown)
    (linked : stops.foldlM (fun b id => b.link id target []) b = .ok b') :
    stops.foldlM (fun (m : Assembler) id => m.link id target []) b.shell = .ok b'.shell := by
  induction stops generalizing b with
  | nil =>
    cases linked
    rfl
  | cons id stops ih =>
    obtain ⟨next, first, rest⟩ := bind_ok.mp linked
    obtain ⟨edited, grown'⟩ := link_edits (m := b.shell) rfl rfl grown first
    have onward : b.shell.link id target [] = .ok next.shell := by
      rw [link_keeps first]
      exact edited
    exact bind_ok.mpr ⟨_, onward, ih grown' rest⟩

theorem join_shell {stops : List StateId} (grown : b.arena.Grown) (joined : b.join stops = .ok b') :
    b.shell.join stops = .ok (b'.shell, b'.level.current) := by
  unfold Assembler.join
  split
  · cases joined
    rfl
  · rename_i several
    rw [join.eq_2 b stops several] at joined
    obtain ⟨linked, ran, same⟩ := bind_ok.mp joined
    cases same
    have added : b.shell.edit .addState = .ok { b.shell with arena := b.arena.addState } := Assembler.edit_ok grown rfl
    have onward := joining_shell (b := { b with arena := b.arena.addState }) grown.addState ran
    exact bind_ok.mpr ⟨_, added, bind_ok.mpr ⟨_, onward, rfl⟩⟩

theorem gather_shell {starred : Bool} (stands : b.Stands)
    (done : (if starred then b.closeLoop b.level.ends.eraseReps else b.join b.level.ends) = .ok b') :
    b.shell.gather starred b.level.ends = .ok (b'.shell, b'.level.current) := by
  cases starred with
  | false => exact join_shell stands.grown done
  | true =>
    obtain ⟨first, here, around⟩ := stands.levels.innermost
    have looping := stands.looping here around
    obtain ⟨last, looped⟩ := looping.ends .begin
    have closed : b.closeLoop b.level.ends.eraseReps = .ok (last.setCurrent last.level.fork) := by
      rw [looped.closeLoop, closeLoop]
    cases closed.symm.trans done
    refine bind_ok.mpr ⟨_, b.shell_fork, ?_⟩
    rw [(leads_shell looping looped).leadBack, Assembler.leadBack]
    rfl

theorem leave_shell (table : CaptureTable) (b : Builder) (offset : Nat) {level : Level} {outer : List Level}
    (held : b.outer = level :: outer) : b.shell.leave table offset b.level.current = .ok (flat { b with
      level := { level with current := b.level.current }
      outer
      captures := if b.captures.getLast?.any (table.closesAt · offset) then b.captures.dropLast else b.captures }) := by
  have ends : b.shell.ends = (outer.reverse.flatMap Level.ends ++ level.closed) ++ [level.current] := by
    simp only [shell, held, List.reverse_cons, List.flatMap_append, List.flatMap_singleton, List.append_assoc]
    rfl
  have moved := Assembler.setBranchEnd_ok (m := { b.shell with forks := b.shell.forks.dropLast }) ends b.level.current
  have depths : b.shell.forks.dropLast.length = b.shell.counts.length := by simp [shell]
  refine bind_ok.mpr ⟨_, moved, ?_⟩
  dsimp only
  rw [if_neg (not_not.mpr depths)]
  simp [shell, flat, forks, branchEnds_eq, branchCounts, levels, held, pure, Except.pure]

theorem leave_outermost (table : CaptureTable) (b : Builder) (offset : Nat) (stop : StateId) (held : b.outer = []) :
    b.shell.leave table offset stop = .error .noBranchEnd := by
  have ends : b.shell.ends = [] := by simp [shell, held]
  have faulted := Assembler.setBranchEnd_empty (m := { b.shell with forks := b.shell.forks.dropLast }) ends stop
  simp only [Assembler.leave, faulted, bind, Except.bind]

def flatAnswer : Step → Assembler.Result Assembler
  | .ok b => .ok b.flat
  | .error fault => .error fault.raised

theorem closeGroup_flat (stands : b.Stands) (table : CaptureTable) (offset : Nat) (starred : Bool) :
    b.flat.closeGroup table offset starred = flatAnswer (b.closeGroup table offset starred) := by
  obtain ⟨flushed, ran, stands', _⟩ := stands.flush
  obtain ⟨first, here, around⟩ := stands'.levels.innermost
  obtain ⟨reached, done, closes⟩ := stands'.closes here around starred
  have left : b.flat.closeGroup table offset starred = reached.shell.leave table offset reached.level.current := by
    rw [Assembler.closeGroup, flush_flat stands.grown ran]
    simp only [bind, Except.bind, detach_flat, gather_shell stands' done]
  rw [left, closeGroup_eq_leave, ran]
  show _ = flatAnswer (flushed.leave table offset starred)
  cases held : reached.outer with
  | nil =>
    rw [leave_outermost table reached offset _ held, leave, done]
    simp only [Except.bind, held]
    rfl
  | cons level outer =>
    rw [leave_shell table reached offset held, leave_of_reached done held]
    rfl

end Builder

namespace Text

variable {body before rest : Text}

theorem occursBareAt_cut (before rest value : Text) :
    occursBareAt (before ++ rest) (size before) value = (!endsEscaping before && value.isPrefixOf rest) := by
  have here : from? (before ++ rest) (size before) = some rest := from?_eq_some.mpr ⟨before, rfl, rfl⟩
  rw [occursBareAt, isEscaped_cut, occursAt, here, Option.any_some]

theorem isRepeated_behind {p : Cursor} (member : p ∈ body.cursors) (plain : p.isBare '\\' = false) :
    Assembler.isRepeated body (p.offset + p.char.utf8Size) = Token.startsStar p.after := by
  obtain ⟨before, rfl, place, escaped⟩ := mem_cursors.mp member
  have cut := occursBareAt_cut (before ++ [p.char]) p.after ['*']
  have settled : endsEscaping (before ++ [p.char]) = false := by
    rw [endsEscaping_concat, ← escaped, Bool.and_comm]
    exact plain
  rw [settled, size_append, size_cons, size_nil, Nat.add_zero, ← place, List.append_assoc] at cut
  rw [Assembler.isRepeated]
  refine cut.trans ?_
  cases p.after with
  | nil => rfl
  | cons c rest => simp [Token.startsStar, List.isPrefixOf, eq_comm]

end Text

namespace Builder

variable {table : CaptureTable} {body : Text} {front later : List Cursor} {p : Cursor} {b : Builder}

theorem utf8Size_of_isBare {c : Char} (bare : p.isBare c = true) : p.char.utf8Size = c.utf8Size := by
  simp only [Cursor.isBare, Bool.and_eq_true, beq_iff_eq] at bare
  rw [bare.2]

theorem isRepeated_closing (member : p ∈ body.cursors) (closes : p.closes = true) :
    Assembler.isRepeated body (p.offset + 1) = Token.startsStar p.after := by
  have width : p.char.utf8Size = 1 := utf8Size_of_isBare closes
  have plain : p.isBare '\\' = false := by
    simp only [Cursor.closes, Cursor.isBare, Bool.and_eq_true, beq_iff_eq] at closes ⊢
    simp [closes.2]
  rw [← Text.isRepeated_behind member plain, width]

theorem loops_closing (split : body.cursors = front ++ p :: later) (opens : p.opens = true) :
    (groupEnd? body p.offset).any (fun close => Assembler.isRepeated body (close + 1)) = Token.loops later := by
  rw [Text.groupEnd?_at split opens, Token.loops]
  cases walked : closing? 0 later with
  | none => rfl
  | some close =>
    obtain ⟨inner, behind, rfl, closes, _⟩ := closing?_eq_some.mp walked
    exact isRepeated_closing (by simp [split]) closes

theorem step_flat (stands : b.Stands) (split : body.cursors = front ++ p :: later) :
    b.flat.step table body p.offset p.char = (flatAnswer (b.reads table p later)).map (·, p.char.utf8Size + p.role.skip p.after) := by
  have member : p ∈ body.cursors := by simp [split]
  obtain ⟨before, whole, place, escaped⟩ := Text.mem_cursors.mp member
  have bare : ∀ c, body.occursBareAt p.offset [c] = p.isBare c := by
    intro c
    rw [whole, place, Text.occursBareAt_cut, Cursor.isBare, escaped]
    exact congrArg (!before.endsEscaping && ·) (Text.reads_single p c)
  rw [Assembler.step, reads]
  simp only [bare]
  by_cases bar : p.isBare '|' = true
  · have role : p.role = .bar := by simp [Cursor.role, bar]
    obtain ⟨b', ran, _⟩ := stands.openBranch
    rw [if_pos bar, role, utf8Size_of_isBare bar, openBranch_flat stands ran]
    simp only [Role.token?, Builder.step, ran]
    rfl
  by_cases opens : p.isBare '(' = true
  · have role : p.role = .opening := by simp [Cursor.role, Cursor.opens, bar, opens]
    obtain ⟨b', ran, _⟩ := stands.openGroup table p.offset (Token.loops later)
    have width : Char.utf8Size '(' + Token.markWidth p.after = if CaptureTable.plainMark.isPrefixOf p.after then 3 else 1 := by
      unfold Token.markWidth
      split <;> rfl
    rw [if_neg bar, if_pos opens, role, utf8Size_of_isBare opens, Role.skip, width,
      openGroup_flat stands (loops_closing split opens) ran, CaptureTable.occursAt_mark split opens]
    simp only [Role.token?, Builder.step, ran]
    rfl
  by_cases closes : p.isBare ')' = true
  · have role : p.role = .closing := by simp [Cursor.role, Cursor.opens, Cursor.closes, bar, opens, closes]
    have width : Char.utf8Size ')' + Token.starWidth (Token.startsStar p.after) = if Token.startsStar p.after then 2 else 1 := by
      unfold Token.starWidth
      split <;> rfl
    rw [if_neg bar, if_neg opens, if_pos closes, role, utf8Size_of_isBare closes, Role.skip, width,
      closeGroup_flat stands, isRepeated_closing member closes]
    rfl
  by_cases escapes : p.isBare '\\' = true
  · have role : p.role = .escape := by simp [Cursor.role, Cursor.opens, Cursor.closes, bar, opens, closes, escapes]
    rw [if_neg bar, if_neg opens, if_neg closes, if_pos escapes, role, utf8Size_of_isBare escapes]
    rfl
  have role : p.role = .literal := by simp [Cursor.role, Cursor.opens, Cursor.closes, bar, opens, closes, escapes]
  have starred := Text.isRepeated_behind member (Bool.eq_false_iff.mpr escapes)
  rw [if_neg bar, if_neg opens, if_neg closes, if_neg escapes, role, starred, Role.skip, Role.token?]
  cases Token.startsStar p.after with
  | false => rfl
  | true =>
    obtain ⟨b', ran, _⟩ := stands.star p.char
    simp only [Builder.step, if_true, star_flat stands ran, ran]
    rfl

end Builder
end PatternMachine
