import Mathlib.Algebra.Ring.Nat
import PatternMachine.Proofs.Construction.Standing

namespace PatternMachine

namespace Token

def width : Token → Nat
  | .literal _ starred | .closing _ starred => 1 + starWidth starred
  | .bar | .opening _ _ => 1

theorem starWidth_le (after : Text) : starWidth (startsStar after) ≤ after.length := by
  cases after with
  | nil => exact Nat.le_refl _
  | cons c after => cases startsStar (c :: after) <;> simp [starWidth]

theorem role_width (role : Role) (p : Cursor) (rest : List Cursor) :
    ((role.token? p rest).toList.map width).sum ≤ 1 + min (role.skip p.after) p.after.length := by
  have star := starWidth_le p.after
  cases role <;> simp [Role.token?, Role.skip, width]
  all_goals omega

theorem ofCursors_width (skip offset : Nat) (flag : Bool) (s : Text) :
    ((ofCursors skip (Text.cursorsFrom offset flag s)).map width).sum + min skip s.length ≤ s.length := by
  induction s generalizing skip offset flag with
  | nil => simp [Text.cursorsFrom, ofCursors]
  | cons c rest ih =>
    rw [Text.cursorsFrom, List.length_cons]
    cases skip with
    | zero =>
      rw [ofCursors_role, List.map_append, List.sum_append]
      have here := role_width (Cursor.role ⟨offset, c, rest, flag⟩) ⟨offset, c, rest, flag⟩
        (Text.cursorsFrom (offset + c.utf8Size) (c == '\\' && !flag) rest)
      have later := ih ((Cursor.role ⟨offset, c, rest, flag⟩).skip rest) (offset + c.utf8Size) (c == '\\' && !flag)
      dsimp only at here later ⊢
      omega
    | succ skip =>
      have later := ih skip (offset + c.utf8Size) (c == '\\' && !flag)
      rw [ofCursors]
      omega

theorem ofText_width (body : Text) : ((ofText body).map width).sum ≤ body.length := by
  have whole := ofCursors_width 0 0 false body
  rw [Nat.zero_min, Nat.add_zero] at whole
  exact whole

end Token

namespace Builder

-- Branches that have ended in groups still open, each with one more edge to come.
def waiting (b : Builder) : Nat := b.level.closed.length + (b.outer.map (·.closed.length)).sum

def credit (b : Builder) : Nat := b.pending.length + b.waiting

-- From one builder to another for no more edges than were paid for, and no more states than edges.
structure Pays (paid : Nat) (b b' : Builder) : Prop where
  edges : b'.arena.edges.length + b'.credit ≤ b.arena.edges.length + b.credit + paid
  states : b'.arena.states.length + b.arena.edges.length ≤ b.arena.states.length + b'.arena.edges.length

variable {b b' b'' : Builder} {text : Text} {paid more : Nat} {ends : List StateId}

namespace Pays

theorem nothing (b : Builder) : Pays 0 b b := ⟨Nat.le_refl _, Nat.le_refl _⟩

theorem trans (first : Pays paid b b') (second : Pays more b' b'') : Pays (paid + more) b b'' := by
  obtain ⟨edges, states⟩ := first
  obtain ⟨edges', states'⟩ := second
  exact ⟨by omega, by omega⟩

theorem mono (pays : Pays paid b b') (le : paid ≤ more) : Pays more b b' :=
  ⟨Nat.le_trans pays.edges (Nat.add_le_add_left le _), pays.states⟩

end Pays

structure Links (count : Nat) (b b' : Builder) : Prop where
  edges : b'.arena.edges.length = b.arena.edges.length + count
  states : b'.arena.states.length = b.arena.states.length
  level : b'.level = b.level
  credit : b'.credit = b.credit

theorem Links.pays (links : Links paid b b') : Pays paid b b' := by
  obtain ⟨edges, states, _, credit⟩ := links
  exact ⟨by omega, by omega⟩

theorem Links.entered (links : Links paid { b with arena := b.arena.addState } b') (some : 0 < paid) (id : StateId) :
    Pays paid b (b'.setCurrent id) := by
  have added : b.arena.addState.states.length = b.arena.states.length + 1 := List.length_append
  have edges : b'.arena.edges.length = b.arena.edges.length + paid := links.edges
  have states : b'.arena.states.length = b.arena.addState.states.length := links.states
  have credit : (b'.setCurrent id).credit = b.credit := links.credit
  refine ⟨?_, ?_⟩
  · show b'.arena.edges.length + _ ≤ _
    omega
  · show b'.arena.states.length + _ ≤ _ + b'.arena.edges.length
    omega

theorem link_links {origin destination : StateId} (linked : b.link origin destination text = .ok b') : Links 1 b b' := by
  obtain ⟨arena, added, same⟩ := bind_ok.mp linked
  obtain ⟨_, _, rfl⟩ := Arena.addEdge_ok.mp (checked_ok.mp added)
  cases same
  exact ⟨List.length_append, rfl, rfl, rfl⟩

theorem linkEach_links {target : StateId} (linked : ends.foldlM (fun b id => b.link id target []) b = .ok b') :
    Links ends.length b b' := by
  induction ends generalizing b with
  | nil =>
    cases linked
    exact ⟨rfl, rfl, rfl, rfl⟩
  | cons id ends ih =>
    rw [List.foldlM_cons] at linked
    obtain ⟨next, first, rest⟩ := bind_ok.mp linked
    obtain ⟨edges, states, level, credit⟩ := link_links first
    obtain ⟨edges', states', level', credit'⟩ := ih rest
    exact ⟨by rw [edges', edges, List.length_cons]; omega, states'.trans states, level'.trans level, credit'.trans credit⟩

theorem extend_pays (extended : b.extend text = .ok b') : Pays 1 b b' := by
  obtain ⟨linked, ran, same⟩ := bind_ok.mp extended
  cases same
  exact (link_links ran).entered Nat.zero_lt_one _

theorem flush_pays (flushed : b.flush = .ok b') : Pays 0 b b' := by
  unfold flush at flushed
  split at flushed
  · cases flushed
    exact .nothing b
  · rename_i some
    have spent : 0 < b.pending.length := List.length_pos_iff.mpr fun none => some (by simp [none])
    obtain ⟨edges, states⟩ := extend_pays flushed
    refine ⟨?_, states⟩
    simp only [credit, waiting, List.length_nil] at edges ⊢
    omega

theorem loopEntry_pays (entered : b.loopEntry = .ok b') : Pays 1 b b' := by
  unfold loopEntry at entered
  split at entered
  · exact extend_pays entered
  · cases entered
    exact (Pays.nothing b).mono (Nat.zero_le _)

theorem approach_pays {starred : Bool} (approached : b.approach starred = .ok b') : Pays 1 b b' := by
  obtain ⟨next, flushed, entered⟩ := bind_ok.mp approached
  have pays := flush_pays flushed
  cases starred with
  | false =>
    cases entered
    exact pays.mono (Nat.zero_le _)
  | true => exact pays.trans (loopEntry_pays entered)

theorem absorb_pays {gone target : StateId} (absorbed : b.absorb gone target = .ok b') :
    Pays 0 b b' ∧ b'.level.closed.length = b.level.closed.length := by
  obtain ⟨middle, retargeted, absorbed⟩ := bind_ok.mp absorbed
  obtain ⟨arena, removed, same⟩ := bind_ok.mp absorbed
  obtain ⟨_, rfl⟩ := Arena.retargetIncoming_ok.mp (checked_ok.mp retargeted)
  obtain ⟨live, _, rfl⟩ := Arena.removeState_ok.mp (checked_ok.mp removed)
  cases same
  refine ⟨⟨?_, ?_⟩, ?_⟩
  · simp [credit, waiting, Level.renumbered, Function.comp_def]
  · have fewer := List.length_eraseIdx_le b.arena.states gone
    simp
    omega
  · simp [Level.renumbered]

-- The ends still to come are renumbered on the way, so the induction is on their number.
theorem closeLoop_pays (closed : b.closeLoop ends = .ok b') :
    Pays ends.length b b' ∧ b'.level.closed.length = b.level.closed.length := by
  induction count : ends.length generalizing b ends with
  | zero =>
    cases List.eq_nil_of_length_eq_zero count
    rw [closeLoop] at closed
    cases closed
    exact ⟨⟨Nat.le_refl _, Nat.le_refl _⟩, rfl⟩
  | succ n ih =>
    cases ends with
    | nil => cases count
    | cons id later =>
      have shorter : later.length = n := Nat.succ.inj count
      rw [closeLoop] at closed
      split at closed
      · obtain ⟨pays, kept⟩ := ih closed shorter
        exact ⟨pays.mono (Nat.le_succ n), kept⟩
      · split at closed
        · split at closed
          · cases closed
          · rename_i linked ran
            have links := link_links ran
            obtain ⟨pays, kept⟩ := ih closed shorter
            exact ⟨(links.pays.trans pays).mono (Nat.le_of_eq (Nat.add_comm 1 n)), by rw [kept, links.level]⟩
        · split at closed
          · cases closed
          · rename_i merged ran
            obtain ⟨first, level⟩ := absorb_pays ran
            obtain ⟨pays, kept⟩ := ih closed (by simpa using shorter)
            exact ⟨(first.trans pays).mono (by omega), kept.trans level⟩

theorem join_pays (joined : b.join ends = .ok b') (some : ends ≠ []) :
    Pays ends.length b b' ∧ b'.level.closed.length = b.level.closed.length := by
  unfold join at joined
  split at joined
  · cases joined
    exact ⟨⟨Nat.le_succ _, Nat.le_refl _⟩, rfl⟩
  · obtain ⟨linked, ran, same⟩ := bind_ok.mp joined
    have links := linkEach_links ran
    cases same
    exact ⟨links.entered (List.length_pos_iff.mpr some) _, congrArg (·.closed.length) links.level⟩

-- The bars of a group pay for all of its ends but one, and its closing for that.
theorem leave_pays {table : CaptureTable} {offset : Nat} {starred : Bool} (left : b.leave table offset starred = .ok b') :
    Pays 1 b b' := by
  obtain ⟨inner, closed, popped⟩ := bind_ok.mp left
  have counted : b.level.ends.length = b.level.closed.length + 1 := by simp [Level.ends]
  have onward : Pays (b.level.closed.length + 1) b inner ∧ inner.level.closed.length = b.level.closed.length := by
    cases starred with
    | false => exact counted ▸ join_pays closed (by simp [Level.ends])
    | true =>
      obtain ⟨pays, kept⟩ := closeLoop_pays closed
      exact ⟨pays.mono (counted ▸ (eraseReps_spec b.level.ends).1.length_le), kept⟩
  obtain ⟨⟨edges, states⟩, kept⟩ := onward
  split at popped
  · cases popped
  · rename_i level outer around
    cases popped
    refine ⟨?_, states⟩
    simp only [credit, waiting, around, List.map_cons, List.sum_cons] at edges ⊢
    omega

theorem step_pays {table : CaptureTable} {token : Token} (stepped : b.step table token = .ok b') :
    Pays token.width b b' := by
  cases token with
  | literal c starred =>
    cases starred with
    | false =>
      cases stepped
      refine ⟨?_, Nat.le_refl _⟩
      simp [credit, waiting, Token.width, Token.starWidth]
      omega
    | true =>
      rw [step, star_eq] at stepped
      obtain ⟨next, approached, linked⟩ := bind_ok.mp stepped
      exact (approach_pays approached).trans (link_links linked).pays
  | bar =>
    obtain ⟨next, flushed, same⟩ := bind_ok.mp stepped
    obtain ⟨edges, states⟩ := flush_pays flushed
    cases same
    refine ⟨?_, states⟩
    simp [credit, waiting, Token.width, Level.ends] at edges ⊢
    omega
  | opening offset starred =>
    rw [step, openGroup_eq] at stepped
    obtain ⟨next, approached, same⟩ := bind_ok.mp stepped
    obtain ⟨edges, states⟩ := approach_pays approached
    cases same
    refine ⟨?_, states⟩
    simpa [credit, waiting, Token.width] using edges
  | closing offset starred =>
    rw [step, closeGroup_eq_leave] at stepped
    obtain ⟨next, flushed, left⟩ := bind_ok.mp stepped
    exact ((flush_pays flushed).trans (leave_pays left)).mono (by simp [Token.width])

theorem run_pays {table : CaptureTable} {tokens : List Token} (ran : b.run table tokens = .ok b') :
    Pays (tokens.map Token.width).sum b b' := by
  induction tokens generalizing b with
  | nil =>
    cases ran
    exact .nothing _
  | cons token rest ih =>
    obtain ⟨next, stepped, ran⟩ := bind_ok.mp ran
    rw [List.map_cons, List.sum_cons]
    exact (step_pays stepped).trans (ih ran)

theorem scan_pays {table : CaptureTable} {body : Text} (scanned : scan table body = .ok b) : Pays body.length initial b := by
  obtain ⟨last, ran, flushed⟩ := bind_ok.mp scanned
  exact ((run_pays ran).trans (flush_pays flushed)).mono (Token.ofText_width body)

-- The automaton of a body has no more edges than the body has characters, and beyond its start no more states, whatever
-- the table and whichever groups are left open.
theorem finish_size {table : CaptureTable} {body : Text} {b : Builder} (scanned : scan table body = .ok b) (anchors : Anchors) :
    ∃ a, b.finish table anchors = .ok a ∧ a.states.length ≤ body.length + 1 ∧ a.edges.length ≤ body.length := by
  obtain ⟨a, finished, edges, count, _⟩ := (scan_stands scanned).finish_keeps table anchors
  obtain ⟨edges', states'⟩ := scan_pays scanned
  have blank : initial.arena.edges.length = 0 ∧ initial.credit = 0 ∧ initial.arena.states.length = 1 := ⟨rfl, rfl, rfl⟩
  have within : b.arena.edges.length ≤ body.length := by omega
  exact ⟨a, finished, by rw [count]; omega, edges ▸ within⟩

-- `a(b|c*)*(|d`, where an end is merged, another one looped back, and a group never closed.
def unclosedBody : Text := ['a', '(', 'b', '|', 'c', '*', ')', '*', '(', '|', 'd']

theorem finish_size_unclosed :
    ∃ b a, scan (.ofText unclosedBody) unclosedBody = .ok b ∧ b.outer.length = 1 ∧
      b.finish (.ofText unclosedBody) ⟨false, true⟩ = .ok a ∧ a.states.length ≤ 12 ∧ a.edges.length ≤ 11 := by
  have scanned : scan (.ofText unclosedBody) unclosedBody = .ok ⟨Arena.blank 4 [⟨0, 1, ['a'], []⟩, ⟨1, 1, ['b'], [0]⟩,
      ⟨1, 2, [], [0]⟩, ⟨2, 2, ['c'], [0]⟩, ⟨2, 1, [], [0]⟩, ⟨1, 3, ['d'], []⟩],
      0, ⟨1, [1], 3⟩, [⟨0, [], 1⟩], [], []⟩ := by
    decide +kernel
  obtain ⟨a, finished, states, edges⟩ := finish_size scanned ⟨false, true⟩
  exact ⟨_, a, scanned, rfl, finished, states, edges⟩

-- The bounds are reached.
example : (build [] ['a'] ⟨false, false⟩).map (fun a => (a.states.length, a.edges.length)) = .ok (2, 1) := rfl

end Builder
end PatternMachine
