import PatternMachine.Proofs.Construction.Scan
import PatternMachine.Proofs.Construction.Writing

namespace PatternMachine

-- A level among `count` states: its branches end at the fork or in states of their own from `first` on.
structure Level.Stands (level : Level) (first count : StateId) : Prop where
  fork_lt : level.fork < first
  first_le : first ≤ count
  ends : ∀ id ∈ level.ends, id = level.fork ∨ first ≤ id ∧ id < count
  distinct : level.ends.Pairwise fun id other => id = other → id = level.fork

inductive Standing : Level → List Level → StateId → Prop where
  | outermost : level.Stands first count → Standing level [] count
  | inside : level.Stands first count → Standing around outer first → level.fork = around.current →
      Standing level (around :: outer) count

namespace Level.Stands

variable {level : Level} {first count : StateId}

theorem ends_lt (stands : level.Stands first count) : ∀ id ∈ level.ends, id < count := by
  intro id member
  rcases stands.ends id member with rfl | ⟨_, below⟩
  · exact Nat.lt_of_lt_of_le stands.fork_lt stands.first_le
  · exact below

theorem moved (stands : level.Stands first count) {later target : StateId} (le : count ≤ later) (beyond : count ≤ target)
    (below : target < later) : Level.Stands { level with current := target } first later := by
  have fork_lt := Nat.lt_of_lt_of_le stands.fork_lt stands.first_le
  refine ⟨stands.fork_lt, Nat.le_trans stands.first_le le, ?_, ?_⟩
  · intro id member
    rcases List.mem_append.mp member with old | new
    · exact (stands.ends id (List.mem_append_left _ old)).imp_right fun bounds => ⟨bounds.1, Nat.lt_of_lt_of_le bounds.2 le⟩
    · cases List.mem_singleton.mp new
      exact .inr ⟨Nat.le_trans stands.first_le beyond, below⟩
  · refine List.pairwise_append.mpr ⟨(List.pairwise_append.mp stands.distinct).1, List.pairwise_singleton _ _, ?_⟩
    intro id member other single same
    cases List.mem_singleton.mp single
    have bound := stands.ends_lt id (List.mem_append_left _ member)
    rw [same] at bound
    exact (Nat.not_lt.mpr beyond bound).elim

theorem mono (stands : level.Stands first count) {later : StateId} (le : count ≤ later) : level.Stands first later :=
  ⟨stands.fork_lt, Nat.le_trans stands.first_le le,
    fun id member => (stands.ends id member).imp_right fun bounds => ⟨bounds.1, Nat.lt_of_lt_of_le bounds.2 le⟩,
    stands.distinct⟩

theorem branched (stands : level.Stands first count) : Level.Stands ⟨level.fork, level.ends, level.fork⟩ first count := by
  refine ⟨stands.fork_lt, stands.first_le, ?_, ?_⟩
  · intro id member
    rcases List.mem_append.mp member with old | new
    · exact stands.ends id old
    · exact .inl (List.mem_singleton.mp new)
  · refine List.pairwise_append.mpr ⟨stands.distinct, List.pairwise_singleton _ _, ?_⟩
    intro id _ other single same
    exact same.trans (List.mem_singleton.mp single)

end Level.Stands

namespace Standing

variable {level around : Level} {outer : List Level} {count later : StateId}

theorem bounds (standing : Standing level outer count) :
    ∀ held ∈ level :: outer, held.fork < count ∧ ∀ id ∈ held.ends, id < count := by
  induction standing with
  | outermost stands =>
    intro held member
    cases List.mem_singleton.mp member
    exact ⟨Nat.lt_of_lt_of_le stands.fork_lt stands.first_le, stands.ends_lt⟩
  | inside stands _ _ ih =>
    intro held member
    rcases List.mem_cons.mp member with rfl | older
    · exact ⟨Nat.lt_of_lt_of_le stands.fork_lt stands.first_le, stands.ends_lt⟩
    · obtain ⟨fork, ends⟩ := ih held older
      exact ⟨Nat.lt_of_lt_of_le fork stands.first_le, fun id member => Nat.lt_of_lt_of_le (ends id member) stands.first_le⟩

theorem current_lt (standing : Standing level outer count) : level.current < count :=
  (standing.bounds level List.mem_cons_self).2 level.current (List.mem_append_right _ (List.mem_singleton.mpr rfl))

theorem change (standing : Standing level outer count) {next : Level} (fork : next.fork = level.fork)
    (stands : ∀ first, level.Stands first count → next.Stands first later) : Standing next outer later := by
  cases standing with
  | outermost here => exact .outermost (stands _ here)
  | inside here standing same => exact .inside (stands _ here) standing (fork.trans same)

theorem moved (standing : Standing level outer count) {target : StateId} (le : count ≤ later) (beyond : count ≤ target)
    (below : target < later) : Standing { level with current := target } outer later :=
  standing.change rfl fun _ stands => stands.moved le beyond below

theorem resumed (standing : Standing around outer count) (le : count ≤ later) {target : StateId}
    (place : target = around.current ∨ count ≤ target ∧ target < later) :
    Standing { around with current := target } outer later := by
  rcases place with rfl | ⟨beyond, below⟩
  · exact standing.change rfl fun _ stands => stands.mono le
  · exact standing.moved le beyond below

theorem entered (standing : Standing level outer count) :
    Standing ⟨level.current, [], level.current⟩ (level :: outer) count := by
  refine .inside ⟨standing.current_lt, Nat.le_refl _, ?_, List.pairwise_singleton _ _⟩ standing rfl
  intro id member
  exact .inl (List.mem_singleton.mp member)

theorem innermost (standing : Standing level outer count) :
    ∃ first, level.Stands first count ∧ ∀ held ∈ outer, held.fork < first ∧ ∀ id ∈ held.ends, id < first := by
  cases standing with
  | outermost stands => exact ⟨_, stands, List.forall_mem_nil _⟩
  | inside stands standing _ => exact ⟨_, stands, standing.bounds⟩

end Standing

def Token.Nests (before after : Nat) : Token → Prop
  | .opening _ _ => after = before + 1
  | .closing _ _ => before = after + 1
  | _ => after = before

namespace Builder

structure Stands (b : Builder) : Prop where
  start : b.start = 0
  levels : Standing b.level b.outer b.arena.states.length
  grown : b.arena.Grown

def Stays (b : Builder) (result : Step) : Prop := ∃ b', result = .ok b' ∧ b'.Stands ∧ b'.outer = b.outer

variable {b : Builder}

theorem Stays.bind {result : Step} {next : Builder → Step} (stays : b.Stays result)
    (onward : ∀ b' : Builder, b'.Stands → b'.outer = b.outer → b'.Stays (next b')) : b.Stays (result.bind next) := by
  obtain ⟨b', rfl, stands, outer⟩ := stays
  obtain ⟨b'', ran, stands', outer'⟩ := onward b' stands outer
  exact ⟨b'', ran, stands', outer'.trans outer⟩

theorem linked_grown (grown : b.arena.Grown) {origin destination : StateId} (origin_lt : origin < b.arena.states.length)
    (destination_lt : destination < b.arena.states.length) (text : Text) :
    (b.linked origin destination text).arena.Grown :=
  grown.addEdge (Arena.addEdge_ok.mpr ⟨origin_lt, destination_lt, rfl⟩)

namespace Stands

variable (stands : b.Stands)
include stands

theorem extend (text : Text) : b.Stays (b.extend text) := by
  have count : b.arena.addState.states.length = b.arena.states.length + 1 := by simp [Arena.addState]
  have fresh : b.arena.nextId < b.arena.addState.states.length := by
    rw [count]
    exact Nat.lt_succ_self _
  have current : b.level.current < b.arena.addState.states.length := Nat.lt_trans stands.levels.current_lt fresh
  have linked : ({ b with arena := b.arena.addState } : Builder).link b.level.current b.arena.nextId text = .ok _ :=
    link_live current fresh text
  refine ⟨_, bind_ok.mpr ⟨_, linked, rfl⟩, ⟨stands.start, ?_, linked_grown stands.grown.addState current fresh text⟩, rfl⟩
  show Standing _ _ b.arena.addState.states.length
  rw [count]
  exact stands.levels.moved (Nat.le_succ _) (Nat.le_refl _) (Nat.lt_succ_self _)

theorem flush : b.Stays b.flush := by
  unfold Builder.flush
  split
  · exact ⟨b, rfl, stands, rfl⟩
  · have cleared : ({ b with pending := [] } : Builder).Stands := ⟨stands.start, stands.levels, stands.grown⟩
    exact cleared.extend b.pending

theorem loopEntry : b.Stays b.loopEntry := by
  unfold Builder.loopEntry
  split
  · exact stands.extend []
  · exact ⟨b, rfl, stands, rfl⟩

theorem approach (starred : Bool) : b.Stays (b.approach starred) := by
  refine stands.flush.bind fun b' stands' _ => ?_
  cases starred with
  | false => exact ⟨b', rfl, stands', rfl⟩
  | true => exact stands'.loopEntry

theorem star (c : Char) : b.Stays (b.star c) := by
  rw [star_eq]
  refine (stands.approach true).bind fun b' stands' _ => ?_
  have current_lt := stands'.levels.current_lt
  exact ⟨_, link_live current_lt current_lt [c],
    ⟨stands'.start, stands'.levels, linked_grown stands'.grown current_lt current_lt [c]⟩, rfl⟩

theorem openBranch : b.Stays b.openBranch := by
  obtain ⟨b', flushed, stands', outer⟩ := stands.flush
  refine ⟨_, bind_ok.mpr ⟨b', flushed, rfl⟩, ⟨stands'.start, ?_, stands'.grown⟩, outer⟩
  exact stands'.levels.change rfl fun _ here => here.branched

theorem openGroup (table : CaptureTable) (offset : Nat) (starred : Bool) :
    ∃ b', b.openGroup table offset starred = .ok b' ∧ b'.Stands ∧ b'.outer.length = b.outer.length + 1 := by
  rw [openGroup_eq]
  obtain ⟨b', approached, stands', outer⟩ := stands.approach starred
  exact ⟨_, bind_ok.mpr ⟨b', approached, rfl⟩, ⟨stands'.start, stands'.levels.entered, stands'.grown⟩,
    congrArg (List.length · + 1) outer⟩

end Stands

inductive Looped (b : Builder) (stops : List StateId) : Builder → List StateId → Prop where
  | begin : Looped b stops b stops
  | skip : Looped b stops c (c.level.fork :: later) → Looped b stops c later
  | link : Looped b stops c (stop :: later) → stop ≠ c.level.fork → c.arena.hasOutgoing stop = true →
      c.link stop c.level.fork [] = .ok c' → Looped b stops c' later
  | merge : Looped b stops c (gone :: later) → gone ≠ c.level.fork → c.arena.hasOutgoing gone = false →
      c.absorb gone c.level.fork = .ok c' → Looped b stops c' (later.map (·.renumbered gone))

-- What holds of a loop while it is closed, its own states being those from `first` on.
structure Looping (first : StateId) (c : Builder) (stops : List StateId) : Prop where
  grown : c.arena.Grown
  start : c.start = 0
  fork_lt : c.level.fork < first
  first_le : first ≤ c.arena.states.length
  outer : ∀ level ∈ c.outer, level.fork < first ∧ ∀ id ∈ level.ends, id < first
  inside : ∀ id ∈ stops, id = c.level.fork ∨ first ≤ id ∧ id < c.arena.states.length
  distinct : stops.Pairwise fun id other => id = other → id = c.level.fork

structure Closes (first : StateId) (b reached : Builder) : Prop where
  grown : reached.arena.Grown
  start : reached.start = 0
  outer : reached.outer = b.outer
  first_le : first ≤ reached.arena.states.length
  place : reached.level.current = b.level.fork ∨
    first ≤ reached.level.current ∧ reached.level.current < reached.arena.states.length

section Closing

variable {first gone stop : StateId} {c c' : Builder} {stops later : List StateId}

theorem Looped.closeLoop (looped : Looped b stops c later) : b.closeLoop stops = c.closeLoop later := by
  induction looped with
  | begin => rfl
  | skip _ ih => rw [ih, Builder.closeLoop, if_pos (beq_self_eq_true _)]
  | link _ apart leaves linked ih =>
    rw [ih, Builder.closeLoop, if_neg fun same => apart (beq_iff_eq.mp same), if_pos leaves, linked]
  | merge _ apart stuck absorbed ih =>
    rw [ih, Builder.closeLoop, if_neg fun same => apart (beq_iff_eq.mp same), if_neg (Bool.eq_false_iff.mp stuck), absorbed]

namespace Looping

theorem skip (looping : Looping first b (stop :: later)) : Looping first b later :=
  { looping with
    inside := fun id member => looping.inside id (List.mem_cons_of_mem _ member)
    distinct := (List.pairwise_cons.mp looping.distinct).2 }

theorem own (looping : Looping first b (stop :: later)) (apart : stop ≠ b.level.fork) :
    first ≤ stop ∧ stop < b.arena.states.length :=
  (looping.inside stop List.mem_cons_self).resolve_left apart

theorem other (looping : Looping first b (stop :: later)) (apart : stop ≠ b.level.fork) : ∀ id ∈ later, id ≠ stop :=
  fun id member equal => apart ((List.pairwise_cons.mp looping.distinct).1 id member equal.symm)

theorem links (looping : Looping first b (stop :: later)) (apart : stop ≠ b.level.fork) :
    b.link stop b.level.fork [] = .ok (b.linked stop b.level.fork []) ∧
      Looping first (b.linked stop b.level.fork []) later := by
  obtain ⟨_, stop_lt⟩ := looping.own apart
  have fork_live := Nat.lt_of_lt_of_le looping.fork_lt looping.first_le
  exact ⟨link_live stop_lt fork_live [], { looping.skip with grown := linked_grown looping.grown stop_lt fork_live [] }⟩

theorem absorbs (looping : Looping first b (gone :: later)) (apart : gone ≠ b.level.fork)
    (stuck : b.arena.hasOutgoing gone = false) : ∃ arena closed current,
      b.absorb gone b.level.fork = .ok { b with arena, level := ⟨b.level.fork, closed, current⟩ } ∧
        arena.states.length = b.arena.states.length - 1 ∧ arena.Grown := by
  obtain ⟨first_le, live⟩ := looping.own apart
  have fork_lt_gone : b.level.fork < gone := Nat.lt_of_lt_of_le looping.fork_lt first_le
  have stuck : ∀ e ∈ b.arena.edges, e.origin ≠ gone := by
    intro e member same
    have leaves : b.arena.hasOutgoing gone = true := List.any_eq_true.mpr ⟨e, member, beq_iff_eq.mpr same⟩
    rw [stuck] at leaves
    cases leaves
  obtain ⟨retargeted, removed⟩ := Arena.retarget_remove live (Nat.lt_trans fork_lt_gone live) apart stuck
  obtain ⟨closed, current, absorbed⟩ :=
    absorb_older looping.start looping.fork_lt looping.outer first_le retargeted removed
  exact ⟨_, closed, current, absorbed, by simp [List.length_eraseIdx, live],
    (looping.grown.retargetIncoming retargeted).removeState removed⟩

theorem merges (looping : Looping first b (gone :: later)) (apart : gone ≠ b.level.fork)
    (stuck : b.arena.hasOutgoing gone = false) : ∃ c, b.absorb gone b.level.fork = .ok c ∧ c.level.fork = b.level.fork ∧
      c.outer = b.outer ∧ Looping first c (later.map (·.renumbered gone)) := by
  obtain ⟨arena, closed, current, absorbed, count, grown⟩ := looping.absorbs apart stuck
  obtain ⟨first_le, live⟩ := looping.own apart
  have other := looping.other apart
  have rest := looping.skip
  have inside := inside_renumbered looping.fork_lt first_le live other rest.inside
  have distinct := distinct_renumbered (Nat.lt_of_lt_of_le looping.fork_lt first_le) other rest.distinct
  rw [← count] at inside
  have first_le' : first ≤ arena.states.length := by
    rw [count]
    exact Nat.le_sub_one_of_lt (Nat.lt_of_le_of_lt first_le live)
  exact ⟨_, absorbed, rfl, rfl, grown, looping.start, looping.fork_lt, first_le', looping.outer, inside, distinct⟩

theorem of_looped (looping : Looping first b stops) (looped : Looped b stops c later) :
    Looping first c later ∧ c.level.fork = b.level.fork ∧ c.outer = b.outer := by
  induction looped with
  | begin => exact ⟨looping, rfl, rfl⟩
  | skip _ ih => exact ⟨ih.1.skip, ih.2⟩
  | link _ apart _ linked ih =>
    obtain ⟨here, kept⟩ := ih
    obtain ⟨linked', here'⟩ := here.links apart
    cases linked'.symm.trans linked
    exact ⟨here', kept⟩
  | merge _ apart stuck absorbed ih =>
    obtain ⟨here, fork, outer⟩ := ih
    obtain ⟨_, absorbed', fork', outer', here'⟩ := here.merges apart stuck
    cases absorbed'.symm.trans absorbed
    exact ⟨here', fork'.trans fork, outer'.trans outer⟩

-- No loop gets stuck on the way. The ends still to come may change their numbers, so the induction is on how many there are.
theorem ends (looping : Looping first b stops) (looped : Looped b stops c later) : ∃ last, Looped b stops last [] := by
  induction count : later.length generalizing c later with
  | zero =>
    cases List.eq_nil_of_length_eq_zero count
    exact ⟨c, looped⟩
  | succ n ih =>
    cases later with
    | nil => cases count
    | cons stop later =>
      have shorter : later.length = n := Nat.succ.inj count
      obtain ⟨here, _⟩ := looping.of_looped looped
      by_cases apart : stop = c.level.fork
      · subst apart
        exact ih (.skip looped) shorter
      cases leaves : c.arena.hasOutgoing stop with
      | true =>
        obtain ⟨linked, _⟩ := here.links apart
        exact ih (.link looped apart leaves linked) shorter
      | false =>
        obtain ⟨_, absorbed, _⟩ := here.merges apart leaves
        exact ih (.merge looped apart leaves absorbed) (by simpa using shorter)

theorem closes (looping : Looping first b stops) : ∃ reached, b.closeLoop stops = .ok reached ∧ Closes first b reached := by
  obtain ⟨last, looped⟩ := looping.ends .begin
  obtain ⟨here, fork, outer⟩ := looping.of_looped looped
  refine ⟨last.setCurrent last.level.fork, ?_, here.grown, here.start, outer, here.first_le, .inl fork⟩
  rw [looped.closeLoop, Builder.closeLoop]

end Looping

theorem linkEach_live {target : StateId} (grown : b.arena.Grown) (target_lt : target < b.arena.states.length)
    (live : ∀ id ∈ stops, id < b.arena.states.length) :
    ∃ edges, stops.foldlM (fun b id => b.link id target []) b = .ok { b with arena := { b.arena with edges } } ∧
      Arena.Grown { b.arena with edges } := by
  induction stops generalizing b with
  | nil => exact ⟨b.arena.edges, rfl, grown⟩
  | cons id stops ih =>
    have id_lt := live id List.mem_cons_self
    obtain ⟨edges, rest, grown'⟩ := @ih (b.linked id target []) (linked_grown grown id_lt target_lt []) target_lt
      fun id' member => live id' (List.mem_cons_of_mem _ member)
    rw [List.foldlM_cons, link_live id_lt target_lt]
    exact ⟨edges, rest, grown'⟩

theorem join_closes (grown : b.arena.Grown) (start : b.start = 0) (first_le : first ≤ b.arena.states.length)
    (inside : ∀ id ∈ stops, id = b.level.fork ∨ first ≤ id ∧ id < b.arena.states.length)
    (fork_lt : b.level.fork < first) : ∃ reached, b.join stops = .ok reached ∧ Closes first b reached := by
  unfold join
  split
  · rename_i only
    exact ⟨_, rfl, grown, start, rfl, first_le, inside only List.mem_cons_self⟩
  · have count : b.arena.addState.states.length = b.arena.states.length + 1 := by simp [Arena.addState]
    have live : ∀ id ∈ stops, id < b.arena.addState.states.length := by
      intro id member
      rw [count]
      rcases inside id member with rfl | ⟨_, below⟩
      · exact Nat.lt_succ_of_lt (Nat.lt_of_lt_of_le fork_lt first_le)
      · exact Nat.lt_succ_of_lt below
    have fresh : b.arena.nextId < b.arena.addState.states.length := by
      rw [count]
      exact Nat.lt_succ_self _
    obtain ⟨edges, linked, grown'⟩ := linkEach_live (b := { b with arena := b.arena.addState }) grown.addState fresh live
    refine ⟨_, bind_ok.mpr ⟨_, linked, rfl⟩, grown', start, rfl, ?_, .inr ⟨first_le, fresh⟩⟩
    exact Nat.le_trans first_le (Nat.le_of_lt fresh)

theorem Stands.looping (stands : b.Stands) (here : b.level.Stands first b.arena.states.length)
    (around : ∀ level ∈ b.outer, level.fork < first ∧ ∀ id ∈ level.ends, id < first) :
    Looping first b b.level.ends.eraseReps := by
  obtain ⟨reduced, _⟩ := eraseReps_spec b.level.ends
  exact ⟨stands.grown, stands.start, here.fork_lt, here.first_le, around,
    fun id member => here.ends id (reduced.subset member), here.distinct.sublist reduced⟩

theorem Stands.closes (stands : b.Stands) (here : b.level.Stands first b.arena.states.length)
    (around : ∀ level ∈ b.outer, level.fork < first ∧ ∀ id ∈ level.ends, id < first) (starred : Bool) : ∃ reached,
      (if starred then b.closeLoop b.level.ends.eraseReps else b.join b.level.ends) = .ok reached ∧ Closes first b reached := by
  cases starred with
  | false => exact join_closes stands.grown stands.start here.first_le here.ends here.fork_lt
  | true => exact (stands.looping here around).closes

end Closing

theorem leave_stands (stands : b.Stands) (table : CaptureTable) (offset : Nat) (starred : Bool) :
    (b.outer = [] ∧ b.leave table offset starred = .error .noBranchEnd) ∨
      ∃ b', b.leave table offset starred = .ok b' ∧ b'.Stands ∧ b.outer.length = b'.outer.length + 1 := by
  have levels := stands.levels
  generalize held : b.outer = outer at levels
  cases levels with
  | outermost here =>
    obtain ⟨reached, ran, closes⟩ := stands.closes here (by simp [held]) starred
    refine .inl ⟨rfl, ?_⟩
    rw [leave, ran]
    simp only [Except.bind, closes.outer, held]
  | inside here around fork =>
    obtain ⟨reached, ran, closes⟩ := stands.closes here (held ▸ around.bounds) starred
    refine .inr ⟨_, leave_of_reached ran (closes.outer.trans held), ⟨closes.start, ?_, closes.grown⟩, by simp⟩
    exact around.resumed closes.first_le (fork ▸ closes.place)

-- Any token is read without a fault, except a closing where no group is open.
theorem step_stands (stands : b.Stands) (table : CaptureTable) (token : Token) :
    (∃ offset starred, token = .closing offset starred ∧ b.outer = [] ∧ b.step table token = .error .noBranchEnd) ∨
      ∃ b', b.step table token = .ok b' ∧ b'.Stands ∧ token.Nests b.outer.length b'.outer.length := by
  cases token with
  | literal c starred =>
    cases starred with
    | false => exact .inr ⟨_, rfl, ⟨stands.start, stands.levels, stands.grown⟩, rfl⟩
    | true =>
      obtain ⟨b', ran, stands', outer⟩ := stands.star c
      exact .inr ⟨b', ran, stands', congrArg List.length outer⟩
  | bar =>
    obtain ⟨b', ran, stands', outer⟩ := stands.openBranch
    exact .inr ⟨b', ran, stands', congrArg List.length outer⟩
  | opening offset starred => exact .inr (stands.openGroup table offset starred)
  | closing offset starred =>
    obtain ⟨flushed, ran, stands', outer⟩ := stands.flush
    have same : b.step table (.closing offset starred) = flushed.leave table offset starred := by
      rw [step, closeGroup_eq_leave, ran]
      rfl
    rw [same]
    rw [← outer]
    rcases leave_stands stands' table offset starred with ⟨none_open, fault⟩ | left
    · exact .inl ⟨offset, starred, rfl, none_open, fault⟩
    · exact .inr left

theorem run_stands {table : CaptureTable} {tokens : List Token} {b' : Builder} (stands : b.Stands)
    (ran : b.run table tokens = .ok b') : b'.Stands := by
  induction tokens generalizing b with
  | nil =>
    cases ran
    exact stands
  | cons token rest ih =>
    obtain ⟨next, stepped, ran⟩ := bind_ok.mp ran
    rcases step_stands stands table token with ⟨_, _, _, _, fault⟩ | ⟨next', stepped', stands', _⟩
    · cases stepped.symm.trans fault
    · cases stepped.symm.trans stepped'
      exact ih stands' ran

theorem initial_stands : initial.Stands where
  start := rfl
  levels := .outermost ⟨Nat.zero_lt_one, Nat.le_refl _, fun _ member => .inl (List.mem_singleton.mp member),
    List.pairwise_singleton _ _⟩
  grown := Arena.Grown.empty.addState

theorem scan_stands {table : CaptureTable} {body : Text} (scanned : scan table body = .ok b) : b.Stands := by
  obtain ⟨last, ran, flushed⟩ := bind_ok.mp scanned
  obtain ⟨b', flushed', stands, _⟩ := (run_stands initial_stands ran).flush
  cases flushed.symm.trans flushed'
  exact stands

theorem Stands.ends_live (stands : b.Stands) : ∀ id ∈ b.branchEnds, id < b.arena.states.length := by
  intro id member
  obtain ⟨level, present, ends⟩ := List.mem_flatMap.mp member
  have held : level ∈ b.level :: b.outer := by
    rcases List.mem_append.mp present with outer | inner
    · exact List.mem_cons_of_mem _ (List.mem_reverse.mp outer)
    · exact List.mem_singleton.mp inner ▸ List.mem_cons_self
  exact (stands.levels.bounds level held).2 id ends

theorem Stands.finish_keeps (stands : b.Stands) (table : CaptureTable) (anchors : Anchors) :
    ∃ a, b.finish table anchors = .ok a ∧ a.edges = b.arena.edges ∧ a.states.length = b.arena.states.length ∧
      a.groupCount = table.length := by
  obtain ⟨arena, marked, edges, count, _⟩ := Arena.markTerminal_each stands.ends_live
  have start_live : b.start < arena.states.length := by
    rw [stands.start, count]
    exact Nat.lt_of_le_of_lt (Nat.zero_le _) stands.levels.current_lt
  have finished : arena.finish b.start anchors table.length = .ok _ := Arena.finish_ok.mpr ⟨start_live, rfl⟩
  exact ⟨_, bind_ok.mpr ⟨arena, checked_ok.mpr marked, checked_ok.mpr finished⟩, edges, count, rfl⟩

theorem Stands.finish (stands : b.Stands) (table : CaptureTable) (anchors : Anchors) :
    ∃ a, b.finish table anchors = .ok a ∧ a.edges = b.arena.edges ∧ a.groupCount = table.length := by
  obtain ⟨a, finished, edges, _, groups⟩ := stands.finish_keeps table anchors
  exact ⟨a, finished, edges, groups⟩

end Builder
end PatternMachine
