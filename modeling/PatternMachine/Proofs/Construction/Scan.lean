import PatternMachine.Construction.Basic
import PatternMachine.Proofs.Construction.Layout
import PatternMachine.Proofs.Pattern.Spelling

namespace PatternMachine

def Arena.blank (count : Nat) (edges : List Edge) : Arena := ⟨(List.range count).map fun id => ⟨id, false⟩, edges⟩

@[simp] theorem Arena.blank_length (count : Nat) (edges : List Edge) : (Arena.blank count edges).states.length = count := by
  simp [Arena.blank]

@[simp] theorem Arena.blank_addState (count : Nat) (edges : List Edge) :
    (Arena.blank count edges).addState = Arena.blank (count + 1) edges := by
  simp [Arena.addState, Arena.nextId, Arena.blank, List.range_succ]

theorem Arena.blank_addEdge {count : Nat} {edges : List Edge} {e : Edge} (origin : e.origin < count)
    (destination : e.destination < count) :
    (Arena.blank count edges).addEdge e = .ok (Arena.blank count (edges ++ [e])) := by
  rw [Arena.addEdge_ok]
  simp only [Arena.blank_length]
  exact ⟨origin, destination, rfl⟩

theorem Arena.blank_erase {count id : Nat} (live : id < count) :
    ((Arena.blank count []).states.eraseIdx id).map (fun s => { s with id := s.id.renumbered id }) =
      (Arena.blank (count - 1) []).states := by
  refine List.ext_getElem ?_ ?_
  · simp [Arena.blank, List.length_eraseIdx, live]
  · intro i inside inside'
    simp only [Arena.blank, List.getElem_map, List.getElem_eraseIdx, List.getElem_range]
    split
    · rename_i before
      rw [StateId.renumbered_of_lt before]
    · rename_i beyond
      rw [StateId.renumbered_of_gt (Nat.lt_succ_of_le (Nat.le_of_not_lt beyond))]
      rfl

-- What was built before the branch being read: edges, the ends of earlier branches, and the levels
-- around.
structure Site where
  edges : List Edge
  fork : StateId
  closed : List StateId
  outer : List Level
  captures : List Nat

def Site.builder (site : Site) (s : Strand) : Builder :=
  ⟨Arena.blank s.next (site.edges ++ s.edges), 0, ⟨site.fork, site.closed, s.stop⟩, site.outer, site.captures, s.pending⟩

structure Site.Below (site : Site) (first : StateId) : Prop where
  edges : ∀ e ∈ site.edges, e.origin < first ∧ e.destination < first
  fork : site.fork < first
  closed : ∀ id ∈ site.closed, id < first
  outer : ∀ level ∈ site.outer, level.fork < first ∧ ∀ id ∈ level.ends, id < first

def Site.branched (site : Site) (s : Strand) : Site :=
  { site with edges := site.edges ++ s.edges, closed := site.closed ++ [s.stop] }

def Site.entered (site : Site) (s : Strand) (capture : Option Nat) : Site :=
  ⟨site.edges ++ s.edges, s.stop, [], ⟨site.fork, site.closed, s.stop⟩ :: site.outer, site.captures ++ capture.toList⟩

namespace Site

variable {site : Site} {first : StateId} {s : Strand}

theorem Below.mono {later : StateId} (below : site.Below first) (le : first ≤ later) : site.Below later where
  edges e member := (below.edges e member).imp (Nat.lt_of_lt_of_le · le) (Nat.lt_of_lt_of_le · le)
  fork := Nat.lt_of_lt_of_le below.fork le
  closed id member := Nat.lt_of_lt_of_le (below.closed id member) le
  outer level member := ⟨Nat.lt_of_lt_of_le (below.outer level member).1 le,
    fun id held => Nat.lt_of_lt_of_le ((below.outer level member).2 id held) le⟩

theorem Below.branched (below : site.Below first) (within : s.Within site.fork first) :
    (site.branched s).Below s.next where
  edges e member := by
    rcases List.mem_append.mp member with old | new
    · exact (below.mono within.next_ge).edges e old
    · obtain ⟨origin, _, destination⟩ := within.edges e new
      refine ⟨?_, destination⟩
      rcases origin with same | ⟨_, before⟩
      · rw [same]
        exact within.fork_lt_next
      · exact before
  fork := within.fork_lt_next
  closed id member := by
    rcases List.mem_append.mp member with old | new
    · exact Nat.lt_of_lt_of_le (below.closed id old) within.next_ge
    · cases List.mem_singleton.mp new
      exact within.stop_lt
  outer := (below.mono within.next_ge).outer

theorem Below.entered (below : site.Below first) (within : s.Within site.fork first) (capture : Option Nat) :
    (site.entered s capture).Below s.next where
  edges := (below.branched within).edges
  fork := within.stop_lt
  closed id member := by cases member
  outer level member := by
    rcases List.mem_cons.mp member with rfl | member
    · exact ⟨within.fork_lt_next, (below.branched within).closed⟩
    · exact (below.mono within.next_ge).outer level member

theorem builder_extend (stop_lt : s.stop < s.next) (text : Text) :
    ({ site.builder s with pending := [] } : Builder).extend text = .ok (site.builder (s.extend site.captures text)) := by
  have added : (Arena.blank (s.next + 1) (site.edges ++ s.edges)).addEdge ⟨s.stop, s.next, text, site.captures⟩ = _ :=
    Arena.blank_addEdge (Nat.lt_succ_of_lt stop_lt) (Nat.lt_succ_self _)
  simp [Builder.extend, Builder.link, Builder.checked, Builder.setCurrent, builder, Strand.extend, Arena.nextId,
    added, Except.mapError, bind, Except.bind, pure, Except.pure]

theorem builder_flush (stop_lt : s.stop < s.next) :
    (site.builder s).flush = .ok (site.builder (s.flush site.captures)) := by
  unfold Builder.flush Strand.flush
  by_cases nothing : s.pending = []
  · simp [builder, nothing]
  · have some : (site.builder s).pending.isEmpty = false := by simpa [builder] using nothing
    rw [some, if_neg nothing]
    exact builder_extend stop_lt s.pending

-- Any fork is older than the strand, so an end that stands on one stands on its own.
theorem builder_entry (below : site.Below first) (within : s.Within site.fork first) (flushed : s.pending = []) :
    (site.builder s).loopEntry = .ok (site.builder (s.entry site.captures site.fork)) := by
  have held : (site.builder s).forks.contains s.stop = true ↔ s.stop = site.fork := by
    rw [List.contains_iff_mem]
    constructor
    · intro member
      obtain ⟨level, present, same⟩ := List.mem_map.mp member
      rcases List.mem_append.mp present with outer | inner
      · have older := (below.outer level (List.mem_reverse.mp outer)).1
        rcases within.stop with ⟨at_fork, _⟩ | ⟨after, _⟩
        · exact at_fork
        · rw [same] at older
          exact (Nat.not_lt.mpr after older).elim
      · cases List.mem_singleton.mp inner
        exact same.symm
    · intro same
      exact List.mem_map.mpr ⟨(site.builder s).level, List.mem_append_right _ (List.mem_singleton.mpr rfl), same.symm⟩
  unfold Builder.loopEntry Strand.entry
  by_cases at_fork : s.stop = site.fork
  · rw [if_pos at_fork]
    have contains : (site.builder s).forks.contains (site.builder s).level.current = true := held.mpr at_fork
    have plain : site.builder s = { site.builder s with pending := [] } := by simp [builder, flushed]
    rw [if_pos contains, plain]
    exact builder_extend within.stop_lt []
  · rw [if_neg at_fork]
    have off : ¬ (site.builder s).forks.contains (site.builder s).level.current = true := fun contains =>
      at_fork (held.mp contains)
    rw [if_neg off]

end Site

theorem Level.renumbered_below {level : Level} {first gone : StateId} (first_le : first ≤ gone)
    (fork_lt : level.fork < first) (ends_lt : ∀ id ∈ level.ends, id < first) : level.renumbered gone = level := by
  obtain ⟨fork, closed, current⟩ := level
  have kept : ∀ id, id < first → StateId.renumbered id gone = id :=
    fun id below => StateId.renumbered_of_lt (Nat.lt_of_lt_of_le below first_le)
  have closed_fixed : closed.map (StateId.renumbered · gone) = closed := by
    refine (List.map_congr_left ?_).trans (List.map_id closed)
    intro id member
    exact kept id (ends_lt id (List.mem_append_left _ member))
  simp [Level.renumbered, kept fork fork_lt, closed_fixed,
    kept current (ends_lt current (List.mem_append_right _ (List.mem_singleton.mpr rfl)))]

namespace Builder

def linked (b : Builder) (origin destination : StateId) (text : Text) : Builder :=
  { b with arena := { b.arena with edges := b.arena.edges ++ [⟨origin, destination, text, b.captures⟩] } }

theorem link_live {b : Builder} {origin destination : StateId} (origin_lt : origin < b.arena.states.length)
    (destination_lt : destination < b.arena.states.length) (text : Text) :
    b.link origin destination text = .ok (b.linked origin destination text) := by
  have added : b.arena.addEdge ⟨origin, destination, text, b.captures⟩ = _ :=
    Arena.addEdge_ok.mpr ⟨origin_lt, destination_lt, rfl⟩
  simp [Builder.link, Builder.checked, linked, added, Except.mapError, bind, Except.bind, pure, Except.pure]

theorem link_blank {b : Builder} {count : Nat} {edges : List Edge} (grown : b.arena = Arena.blank count edges)
    {origin destination : StateId} (origin_lt : origin < count) (destination_lt : destination < count) (text : Text) :
    b.link origin destination text =
      .ok { b with arena := Arena.blank count (edges ++ [⟨origin, destination, text, b.captures⟩]) } := by
  have length : b.arena.states.length = count := by rw [grown, Arena.blank_length]
  rw [link_live (length ▸ origin_lt) (length ▸ destination_lt), linked, grown]
  rfl

theorem link_each {b : Builder} {count : Nat} {edges : List Edge} (grown : b.arena = Arena.blank count edges)
    {target : StateId} (target_lt : target < count) {ends : List StateId} (live : ∀ id ∈ ends, id < count) :
    ends.foldlM (fun b id => b.link id target []) b =
      .ok { b with arena := Arena.blank count (edges ++ ends.map (Edge.joining target b.captures)) } := by
  induction ends generalizing b edges with
  | nil =>
    cases b
    simp_all [pure, Except.pure]
  | cons id ends ih =>
    have first := link_blank grown (live id List.mem_cons_self) target_lt []
    have rest := @ih { b with arena := Arena.blank count (edges ++ [⟨id, target, [], b.captures⟩]) } _ rfl
      (fun id' member => live id' (List.mem_cons_of_mem _ member))
    rw [List.foldlM_cons, first]
    simp only [bind, Except.bind]
    rw [rest]
    simp [Edge.joining]

theorem absorb_older {b : Builder} {middle arena : Arena} {first gone : StateId} (start : b.start = 0)
    (fork_lt : b.level.fork < first) (outer : ∀ level ∈ b.outer, level.fork < first ∧ ∀ id ∈ level.ends, id < first)
    (first_le : first ≤ gone) (retargeted : b.arena.retargetIncoming gone b.level.fork = .ok middle)
    (removed : middle.removeState gone = .ok arena) :
    ∃ closed current, b.absorb gone b.level.fork = .ok { b with arena, level := ⟨b.level.fork, closed, current⟩ } := by
  have fork_lt_gone : b.level.fork < gone := Nat.lt_of_lt_of_le fork_lt first_le
  have outer_fixed : b.outer.map (·.renumbered gone) = b.outer := by
    refine (List.map_congr_left ?_).trans (List.map_id b.outer)
    intro level member
    exact Level.renumbered_below first_le (outer level member).1 (outer level member).2
  have start_fixed : StateId.renumbered 0 gone = 0 :=
    StateId.renumbered_of_lt (Nat.lt_of_le_of_lt (Nat.zero_le _) fork_lt_gone)
  have level_fixed : b.level.renumbered gone =
      ⟨b.level.fork, b.level.closed.map (·.renumbered gone), b.level.current.renumbered gone⟩ := by
    simp [Level.renumbered, StateId.renumbered_of_lt fork_lt_gone]
  refine ⟨b.level.closed.map (·.renumbered gone), b.level.current.renumbered gone, ?_⟩
  simp only [absorb, checked, retargeted, removed, Except.mapError, bind, Except.bind, pure, Except.pure, start,
    start_fixed, outer_fixed, level_fixed]

theorem absorb_blank {b : Builder} {count first gone : Nat} {before edges : List Edge}
    (grown : b.arena = Arena.blank count (before ++ edges)) (start : b.start = 0)
    (older : ∀ e ∈ before, e.origin < first ∧ e.destination < first) (fork_lt : b.level.fork < first)
    (outer : ∀ level ∈ b.outer, level.fork < first ∧ ∀ id ∈ level.ends, id < first)
    (first_le : first ≤ gone) (live : gone < count) (stuck : Edge.leaves edges gone = false) :
    ∃ closed current, b.absorb gone b.level.fork =
      .ok { b with
        arena := Arena.blank (count - 1) (before ++ edges.map (Edge.moved (StateId.absorbed gone b.level.fork)))
        level := ⟨b.level.fork, closed, current⟩ } := by
  have fork_lt_gone : b.level.fork < gone := Nat.lt_of_lt_of_le fork_lt first_le
  have apart : ∀ e ∈ before ++ edges, e.origin ≠ gone := by
    intro e member same
    rcases List.mem_append.mp member with old | new
    · have bound := (older e old).1
      rw [same] at bound
      exact Nat.not_lt.mpr first_le bound
    · have leaves : Edge.leaves edges gone = true := List.any_eq_true.mpr ⟨e, new, beq_iff_eq.mpr same⟩
      rw [stuck] at leaves
      cases leaves
  have fixed : before.map (Edge.moved (StateId.absorbed gone b.level.fork)) = before := by
    refine (List.map_congr_left ?_).trans (List.map_id before)
    intro e member
    obtain ⟨origin, destination⟩ := older e member
    simp [Edge.moved, StateId.absorbed_below (Nat.lt_of_lt_of_le origin first_le),
      StateId.absorbed_below (Nat.lt_of_lt_of_le destination first_le)]
  have live' : gone < (Arena.blank count (before ++ edges)).states.length := by simpa using live
  obtain ⟨retargeted, removed⟩ := Arena.retarget_remove live' (Nat.lt_trans fork_lt_gone live') (Nat.ne_of_gt fork_lt_gone) apart
  rw [StateId.merged_eq_absorbed fork_lt_gone] at removed
  have laid : (before ++ edges).map (Edge.moved (StateId.absorbed gone b.level.fork)) =
      before ++ edges.map (Edge.moved (StateId.absorbed gone b.level.fork)) := by
    rw [List.map_append, fixed]
  have removed := removed.trans (congrArg Except.ok (congrArg₂ Arena.mk (Arena.blank_erase live) laid))
  rw [← grown] at retargeted removed
  exact absorb_older start fork_lt outer first_le retargeted removed

theorem closeLoop_blank {b : Builder} {count first : Nat} {before edges : List Edge} {stops : List StateId}
    (grown : b.arena = Arena.blank count (before ++ edges)) (start : b.start = 0)
    (older : ∀ e ∈ before, e.origin < first ∧ e.destination < first) (fork_lt : b.level.fork < first)
    (first_le : first ≤ count)
    (outer : ∀ level ∈ b.outer, level.fork < first ∧ ∀ id ∈ level.ends, id < first)
    (inside : ∀ id ∈ stops, id = b.level.fork ∨ first ≤ id ∧ id < count)
    (distinct : stops.Pairwise fun id other => id = other → id = b.level.fork) :
    ∃ closed, b.closeLoop stops =
      .ok { b with
        arena := Arena.blank (loopBack b.captures b.level.fork stops edges count).2
          (before ++ (loopBack b.captures b.level.fork stops edges count).1)
        level := ⟨b.level.fork, closed, b.level.fork⟩ } := by
  induction length : stops.length generalizing b stops edges count with
  | zero =>
    cases List.eq_nil_of_length_eq_zero length
    rw [closeLoop, loopBack, setCurrent, ← grown]
    exact ⟨b.level.closed, rfl⟩
  | succ n ih =>
    cases stops with
    | nil => cases length
    | cons id later =>
      have shorter : later.length = n := Nat.succ.inj length
      have inside' : ∀ id ∈ later, id = b.level.fork ∨ first ≤ id ∧ id < count :=
        fun id member => inside id (List.mem_cons_of_mem _ member)
      obtain ⟨different, distinct'⟩ := List.pairwise_cons.mp distinct
      rw [closeLoop, loopBack]
      by_cases apart : id = b.level.fork
      · rw [if_pos apart, if_pos (beq_iff_eq.mpr apart)]
        exact ih grown start fork_lt first_le outer inside' distinct' shorter
      have other : ∀ id' ∈ later, id' ≠ id := fun id' member equal => apart (different id' member equal.symm)
      obtain ⟨first_le_id, id_lt⟩ := (inside id List.mem_cons_self).resolve_left apart
      have outgoing : b.arena.hasOutgoing id = Edge.leaves edges id := by
        have silent : Edge.leaves before id = false := by
          rw [Bool.eq_false_iff]
          intro leaves
          obtain ⟨e, member, same⟩ := List.any_eq_true.mp leaves
          have bound := (older e member).1
          rw [beq_iff_eq.mp same] at bound
          exact Nat.not_lt.mpr first_le_id bound
        rw [grown]
        show (before ++ edges).any (·.origin == id) = _
        rw [List.any_append]
        exact (congrArg (· || Edge.leaves edges id) silent).trans (Bool.false_or _)
      rw [if_neg apart, if_neg (fun same => apart (beq_iff_eq.mp same)), outgoing]
      by_cases leaves : Edge.leaves edges id = true
      · rw [if_pos leaves, if_pos leaves,
          link_blank grown id_lt (Nat.lt_of_lt_of_le fork_lt first_le) [], List.append_assoc]
        exact ih rfl start fork_lt first_le outer inside' distinct' shorter
      · rw [if_neg leaves, if_neg leaves]
        have stuck := Bool.eq_false_iff.mpr leaves
        obtain ⟨closed, current, absorbed⟩ :=
          absorb_blank grown start older fork_lt outer first_le_id id_lt stuck
        rw [absorbed]
        exact ih rfl start fork_lt (Nat.le_sub_one_of_lt (Nat.lt_of_le_of_lt first_le_id id_lt)) outer
          (inside_renumbered fork_lt first_le_id id_lt other inside')
          (distinct_renumbered (Nat.lt_of_lt_of_le fork_lt first_le_id) other distinct') (by simpa using shorter)

theorem join_blank {b : Builder} {before : List Edge} {sheaf : Sheaf} {first : StateId}
    (grown : b.arena = Arena.blank sheaf.next (before ++ sheaf.edges)) (within : sheaf.Within b.level.fork first) :
    b.join sheaf.stops = .ok { b with
      arena := Arena.blank (sheaf.joined b.captures).next (before ++ (sheaf.joined b.captures).edges)
      level := { b.level with current := (sheaf.joined b.captures).stop } } := by
  obtain ⟨edges, stops, next⟩ := sheaf
  unfold join Sheaf.joined
  dsimp only
  split
  · rw [← grown]
    rfl
  · have live : ∀ id ∈ stops, id < next + 1 := fun id member => Nat.lt_succ_of_lt (within.stop_lt id member)
    have fresh : b.arena.nextId = next := by simp [grown, Arena.nextId]
    have added : ({ b with arena := b.arena.addState } : Builder).arena = Arena.blank (next + 1) (before ++ edges) := by
      rw [grown, Arena.blank_addState]
    have linked := link_each added (Nat.lt_succ_self next) live
    simp only [fresh, bind, Except.bind, linked, pure, Except.pure, setCurrent, List.append_assoc]

def leave (table : CaptureTable) (b : Builder) (offset : Nat) (starred : Bool) : Step :=
  (if starred then b.closeLoop b.level.ends.eraseReps else b.join b.level.ends).bind fun b =>
    match b.outer with
    | [] => .error .noBranchEnd
    | level :: outer =>
      .ok { b with
        level := { level with current := b.level.current }
        outer
        captures := if b.captures.getLast?.any (table.closesAt · offset) then b.captures.dropLast else b.captures }

theorem closeGroup_eq_leave (table : CaptureTable) (b : Builder) (offset : Nat) (starred : Bool) :
    b.closeGroup table offset starred = b.flush.bind (leave table · offset starred) := by
  cases starred <;> rfl

theorem leave_of_reached {table : CaptureTable} {b reached : Builder} {offset : Nat} {starred : Bool} {level : Level}
    {outer : List Level}
    (done : (if starred then b.closeLoop b.level.ends.eraseReps else b.join b.level.ends) = .ok reached)
    (popped : reached.outer = level :: outer) :
    b.leave table offset starred = .ok { reached with
      level := { level with current := reached.level.current }
      outer := outer
      captures := if reached.captures.getLast?.any (table.closesAt · offset) then reached.captures.dropLast
        else reached.captures } := by
  rw [leave, done]
  simp only [Except.bind, popped]

end Builder

def Site.gathered (site : Site) (sheaf : Sheaf) (closed : List StateId) (current : StateId) : Builder :=
  ⟨Arena.blank sheaf.next (site.edges ++ sheaf.edges), 0, ⟨site.fork, closed, current⟩, site.outer, site.captures, []⟩

theorem Site.leave_gathered {site : Site} {s : Strand} {first : StateId} {capture : Option Nat} {sheaf : Sheaf}
    {table : CaptureTable} {offset : Nat} {ended : List StateId} {current : StateId} (below : site.Below first)
    (within : s.Within site.fork first) (inner : sheaf.Within s.stop s.next) (ends : ended ++ [current] = sheaf.stops)
    (own : ((site.captures ++ capture.toList).getLast?.any (table.closesAt · offset)) = capture.isSome)
    (starred : Bool) :
    ((site.entered s capture).gathered sheaf ended current).leave table offset starred =
      .ok (site.builder (s.onward (if starred then sheaf.looped (site.captures ++ capture.toList) s.stop
        else sheaf.joined (site.captures ++ capture.toList)))) := by
  have below' := below.entered within capture
  have popped : (if (site.captures ++ capture.toList).getLast?.any (table.closesAt · offset) then
      (site.captures ++ capture.toList).dropLast else site.captures ++ capture.toList) = site.captures := by
    rw [own]
    cases capture <;> simp
  have stops : ((site.entered s capture).gathered sheaf ended current).level.ends = sheaf.stops := ends
  cases starred with
  | false =>
    have done : ((site.entered s capture).gathered sheaf ended current).join sheaf.stops = _ :=
      Builder.join_blank rfl inner
    have closes := (congrArg (Builder.join _) stops).trans done
    rw [Builder.leave_of_reached ((if_neg Bool.false_ne_true).trans closes) rfl]
    simp only [gathered, entered, builder, Strand.onward, popped, Sheaf.joined_pending, List.append_assoc,
      Bool.false_eq_true, if_false]
  | true =>
    obtain ⟨sublist, _⟩ := eraseReps_spec sheaf.stops
    have done : ∃ closed, ((site.entered s capture).gathered sheaf ended current).closeLoop sheaf.stops.eraseReps = _ :=
      Builder.closeLoop_blank rfl rfl below'.edges below'.fork inner.next_ge below'.outer
        (fun id member => inner.stops id (sublist.subset member)) (inner.distinct.sublist sublist)
    obtain ⟨closed, done⟩ := done
    have closes := (congrArg (fun ends => Builder.closeLoop _ ends.eraseReps) stops).trans done
    rw [Builder.leave_of_reached ((if_pos rfl).trans closes) rfl]
    simp only [gathered, entered, builder, Strand.onward, popped, Sheaf.looped, List.append_assoc, if_true]

theorem Builder.run_append (table : CaptureTable) (b : Builder) (front back : List Token) :
    b.run table (front ++ back) = (b.run table front).bind (Builder.run table · back) := by
  simp [Builder.run, List.foldlM_append, bind]

theorem Builder.run_cons (table : CaptureTable) (b : Builder) (token : Token) (rest : List Token) :
    b.run table (token :: rest) = (b.step table token).bind (Builder.run table · rest) := rfl

def Builder.approach (b : Builder) (starred : Bool) : Builder.Step :=
  b.flush.bind fun b => if starred then b.loopEntry else .ok b

theorem Builder.star_eq (b : Builder) (c : Char) :
    b.star c = (b.approach true).bind fun b => b.link b.level.current b.level.current [c] := by
  unfold Builder.star Builder.approach
  cases b.flush <;> rfl

theorem Builder.openGroup_eq (table : CaptureTable) (b : Builder) (offset : Nat) (starred : Bool) :
    b.openGroup table offset starred = (b.approach starred).bind fun b =>
      .ok { b with
        level := ⟨b.level.current, [], b.level.current⟩
        outer := b.level :: b.outer
        captures := b.captures ++ (table.indexOf? offset).toList } := by
  unfold Builder.openGroup Builder.approach
  cases b.flush <;> cases starred <;> rfl

theorem Builder.run_single (table : CaptureTable) (b : Builder) (token : Token) : b.run table [token] = b.step table token := by
  rw [Builder.run_cons]
  cases b.step table token <;> rfl

theorem Builder.run_group {table : CaptureTable} {b inside gathered : Builder} {opening closing : Nat} {starred : Bool}
    {tokens : List Token} (opened : b.openGroup table opening starred = .ok inside)
    (inner : (inside.run table tokens).bind Builder.flush = .ok gathered) :
    b.run table (.opening opening starred :: (tokens ++ [.closing closing starred])) =
      gathered.leave table closing starred := by
  rw [Builder.run_cons, Builder.step, opened]
  show inside.run table (tokens ++ [.closing closing starred]) = _
  rw [Builder.run_append]
  cases ran : inside.run table tokens with
  | error fault => simp [ran, Except.bind] at inner
  | ok last =>
    have flushed : last.flush = .ok gathered := by simpa [ran, Except.bind] using inner
    show last.run table [.closing closing starred] = _
    rw [Builder.run_single, Builder.step, Builder.closeGroup_eq_leave, flushed]
    rfl

section Steps

variable {table : CaptureTable} {site : Site} {s : Strand} {first : StateId}

theorem Site.builder_approach (below : site.Below first) (within : s.Within site.fork first) (starred : Bool) :
    (site.builder s).approach starred = .ok (site.builder (s.approach site.captures site.fork starred)) := by
  rw [Builder.approach, Site.builder_flush within.stop_lt]
  cases starred with
  | false => rfl
  | true => exact Site.builder_entry below within.flush (s.flush_pending site.captures)

theorem Site.builder_star (below : site.Below first) (within : s.Within site.fork first) (c : Char) :
    (site.builder s).star c =
      .ok (site.builder ((s.approach site.captures site.fork true).spin site.captures c)) := by
  have within' : (s.approach site.captures site.fork true).Within site.fork first := within.approach true
  have linked : (site.builder (s.approach site.captures site.fork true)).link _ _ [c] = _ :=
    Builder.link_blank rfl within'.stop_lt within'.stop_lt [c]
  rw [Builder.star_eq, Site.builder_approach below within]
  apply linked.trans
  simp [builder, Strand.spin]

theorem Site.builder_bar (within : s.Within site.fork first) :
    (site.builder s).openBranch =
      .ok ((site.branched (s.flush site.captures)).builder (.start site.fork (s.flush site.captures).next)) := by
  rw [Builder.openBranch, Site.builder_flush within.stop_lt]
  simp [bind, Except.bind, pure, Except.pure, branched, builder, Strand.start, Level.ends, s.flush_pending site.captures]

theorem Site.builder_opening (below : site.Below first) (within : s.Within site.fork first) (offset : Nat) (starred : Bool) :
    (site.builder s).openGroup table offset starred = .ok
      ((site.entered (s.approach site.captures site.fork starred) (table.indexOf? offset)).builder
        (.start (s.approach site.captures site.fork starred).stop (s.approach site.captures site.fork starred).next)) := by
  rw [Builder.openGroup_eq, Site.builder_approach below within]
  simp [Except.bind, entered, builder, Strand.start, s.approach_pending site.captures site.fork starred]

end Steps

mutual
theorem Item.run_lay {table : CaptureTable} {site : Site} {s : Strand} {first : StateId} {tokens : List Token}
    (below : site.Below first) (within : s.Within site.fork first) :
    (item : Item) → item.Spelled table site.captures tokens →
      (site.builder s).run table tokens = .ok (site.builder (item.lay site.captures site.fork s))
  | .char c false, spelled => by
    cases spelled
    rfl
  | .char c true, spelled => by
    cases spelled
    exact (Builder.run_single _ _ _).trans (Site.builder_star below within c)
  | .group capture body starred, spelled => by
    obtain ⟨opening, closing, inner, rfl, index, own, _, spelled⟩ := spelled
    have within' : (s.approach site.captures site.fork starred).Within site.fork first := within.approach starred
    obtain ⟨ended, current, gathered, ends⟩ := Item.run_layAny (below.entered within' capture) body spelled
    have opened : (site.builder s).openGroup table opening starred = _ := Site.builder_opening below within opening starred
    rw [index] at opened
    exact (Builder.run_group opened gathered).trans
      (Site.leave_gathered below within' (Item.layAny_within within'.stop_lt body) ends own starred)
theorem Item.run_layAll {table : CaptureTable} {site : Site} {s : Strand} {first : StateId} {tokens : List Token}
    (below : site.Below first) (within : s.Within site.fork first) :
    (items : List Item) → Item.SpelledAll table site.captures items tokens →
      (site.builder s).run table tokens = .ok (site.builder (Item.layAll site.captures site.fork s items))
  | [], spelled => by
    cases spelled
    rfl
  | item :: items, spelled => by
    obtain ⟨front, back, rfl, spelled, rest⟩ := spelled
    rw [Builder.run_append, Item.run_lay below within item spelled]
    exact Item.run_layAll below (Item.lay_within within item) items rest
theorem Item.run_layAny {table : CaptureTable} {site : Site} {next : StateId} {tokens : List Token}
    (below : site.Below next) :
    (body : List (List Item)) → Item.SpelledAny table site.captures body tokens →
      ∃ ended current, ((site.builder (.start site.fork next)).run table tokens).bind Builder.flush =
        .ok (site.gathered (Item.layAny site.captures site.fork next body) ended current) ∧
        ended ++ [current] = site.closed ++ (Item.layAny site.captures site.fork next body).stops
  | [], spelled => spelled.elim
  | [branch], spelled => by
    have within : (Item.layAll site.captures site.fork (.start site.fork next) branch).Within site.fork next :=
      Item.layAll_within (.start below.fork) branch
    refine ⟨site.closed, ((Item.layAll site.captures site.fork (.start site.fork next) branch).flush site.captures).stop, ?_, rfl⟩
    rw [Item.run_layAll below (.start below.fork) branch spelled]
    refine (Site.builder_flush within.stop_lt).trans ?_
    simp [Site.builder, Site.gathered, Item.layAny, Sheaf.cons, Sheaf.empty, Strand.flush_pending]
  | branch :: other :: body, spelled => by
    obtain ⟨front, back, rfl, spelled, rest⟩ := spelled
    have within : (Item.layAll site.captures site.fork (.start site.fork next) branch).Within site.fork next :=
      Item.layAll_within (.start below.fork) branch
    have flushed : ((Item.layAll site.captures site.fork (.start site.fork next) branch).flush site.captures).Within
        site.fork next := within.flush
    obtain ⟨ended, current, gathered, ends⟩ := Item.run_layAny (below.branched flushed) (other :: body) rest
    refine ⟨ended, current, ?_, ?_⟩
    · rw [Builder.run_append, Item.run_layAll below (.start below.fork) branch spelled]
      refine Eq.trans ?_ (gathered.trans ?_)
      · show (Builder.run table _ (.bar :: back)).bind _ = _
        rw [Builder.run_cons, Builder.step, Site.builder_bar within]
        rfl
      · simp [Site.gathered, Site.branched, Item.layAny, Sheaf.cons]
    · rw [ends]
      simp [Site.branched, Item.layAny, Sheaf.cons]
end

structure Automaton.Laid (a : Automaton) (sheaf : Sheaf) : Prop where
  edges : a.edges = sheaf.edges
  start : a.start = 0
  count : a.states.length = sheaf.next
  terminal : ∀ id, a.isTerminal id = true ↔ id ∈ sheaf.stops

theorem Arena.markTerminal_each {a : Arena} {ends : List StateId} (live : ∀ id ∈ ends, id < a.states.length) :
    ∃ b, ends.foldlM Arena.markTerminal a = .ok b ∧ b.edges = a.edges ∧ b.states.length = a.states.length ∧
      ∀ id : StateId, b.states[id]?.any (·.terminal) = true ↔ a.states[id]?.any (·.terminal) = true ∨ id ∈ ends := by
  induction ends generalizing a with
  | nil => exact ⟨a, rfl, rfl, rfl, by simp⟩
  | cons first ends ih =>
    have first_live := live first List.mem_cons_self
    have marked : a.markTerminal first = .ok _ := Arena.markTerminal_ok.mpr ⟨first_live, rfl⟩
    obtain ⟨b, ran, edges, count, terminal⟩ := ih
      (a := { a with states := a.states.modify first fun s => { s with terminal := true } })
      (fun id member => by simpa using live id (List.mem_cons_of_mem _ member))
    refine ⟨b, ?_, edges, by simpa using count, ?_⟩
    · rw [List.foldlM_cons, marked]
      exact ran
    · intro id
      rw [terminal id, List.mem_cons]
      by_cases same : id = first
      · subst same
        simp [first_live]
      · simp [same, Ne.symm same]

theorem Arena.blank_grown {count : Nat} (edges : List Edge) (live : ∀ e ∈ edges, e.origin < count ∧ e.destination < count) :
    Arena.Grown (Arena.blank count edges) := by
  induction edges using List.reverseRecOn with
  | nil =>
    clear live
    induction count with
    | zero => exact .empty
    | succ count ih =>
      have added : (Arena.blank count []).perform .addState = .ok (Arena.blank (count + 1) []) :=
        congrArg Except.ok (Arena.blank_addState count [])
      exact .step ih added
  | append_singleton edges e ih =>
    obtain ⟨origin, destination⟩ := live e (by simp)
    have added : (Arena.blank count edges).perform (.addEdge e) = .ok (Arena.blank count (edges ++ [e])) :=
      Arena.blank_addEdge origin destination
    exact .step (ih fun e' member => live e' (List.mem_append_left _ member)) added

-- Building never faults on a body that has a tree, and gives the automaton laid from that tree.
theorem Builder.build_laid {table : CaptureTable} {text : Text} {body : List (List Item)}
    (spelled : Item.SpelledAny table [] body (Token.ofText text)) (anchors : Anchors) :
    ∃ a, Builder.build table text anchors = .ok a ∧ a.Sealed ∧ a.Laid (Item.layAny [] 0 1 body) ∧
      a.anchors = anchors ∧ a.groupCount = table.length := by
  have below : (⟨[], 0, [], [], []⟩ : Site).Below 1 := ⟨by simp, Nat.zero_lt_one, by simp, by simp⟩
  obtain ⟨ended, current, gathered, ends⟩ := Item.run_layAny below body spelled
  have within : (Item.layAny [] 0 1 body).Within 0 1 := Item.layAny_within Nat.zero_lt_one body
  have scanned : Builder.scan table text = .ok _ := gathered
  have live := within.stop_lt
  have ends_all : ((⟨[], 0, [], [], []⟩ : Site).gathered (Item.layAny [] 0 1 body) ended current).branchEnds =
      (Item.layAny [] 0 1 body).stops := by
    simpa [Builder.branchEnds, Builder.levels, Site.gathered, Level.ends] using ends
  obtain ⟨arena, marked, edges, count, terminal⟩ := Arena.markTerminal_each
    (a := Arena.blank (Item.layAny [] 0 1 body).next (Item.layAny [] 0 1 body).edges) (by simpa using live)
  have count' : arena.states.length = (Item.layAny [] 0 1 body).next := by simpa using count
  have start_live : 0 < arena.states.length := by
    rw [count']
    exact Nat.lt_of_lt_of_le Nat.zero_lt_one within.next_ge
  have finished : arena.finish 0 anchors table.length = .ok _ := Arena.finish_ok.mpr ⟨start_live, rfl⟩
  have grown := Arena.blank_grown (Item.layAny [] 0 1 body).edges fun e member =>
    ⟨within.origin_lt e member, (within.edges e member).2.2⟩
  have grown' : Arena.Grown arena := by
    apply grown.performAll ((Item.layAny [] 0 1 body).stops.map .markTerminal)
    rw [List.foldlM_map]
    exact marked
  refine ⟨⟨arena.states, arena.edges, 0, anchors, table.length⟩, ?_, ⟨arena, 0, anchors, table.length, grown', finished⟩,
    ⟨edges, rfl, count', ?_⟩, rfl, rfl⟩
  · simp only [Builder.build, scanned, Builder.finish, bind, Except.bind, ends_all]
    simp only [Site.gathered, List.nil_append, marked, Builder.checked, Except.mapError, finished]
  · intro id
    have unmarked : (Arena.blank (Item.layAny [] 0 1 body).next (Item.layAny [] 0 1 body).edges).states[id]?.any
        (·.terminal) = false := by
      rw [Option.any_eq_false]
      intro state found
      obtain ⟨id', _, rfl⟩ := List.mem_map.mp (List.mem_of_getElem? found)
      simp
    rw [Automaton.isTerminal, terminal id, unmarked]
    simp

end PatternMachine
