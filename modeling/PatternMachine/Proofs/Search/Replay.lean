import Mathlib.Data.List.Forall2
import PatternMachine.Proofs.Search.Leftmost

namespace PatternMachine

theorem Automaton.mem_outgoing {a : Automaton} {state : StateId} {e : Edge} (member : e ∈ a.outgoing state) :
    e ∈ a.edges ∧ e.origin = state := by
  unfold Automaton.outgoing at member
  split at member
  · obtain ⟨listed, origin⟩ := List.mem_filter.mp member
    exact ⟨listed, beq_iff_eq.mp origin⟩
  · cases member

def Event.isStart : Event → Bool
  | .start _ => true
  | _ => false

def Event.isAccept : Event → Bool
  | .accept _ _ => true
  | _ => false

namespace Search

-- A pair on the stack that the reader keeps, with the edge that was taken to it and the edges that
-- were tried from it since.
structure Entry where
  here : Configuration
  via : Option Edge
  tried : List Edge

structure Replay where
  pushed : List Configuration
  stack : List Entry

def Replay.opened (c : Configuration) : Replay := ⟨[c], [⟨c, none, []⟩]⟩

def Entry.pass (top : Entry) (e : Edge) : Entry := { top with tried := top.tried ++ [e] }

def Replay.taken (stack : List Entry) : List Edge := stack.reverse.filterMap (·.via)

def resumed : List Entry → List Event
  | [] => []
  | parent :: _ => [.backtrack parent.here.state parent.here.position]

structure Entry.Next (a : Automaton) (top : Entry) (e : Edge) : Prop where
  origin : e.origin = top.here.state
  inTurn : top.tried ++ [e] <+: a.outgoing top.here.state

-- What the next events may be, and what becomes of the stack. A state is given up once all of its
-- edges were tried in their order.
inductive Reads (a : Automaton) (input : Text) : Replay → List Event → Replay → Prop where
  | edge : top.Next a e → Text.occursAt input top.here.position e.text = true → top.here.after e ∉ pushed →
      Reads a input ⟨pushed, top :: below⟩ [.edge e (top.here.position + Text.size e.text)]
        ⟨top.here.after e :: pushed, ⟨top.here.after e, some e, []⟩ :: top.pass e :: below⟩
  | reject : top.Next a e → Text.occursAt input top.here.position e.text = false →
      Reads a input ⟨pushed, top :: below⟩ [.reject e top.here.position] ⟨pushed, top.pass e :: below⟩
  | revisit : top.Next a e → Text.occursAt input top.here.position e.text = true → top.here.after e ∈ pushed →
      Reads a input ⟨pushed, top :: below⟩ [.revisit e.destination (top.here.position + Text.size e.text)]
        ⟨pushed, top.pass e :: below⟩
  | deadEnd : top.tried = a.outgoing top.here.state → ¬ Accepts a input top.here →
      Reads a input ⟨pushed, top :: below⟩ (.deadEnd top.here.state top.here.position :: resumed below)
        ⟨pushed, below⟩

inductive Replays (a : Automaton) (input : Text) : Replay → List Event → Replay → Prop where
  | done : Replays a input replay [] replay
  | on : Reads a input replay now next → Replays a input next events last →
      Replays a input replay (now ++ events) last

-- The blocks of the starts tried. One whose stack runs empty gives way to the next, and one that
-- accepts is the last: the edges on its stack are the match.
inductive Blocks (a : Automaton) (input : Text) : List Nat → List Event → Option Match → Prop where
  | exhausted : Blocks a input [] [] none
  | failed : Replays a input (.opened ⟨a.start, start⟩) block ⟨pushed, []⟩ →
      Blocks a input later events found →
      Blocks a input (start :: later) (.start start :: block ++ events) found
  | accepted : Replays a input (.opened ⟨a.start, start⟩) block ⟨pushed, top :: below⟩ →
      top.tried = a.outgoing top.here.state → Accepts a input top.here →
      Blocks a input [start] (.start start :: block ++ [.accept top.here.state top.here.position])
        (some ⟨start, (Replay.taken (top :: below)).flatMap (·.text),
          collectGroups a.groupCount (Replay.taken (top :: below))⟩)

variable {a : Automaton} {input : Text} {origin : Configuration}

theorem Reads.inner (reads : Reads a input replay now next) :
    ∀ event ∈ now, event.isStart = false ∧ event.isAccept = false := by
  cases reads with
  | edge | reject | revisit => simp [Event.isStart, Event.isAccept]
  | @deadEnd top _ below => cases below <;> simp [resumed, Event.isStart, Event.isAccept]

theorem Replays.inner (replays : Replays a input replay events last) :
    ∀ event ∈ events, event.isStart = false ∧ event.isAccept = false := by
  induction replays with
  | done => simp
  | on reads _ ih =>
    intro event member
    rcases List.mem_append.mp member with first | later
    · exact reads.inner event first
    · exact ih event later

theorem Replays.no_accept (replays : Replays a input replay events last) :
    ∀ event ∈ Event.start start :: events, event.isAccept = false := by
  intro event member
  rcases List.mem_cons.mp member with rfl | member
  · rfl
  · exact (replays.inner event member).2

theorem Blocks.no_accept (blocks : Blocks a input tried events none) : ∀ event ∈ events, event.isAccept = false := by
  generalize nothing : none = found at blocks
  induction blocks with
  | exhausted => simp
  | failed replays _ ih => exact List.forall_mem_append.mpr ⟨replays.no_accept, ih nothing⟩
  | accepted => cases nothing

theorem Blocks.accept_last {m : Match} (blocks : Blocks a input tried events (some m)) :
    (∃ sooner, tried = sooner ++ [m.start]) ∧
      ∃ front state position, events = front ++ [.accept state position] ∧ ∀ event ∈ front, event.isAccept = false := by
  generalize answer : some m = found at blocks
  induction blocks with
  | exhausted => cases answer
  | @failed start block _ later _ _ replays _ ih =>
    obtain ⟨⟨sooner, rfl⟩, front, state, position, rfl, silent⟩ := ih answer
    exact ⟨⟨start :: sooner, rfl⟩, .start start :: block ++ front, state, position, by simp,
      List.forall_mem_append.mpr ⟨replays.no_accept, silent⟩⟩
  | @accepted start block _ top _ replays _ _ =>
    cases answer
    exact ⟨⟨[], rfl⟩, .start start :: block, top.here.state, top.here.position, rfl, replays.no_accept⟩

structure Frame.Noted (a : Automaton) (frame : Frame) (entry : Entry) : Prop where
  here : entry.here = frame.here
  via : entry.via = frame.via
  edges : a.outgoing frame.state = entry.tried ++ frame.untried

def Marked (a : Automaton) (input : Text) (visited : Visited) (pushed : List Configuration) : Prop :=
  ∀ c : Configuration, c.state < a.states.length → c.position ≤ Text.size input →
    (visited.seen c.state c.position = true ↔ c ∈ pushed)

structure Run.Noted (a : Automaton) (input : Text) (run : Run) (replay : Replay) : Prop where
  marked : Marked a input run.visited replay.pushed
  stack : List.Forall₂ (Frame.Noted a) run.stack replay.stack

theorem Frame.Noted.next {frame : Frame} {entry : Entry} (noted : frame.Noted a entry)
    (left : frame.untried = e :: later) :
    entry.Next a e := by
  have edges := noted.edges
  rw [left] at edges
  have state : entry.here.state = frame.state := congrArg Configuration.state noted.here
  rw [← state] at edges
  have member : e ∈ a.outgoing entry.here.state := by rw [edges]; simp
  exact ⟨(Automaton.mem_outgoing member).2, later, by simp [edges]⟩

theorem Frame.Noted.pass {frame : Frame} {entry : Entry} (noted : frame.Noted a entry)
    (left : frame.untried = e :: later) : ({ frame with untried := later } : Frame).Noted a (entry.pass e) :=
  ⟨noted.here, noted.via, by simp [noted.edges, left, Entry.pass]⟩

theorem taken_of_noted {stack : List Frame} {entries : List Entry} (noted : List.Forall₂ (Frame.Noted a) stack entries) :
    Replay.taken entries = path stack := by
  unfold Replay.taken path
  induction noted with
  | nil => rfl
  | cons same _ ih => simp [List.filterMap_cons, ih, same.via]

theorem Frame.Noted.resumed {parent : Frame} {entry : Entry} (noted : parent.Noted a entry) (below : List Entry) :
    resumed (entry :: below) = [.backtrack parent.state parent.position] := by
  rw [Search.resumed, noted.here]
  rfl

theorem Marked.empty : Marked a input (.empty a.states.length (Text.size input + 1)) [] := by
  intro c live inside
  simp [Visited.seen_empty live (Nat.lt_succ_of_le inside)]

theorem Marked.insert {visited : Visited} (marked : Marked a input visited pushed)
    (fits : visited.Fits a.states.length (Text.size input + 1)) {c : Configuration}
    (inside : c.position ≤ Text.size input) : Marked a input (visited.insert c.state c.position) (c :: pushed) := by
  intro d live inside'
  rw [Visited.seen_insert fits (Nat.lt_succ_of_le inside), marked d live inside', List.mem_cons]
  cases c
  cases d
  simp

theorem begin_noted (from_start : Text.from? input start = some rest) :
    ((Setting.of a input).begin start rest).Noted a input (.opened ⟨a.start, start⟩) := by
  have whole := Text.from?_size from_start
  have inside : start ≤ Text.size input := by omega
  refine ⟨Marked.empty.insert (c := ⟨a.start, start⟩) (Visited.empty_fits _ _) inside, .cons ⟨rfl, rfl, ?_⟩ .nil⟩
  exact (Setting.of_outgoing a input a.start).symm

theorem Run.Noted.top {visited : Visited} {top : Frame} {lower : List Frame} {replay : Replay}
    (noted : Run.Noted a input ⟨visited, top :: lower⟩ replay) :
    ∃ pushed via tried below, replay = ⟨pushed, ⟨top.here, via, tried⟩ :: below⟩ ∧ Marked a input visited pushed ∧
      top.Noted a ⟨top.here, via, tried⟩ ∧ List.Forall₂ (Frame.Noted a) lower below := by
  obtain ⟨pushed, entries⟩ := replay
  obtain ⟨marked, noted⟩ := noted
  cases noted with
  | @cons _ entry _ below same rest =>
    obtain ⟨place, via, tried⟩ := entry
    obtain rfl : place = top.here := same.here
    exact ⟨pushed, via, tried, below, rfl, marked, same, rest⟩

theorem Frame.Noted.spent {frame : Frame} {entry : Entry} (noted : frame.Noted a entry) (left : frame.untried = []) :
    entry.tried = a.outgoing entry.here.state := by
  have edges := noted.edges
  rw [left, List.append_nil] at edges
  rw [noted.here]
  exact edges.symm

theorem step_reads (sealed : a.Sealed) (valid : Valid a input origin run) (noted : run.Noted a input replay)
    (moved : (Setting.of a input).step run = .running events next) :
    ∃ later, Reads a input replay events later ∧ next.Noted a input later := by
  cases Setting.step_spec moved with
  | rejected left stripped =>
    obtain ⟨pushed, via, tried, below, rfl, marked, same, rest⟩ := noted.top
    exact ⟨_, .reject (same.next left) (valid.misses left stripped), marked, .cons (same.pass left) rest⟩
  | @revisited e _ _ _ top _ left stripped seen =>
    obtain ⟨pushed, via, tried, below, rfl, marked, same, rest⟩ := noted.top
    obtain ⟨occurs, live, inside⟩ := valid.onward sealed left stripped
    have known := (marked (top.here.after e) live inside).mp seen
    exact ⟨_, .revisit (same.next left) occurs known, marked, .cons (same.pass left) rest⟩
  | @taken e _ _ _ top _ left stripped unseen =>
    obtain ⟨pushed, via, tried, below, rfl, marked, same, rest⟩ := noted.top
    obtain ⟨occurs, live, inside⟩ := valid.onward sealed left stripped
    have fresh : top.here.after e ∉ pushed := fun member =>
      Bool.false_ne_true (unseen.symm.trans ((marked (top.here.after e) live inside).mpr member))
    have inserted := marked.insert (c := top.here.after e) valid.fits inside
    have untried : a.outgoing e.destination = [] ++ (Setting.of a input).outgoing e.destination :=
      (Setting.of_outgoing a input e.destination).symm
    exact ⟨_, .edge (same.next left) occurs fresh, inserted, .cons ⟨rfl, rfl, untried⟩ (.cons (same.pass left) rest)⟩
  | @emptied _ top left rejects =>
    obtain ⟨pushed, via, tried, below, rfl, marked, same, rest⟩ := noted.top
    cases rest
    exact ⟨_, .deadEnd (same.spent left) (not_accepts rejects), marked, .nil⟩
  | @resumed _ top parent _ left rejects =>
    obtain ⟨pushed, via, tried, below, rfl, marked, same, rest⟩ := noted.top
    refine ⟨⟨pushed, below⟩, ?_, marked, rest⟩
    cases rest with
    | cons under _ =>
      rw [← under.resumed]
      exact .deadEnd (same.spent left) (not_accepts rejects)

theorem Setting.Runs.replays (sealed : a.Sealed) (runs : (Setting.of a input).Runs run steps last)
    (valid : Valid a input origin run) (noted : run.Noted a input replay) :
    ∃ later, Replays a input replay steps.flatten later ∧ last.Noted a input later := by
  induction runs generalizing replay with
  | here => exact ⟨replay, .done, noted⟩
  | step moved _ ih =>
    obtain ⟨between, reads, noted⟩ := step_reads sealed valid noted moved
    obtain ⟨later, replays, noted⟩ := ih (step_valid sealed valid moved) noted
    exact ⟨later, .on reads replays, noted⟩

theorem firstMatch_blocks (sealed : a.Sealed) (observe : σ → Event → σ) (seen : σ)
    (starts : List (Nat × Text)) (listed : ∀ p ∈ starts, Text.from? input p.1 = some p.2) :
    ∃ tried untried events found, starts.map (·.1) = tried ++ untried ∧ (found = none → untried = []) ∧
      Blocks a input tried events found ∧
      (Setting.of a input).firstMatch observe seen starts = (events.foldl observe seen, found) := by
  induction starts generalizing seen with
  | nil => exact ⟨[], [], [], none, rfl, fun _ => rfl, .exhausted, rfl⟩
  | cons p later ih =>
    obtain ⟨start, rest⟩ := p
    have from_start := listed _ List.mem_cons_self
    have began := begin_valid sealed from_start
    obtain ⟨steps, last, runs, ends⟩ := (Setting.of a input).explore_runs observe
      (observe seen (.start start)) ((Setting.of a input).begin start rest)
    obtain ⟨replay, replays, noted⟩ := runs.replays sealed began (begin_noted from_start)
    rcases ends with ⟨failed, explored⟩ | ⟨event, stack, accepted, explored⟩
    · cases Setting.step_spec failed with
      | failed =>
        obtain ⟨pushed, entries⟩ := replay
        cases noted.stack
        obtain ⟨tried, untried, events, found, split, all, blocks, answer⟩ :=
          ih (steps.flatten.foldl observe (observe seen (.start start))) fun p member =>
            listed p (List.mem_cons_of_mem _ member)
        refine ⟨start :: tried, untried, .start start :: steps.flatten ++ events, found, by simp [split], all,
          .failed replays blocks, ?_⟩
        simp only [Setting.firstMatch, explored, answer, List.foldl_append, List.foldl_cons]
    · obtain ⟨_, _, edges, tried, rfl, trail, accepts⟩ := step_accepted (runs.valid sealed began) accepted
      cases Setting.step_spec accepted with
      | accepted left _ =>
        obtain ⟨pushed, via, tried, below, rfl, _, same, rest⟩ := noted.top
        have blocks := Blocks.accepted replays (same.spent left) accepts
        rw [taken_of_noted (.cons same rest), ← matched_of_path from_start trail accepts] at blocks
        refine ⟨[start], later.map (·.1), _, _, rfl, ?_, blocks, ?_⟩
        · intro impossible
          cases impossible
        · simp only [Setting.firstMatch, explored, List.cons_append, List.foldl_cons]
          rfl

theorem Setting.explore_found (m : Setting) (observe : σ → Event → σ) (seen : σ) (other : τ → Event → τ) (seen' : τ)
    (run : Run) : (m.explore observe seen run).2 = (m.explore other seen' run).2 := by
  fun_induction Setting.explore m observe seen run generalizing seen' with
  | case1 seen run events next moved ih => rw [ih (events.foldl other seen'), Setting.explore_running moved]
  | case2 seen run event stack moved => rw [Setting.explore_accepted moved]
  | case3 seen run moved => rw [Setting.explore_failed moved]

theorem Setting.firstMatch_found (m : Setting) (observe : σ → Event → σ) (seen : σ) (other : τ → Event → τ) (seen' : τ)
    (starts : List (Nat × Text)) : (m.firstMatch observe seen starts).2 = (m.firstMatch other seen' starts).2 := by
  induction starts generalizing seen seen' with
  | nil => rfl
  | cons p later ih =>
    obtain ⟨start, rest⟩ := p
    have same := m.explore_found observe (observe seen (.start start)) other (other seen' (.start start)) (m.begin start rest)
    unfold Setting.firstMatch
    rcases one : m.explore observe (observe seen (.start start)) (m.begin start rest) with ⟨after, answer⟩
    rcases two : m.explore other (other seen' (.start start)) (m.begin start rest) with ⟨after', answer'⟩
    rw [one, two] at same
    obtain rfl : answer = answer' := same
    cases answer with
    | none => exact ih after after'
    | some stack => rfl

end Search

namespace Automaton

open Search

theorem events_found (a : Automaton) (input : Text) (offset : Nat) :
    (a.events input offset).2 = a.findFrom input offset :=
  (Setting.of a input).firstMatch_found _ _ _ _ _

theorem events_blocks (sealed : a.Sealed) (input : Text) (offset : Nat) :
    ∃ tried untried, (candidates a.anchors input offset).map (·.1) = tried ++ untried ∧
      (a.findFrom input offset = none → untried = []) ∧
      Blocks a input tried (a.events input offset).1 (a.findFrom input offset) := by
  have listed : ∀ p ∈ candidates a.anchors input offset, Text.from? input p.1 = some p.2 :=
    fun p member => (mem_candidates.mp member).2
  obtain ⟨tried, untried, events, found, split, all, blocks, answer⟩ :=
    firstMatch_blocks sealed (fun seen event => event :: seen) [] _ listed
  have shown : a.events input offset = (events, found) := by
    unfold Automaton.events Automaton.observeFrom
    rw [answer]
    simp
  have same : found = a.findFrom input offset := by rw [← events_found, shown]
  rw [shown, ← same]
  exact ⟨tried, untried, split, all, blocks⟩

-- The starts tried are the candidates up to the start of the match, ascending, and the events replay
-- what was done from each. There is one accepting event, the last, if and only if there is a match.
theorem events_replay (sealed : a.Sealed) (input : Text) (offset : Nat) :
    ∃ tried, tried.Pairwise (· < ·) ∧
      (∀ start, start ∈ tried ↔ Candidate a.anchors input offset start ∧
        ∀ m, a.findFrom input offset = some m → start ≤ m.start) ∧
      Blocks a input tried (a.events input offset).1 (a.findFrom input offset) ∧
      (a.findFrom input offset = none → ∀ event ∈ (a.events input offset).1, event.isAccept = false) ∧
      ∀ m, a.findFrom input offset = some m → ∃ front state position,
        (a.events input offset).1 = front ++ [.accept state position] ∧ ∀ event ∈ front, event.isAccept = false := by
  obtain ⟨tried, untried, split, all, blocks⟩ := events_blocks sealed input offset
  have ascending : ((candidates a.anchors input offset).map (·.1)).Pairwise (· < ·) :=
    List.pairwise_map.mpr ((Text.suffixes_ascending input 0).filter _)
  have allowed : ∀ start, start ∈ tried ++ untried ↔ Candidate a.anchors input offset start := by
    intro start
    rw [← split]
    constructor
    · intro listed
      obtain ⟨p, member, rfl⟩ := List.mem_map.mp listed
      exact (mem_candidates.mp member).1
    · intro candidate
      obtain ⟨rest, member⟩ := candidate.listed
      exact List.mem_map.mpr ⟨_, member, rfl⟩
  rw [split] at ascending
  obtain ⟨tried_ascending, _, apart⟩ := List.pairwise_append.mp ascending
  refine ⟨tried, tried_ascending, ?_, blocks, ?_, ?_⟩
  · intro start
    cases answer : a.findFrom input offset with
    | none =>
      rw [all answer, List.append_nil] at allowed
      simp [allowed]
    | some m =>
      rw [answer] at blocks
      obtain ⟨⟨sooner, rfl⟩, _⟩ := blocks.accept_last
      constructor
      · intro member
        refine ⟨(allowed start).mp (List.mem_append_left _ member), ?_⟩
        intro m' same
        cases same
        rcases List.mem_append.mp member with earlier | last
        · exact Nat.le_of_lt ((List.pairwise_append.mp tried_ascending).2.2 start earlier m.start List.mem_cons_self)
        · exact Nat.le_of_eq (List.mem_singleton.mp last)
      · rintro ⟨candidate, bound⟩
        rcases List.mem_append.mp ((allowed start).mpr candidate) with member | beyond
        · exact member
        · have late := apart m.start (List.mem_append_right _ List.mem_cons_self) start beyond
          exact (Nat.not_lt.mpr (bound m rfl) late).elim
  · intro failed
    rw [failed] at blocks
    exact blocks.no_accept
  · intro m found
    rw [found] at blocks
    exact blocks.accept_last.2

theorem events_replay_cyclic :
    cyclic.Sealed ∧ ∃ tried, tried.Pairwise (· < ·) ∧
      (∀ start, start ∈ tried ↔ Candidate cyclic.anchors ['b', 'a'] 0 start ∧
        ∀ m, cyclic.findFrom ['b', 'a'] 0 = some m → start ≤ m.start) ∧
      Blocks cyclic ['b', 'a'] tried (cyclic.events ['b', 'a'] 0).1 (cyclic.findFrom ['b', 'a'] 0) ∧
      (cyclic.findFrom ['b', 'a'] 0 = none → ∀ event ∈ (cyclic.events ['b', 'a'] 0).1, event.isAccept = false) ∧
      ∀ m, cyclic.findFrom ['b', 'a'] 0 = some m → ∃ front state position,
        (cyclic.events ['b', 'a'] 0).1 = front ++ [.accept state position] ∧ ∀ event ∈ front, event.isAccept = false :=
  ⟨cyclic_sealed, events_replay cyclic_sealed _ _⟩

example : (cyclic.events ['b', 'a'] 1).1 =
    [.start 1, .edge ⟨0, 1, [], []⟩ 1, .revisit 0 1, .edge ⟨1, 1, ['a'], [0]⟩ 2, .edge ⟨1, 0, [], []⟩ 2,
      .revisit 1 2, .deadEnd 0 2, .backtrack 1 2, .reject ⟨1, 1, ['a'], [0]⟩ 2, .accept 1 2] := by cbv

end Automaton
end PatternMachine
