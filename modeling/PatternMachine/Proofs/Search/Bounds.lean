import Mathlib.Algebra.BigOperators.Ring.Finset
import Mathlib.Algebra.Order.BigOperators.Group.Finset
import Mathlib.Order.Interval.Finset.Nat
import PatternMachine.Proofs.Search.Replay

namespace PatternMachine

namespace Event

def pair? : Event → Option Search.Configuration
  | .edge e position => some ⟨e.destination, position⟩
  | _ => none

def isTry : Event → Bool
  | .edge _ _ | .reject _ _ | .revisit _ _ => true
  | _ => false

def isDeadEnd : Event → Bool
  | .deadEnd _ _ => true
  | _ => false

end Event

theorem Text.occursAt_inside {s value : Text} {offset : Nat} (occurs : Text.occursAt s offset value = true) :
    offset + Text.size value ≤ Text.size s := by
  cases here : Text.from? s offset with
  | none => simp [Text.occursAt, here] at occurs
  | some rest =>
    obtain ⟨after, rfl⟩ := (Text.occursAt_iff here).mp occurs
    have whole := Text.from?_size (Text.from?_advance here)
    omega

namespace Search

variable {a : Automaton} {input : Text}

def Entry.left (a : Automaton) (entry : Entry) : Nat :=
  (a.outgoing entry.here.state).length - entry.tried.length

def pending (a : Automaton) (stack : List Entry) : Nat := (stack.map (·.left a)).sum

def leavingCount (a : Automaton) (pushed : List Configuration) : Nat :=
  (pushed.map fun c => (a.outgoing c.state).length).sum

@[simp] theorem pending_cons (top : Entry) (below : List Entry) :
    pending a (top :: below) = top.left a + pending a below := rfl

@[simp] theorem leavingCount_cons (c : Configuration) (pushed : List Configuration) :
    leavingCount a (c :: pushed) = (a.outgoing c.state).length + leavingCount a pushed := rfl

theorem Entry.Next.left {top : Entry} {e : Edge} (next : top.Next a e) : top.left a = (top.pass e).left a + 1 := by
  have short := next.inTurn.length_le
  simp only [Entry.left, Entry.pass, List.length_append, List.length_singleton] at short ⊢
  omega

theorem Entry.left_new (c : Configuration) (via : Option Edge) :
    (Entry.mk c via []).left a = (a.outgoing c.state).length := rfl

theorem Entry.left_spent {top : Entry} (spent : top.tried = a.outgoing top.here.state) : top.left a = 0 := by
  simp [Entry.left, spent]

-- The books of a replay: what is pushed is paid for in edges to try and in entries to give up.
structure Tally (a : Automaton) (before : Replay) (events : List Event) (after : Replay) : Prop where
  pushed : after.pushed = (events.filterMap Event.pair?).reverse ++ before.pushed
  tries : events.countP Event.isTry + pending a after.stack + leavingCount a before.pushed =
    pending a before.stack + leavingCount a after.pushed
  deadEnds : events.countP Event.isDeadEnd + after.stack.length + before.pushed.length =
    before.stack.length + after.pushed.length

theorem Tally.trans {first middle last : Replay} (one : Tally a first events middle) (two : Tally a middle later last) :
    Tally a first (events ++ later) last := by
  refine ⟨?_, ?_, ?_⟩
  · rw [two.pushed, one.pushed, List.filterMap_append, List.reverse_append, List.append_assoc]
  · have paid := one.tries
    have paid' := two.tries
    rw [List.countP_append]
    omega
  · have paid := one.deadEnds
    have paid' := two.deadEnds
    rw [List.countP_append]
    omega

theorem resumed_quiet (below : List Entry) : (resumed below).filterMap Event.pair? = [] ∧
    (resumed below).countP Event.isTry = 0 ∧ (resumed below).countP Event.isDeadEnd = 0 := by
  cases below <;> exact ⟨rfl, rfl, rfl⟩

theorem Reads.tally (reads : Reads a input before now after) : Tally a before now after := by
  cases reads with
  | edge next _ _ =>
    have fewer := next.left
    refine ⟨rfl, ?_, ?_⟩
    · simp only [pending_cons, leavingCount_cons, Entry.left_new, fewer, List.countP_singleton, Event.isTry, if_true]
      omega
    · simp only [List.countP_singleton, Event.isDeadEnd, List.length_cons, Bool.false_eq_true, if_false]
      omega
  | reject next _ | revisit next _ _ =>
    have fewer := next.left
    refine ⟨rfl, ?_, ?_⟩
    · simp only [pending_cons, fewer, List.countP_singleton, Event.isTry, if_true]
      omega
    · simp [Event.isDeadEnd]
  | @deadEnd pushed top below spent _ =>
    have none_left := Entry.left_spent spent
    obtain ⟨no_pair, no_try, no_deadEnd⟩ := resumed_quiet below
    refine ⟨?_, ?_, ?_⟩
    · show pushed = ((resumed below).filterMap Event.pair?).reverse ++ pushed
      rw [no_pair]
      rfl
    · simp [Event.isTry, no_try, none_left]
    · simp only [List.countP_cons, no_deadEnd, Event.isDeadEnd, List.length_cons, if_true]
      omega

theorem Replays.tally (replays : Replays a input before events after) : Tally a before events after := by
  induction replays with
  | done => exact ⟨rfl, by simp, by simp⟩
  | on reads _ ih => exact reads.tally.trans ih

-- The pairs that a search from `start` may push: each state of the automaton with each offset from
-- there to the end of the input.
structure Replay.Boxed (a : Automaton) (input : Text) (start : Nat) (replay : Replay) : Prop where
  distinct : replay.pushed.Nodup
  live : ∀ c ∈ replay.pushed, c.state < a.states.length
  inside : ∀ c ∈ replay.pushed, start ≤ c.position ∧ c.position ≤ Text.size input
  held : ∀ entry ∈ replay.stack, entry.here ∈ replay.pushed

theorem Reads.boxed (sealed : a.Sealed) (reads : Reads a input before now after) (boxed : before.Boxed a input start) :
    after.Boxed a input start := by
  cases reads with
  | @edge pushed top below e next occurs fresh =>
    have place := boxed.inside top.here (boxed.held top List.mem_cons_self)
    have outgoing : e ∈ a.outgoing top.here.state := next.inTurn.subset (by simp)
    have ends := Text.occursAt_inside occurs
    refine ⟨List.nodup_cons.mpr ⟨fresh, boxed.distinct⟩, ?_, ?_, ?_⟩
    · refine List.forall_mem_cons.mpr ⟨?_, boxed.live⟩
      exact (sealed.edges_live e (Automaton.mem_outgoing outgoing).1).2
    · refine List.forall_mem_cons.mpr ⟨⟨?_, ends⟩, boxed.inside⟩
      exact Nat.le_trans place.1 (Nat.le_add_right _ _)
    · refine List.forall_mem_cons.mpr ⟨List.mem_cons_self, ?_⟩
      intro entry member
      refine List.mem_cons_of_mem _ ?_
      rcases List.mem_cons.mp member with rfl | member
      · exact boxed.held top List.mem_cons_self
      · exact boxed.held entry (List.mem_cons_of_mem _ member)
  | @reject _ top _ _ _ _ | @revisit _ top _ _ _ _ _ =>
    refine ⟨boxed.distinct, boxed.live, boxed.inside, List.forall_mem_cons.mpr ⟨?_, ?_⟩⟩
    · exact boxed.held top List.mem_cons_self
    · exact fun entry member => boxed.held entry (List.mem_cons_of_mem _ member)
  | deadEnd _ _ =>
    refine ⟨boxed.distinct, boxed.live, boxed.inside, ?_⟩
    exact fun entry member => boxed.held entry (List.mem_cons_of_mem _ member)

theorem Replays.boxed (sealed : a.Sealed) (replays : Replays a input before events after)
    (boxed : before.Boxed a input start) : after.Boxed a input start := by
  induction replays with
  | done => exact boxed
  | on reads _ ih => exact ih (reads.boxed sealed boxed)

theorem opened_boxed (sealed : a.Sealed) (inside : start ≤ Text.size input) :
    (Replay.opened ⟨a.start, start⟩).Boxed a input start := by
  refine ⟨List.nodup_singleton _, ?_, ?_, ?_⟩
  · exact List.forall_mem_singleton.mpr sealed.start_live
  · exact List.forall_mem_singleton.mpr ⟨Nat.le_refl _, inside⟩
  · exact List.forall_mem_singleton.mpr List.mem_cons_self

def box (a : Automaton) (input : Text) (start : Nat) : Finset (StateId × Nat) :=
  Finset.range a.states.length ×ˢ Finset.Icc start (Text.size input)

def Configuration.pair (c : Configuration) : StateId × Nat := (c.state, c.position)

theorem outgoing_total (sealed : a.Sealed) :
    ∑ state ∈ Finset.range a.states.length, (a.outgoing state).length = a.edges.length := by
  let origins : Multiset StateId := a.edges.map (·.origin)
  have counted : ∀ state ∈ Finset.range a.states.length, (a.outgoing state).length = origins.count state := by
    intro state live
    have has : a.has state = true := decide_eq_true (Finset.mem_range.mp live)
    rw [Multiset.coe_count, List.count, List.countP_map, List.countP_eq_length_filter, Automaton.outgoing, if_pos has]
    rfl
  have live : ∀ state ∈ origins, state ∈ Finset.range a.states.length := by
    intro state member
    obtain ⟨e, listed, rfl⟩ := List.mem_map.mp (Multiset.mem_coe.mp member)
    exact Finset.mem_range.mpr (sealed.edges_live e listed).1
  rw [Finset.sum_congr rfl counted, Multiset.sum_count_eq_card live, Multiset.coe_card, List.length_map]

section

variable {start : Nat} {replay : Replay} (boxed : replay.Boxed a input start)
include boxed

theorem Replay.Boxed.pairs_nodup : (replay.pushed.map Configuration.pair).Nodup := by
  refine boxed.distinct.map ?_
  intro c d same
  cases c
  cases d
  cases same
  rfl

theorem Replay.Boxed.pairs_subset : (replay.pushed.map Configuration.pair).toFinset ⊆ box a input start := by
  intro p member
  obtain ⟨c, listed, rfl⟩ := List.mem_map.mp (List.mem_toFinset.mp member)
  exact Finset.mem_product.mpr ⟨Finset.mem_range.mpr (boxed.live c listed), Finset.mem_Icc.mpr (boxed.inside c listed)⟩

theorem Replay.Boxed.pushed_le (inside : start ≤ Text.size input) :
    replay.pushed.length ≤ a.states.length * (Text.size input - start + 1) := by
  have width : Text.size input + 1 - start = Text.size input - start + 1 := by omega
  calc replay.pushed.length
      = (replay.pushed.map Configuration.pair).toFinset.card := by
        rw [List.toFinset_card_of_nodup boxed.pairs_nodup, List.length_map]
    _ ≤ (box a input start).card := Finset.card_le_card boxed.pairs_subset
    _ = a.states.length * (Text.size input - start + 1) := by
        rw [box, Finset.card_product, Finset.card_range, Nat.card_Icc, width]

theorem Replay.Boxed.leaving_le (sealed : a.Sealed) (inside : start ≤ Text.size input) :
    leavingCount a replay.pushed ≤ a.edges.length * (Text.size input - start + 1) := by
  have width : Text.size input + 1 - start = Text.size input - start + 1 := by omega
  let leaving (p : StateId × Nat) : Nat := (a.outgoing p.1).length
  calc leavingCount a replay.pushed
      = ((replay.pushed.map Configuration.pair).map leaving).sum := by
        rw [leavingCount, List.map_map]
        rfl
    _ = ∑ p ∈ (replay.pushed.map Configuration.pair).toFinset, leaving p :=
        (List.sum_toFinset leaving boxed.pairs_nodup).symm
    _ ≤ ∑ p ∈ box a input start, leaving p := Finset.sum_le_sum_of_subset boxed.pairs_subset
    _ = ∑ state ∈ Finset.range a.states.length, (Text.size input - start + 1) * (a.outgoing state).length := by
        simp only [box, leaving, Finset.sum_product, Finset.sum_const, Nat.card_Icc, width, Nat.nsmul_eq_mul]
    _ = a.edges.length * (Text.size input - start + 1) := by
        rw [← Finset.mul_sum, outgoing_total sealed, Nat.mul_comm]

end

-- What the events of a block may be at most. The pair of the start is pushed before any of them.
structure Bounded (a : Automaton) (input : Text) (start : Nat) (block : List Event) : Prop where
  distinct : ((⟨a.start, start⟩ : Configuration) :: block.filterMap Event.pair?).Nodup
  pairs : (block.filterMap Event.pair?).length < a.states.length * (Text.size input - start + 1)
  tries : block.countP Event.isTry ≤ a.edges.length * (Text.size input - start + 1)

section

variable {start : Nat} {events : List Event} {last : Replay} (sealed : a.Sealed)
  (inside : start ≤ Text.size input) (replays : Replays a input (.opened ⟨a.start, start⟩) events last)
include sealed inside replays

theorem Replays.bounded : Bounded a input start events := by
  have tally := replays.tally
  have boxed := replays.boxed sealed (opened_boxed sealed inside)
  have pushed : last.pushed = (⟨a.start, start⟩ :: events.filterMap Event.pair?).reverse := by
    rw [tally.pushed, List.reverse_cons]
    rfl
  have distinct := boxed.distinct
  have length := boxed.pushed_le inside
  rw [pushed] at distinct length
  refine ⟨List.nodup_reverse.mp distinct, ?_, ?_⟩
  · simpa [Nat.succ_le_iff] using length
  · have paid := tally.tries
    have leaving := boxed.leaving_le sealed inside
    simp only [Replay.opened, pending_cons, leavingCount_cons, Entry.left_new] at paid
    simp only [pending, leavingCount, List.map_nil, List.sum_nil] at paid leaving
    omega

theorem Replays.deadEnds_le :
    events.countP Event.isDeadEnd ≤ a.states.length * (Text.size input - start + 1) := by
  have paid := replays.tally.deadEnds
  have pushed := (replays.boxed sealed (opened_boxed sealed inside)).pushed_le inside
  simp only [Replay.opened, List.length_singleton] at paid
  omega

end

theorem step_counts {m : Setting} {run next : Run} {events : List Event}
    (moved : m.step run = .running events next) : events.countP Event.isTry + events.countP Event.isDeadEnd = 1 := by
  cases Setting.step_spec moved with
  | rejected | revisited | taken | emptied | resumed => rfl

theorem Setting.Runs.length_eq {m : Setting} {run last : Run} {steps : List (List Event)}
    (runs : m.Runs run steps last) :
    steps.length = steps.flatten.countP Event.isTry + steps.flatten.countP Event.isDeadEnd := by
  induction runs with
  | here => rfl
  | step moved _ ih =>
    have one := step_counts moved
    rw [List.length_cons, List.flatten_cons, List.countP_append, List.countP_append, ih]
    omega

theorem Setting.Runs.length_le (sealed : a.Sealed) (from_start : Text.from? input start = some rest)
    (runs : (Setting.of a input).Runs ((Setting.of a input).begin start rest) steps last) :
    steps.length ≤ (a.edges.length + a.states.length) * (Text.size input - start + 1) := by
  have inside : start ≤ Text.size input := Nat.le_of_add_right_le (Nat.le_of_eq (Text.from?_size from_start))
  obtain ⟨later, replays, _⟩ := runs.replays sealed (begin_valid sealed from_start) (begin_noted from_start)
  have tries := (replays.bounded sealed inside).tries
  have deadEnds := replays.deadEnds_le sealed inside
  rw [runs.length_eq, Nat.add_mul]
  omega

theorem Bounded.accepting (bounded : Bounded a input start block) (state : StateId) (position : Nat) :
    Bounded a input start (block ++ [.accept state position]) := by
  have same : (block ++ [Event.accept state position]).filterMap Event.pair? = block.filterMap Event.pair? := by
    rw [List.filterMap_append]
    exact List.append_nil _
  refine ⟨same ▸ bounded.distinct, same ▸ bounded.pairs, ?_⟩
  rw [List.countP_append]
  exact bounded.tries

theorem Blocks.bounded (sealed : a.Sealed) (blocks : Blocks a input tried events found)
    (inside : ∀ start ∈ tried, start ≤ Text.size input) :
    ∃ logs : List (Nat × List Event), logs.map (·.1) = tried ∧
      events = logs.flatMap (fun log => .start log.1 :: log.2) ∧
      ∀ log ∈ logs, (∀ event ∈ log.2, event.isStart = false) ∧ Bounded a input log.1 log.2 := by
  induction blocks with
  | exhausted => exact ⟨[], rfl, rfl, by simp⟩
  | @failed start block _ later _ _ replays _ ih =>
    obtain ⟨here, beyond⟩ := List.forall_mem_cons.mp inside
    obtain ⟨logs, rfl, rfl, all⟩ := ih beyond
    refine ⟨(start, block) :: logs, rfl, rfl, List.forall_mem_cons.mpr ⟨⟨?_, ?_⟩, all⟩⟩
    · exact fun event member => (replays.inner event member).1
    · exact replays.bounded sealed here
  | @accepted start block _ top _ replays _ _ =>
    have here := inside start List.mem_cons_self
    refine ⟨[(start, block ++ [.accept top.here.state top.here.position])], rfl, by simp,
      List.forall_mem_singleton.mpr ⟨?_, (replays.bounded sealed here).accepting _ _⟩⟩
    refine List.forall_mem_append.mpr ⟨fun event member => (replays.inner event member).1, ?_⟩
    exact List.forall_mem_singleton.mpr rfl

end Search

namespace Automaton

open Search

-- From each start tried no pair is pushed twice, and edges are tried no more often than each of them
-- once at each position. From every candidate the search comes to an end within so many steps.
theorem search_bounded (sealed : a.Sealed) (input : Text) (offset : Nat) :
    (∃ blocks : List (Nat × List Event),
      (a.events input offset).1 = blocks.flatMap (fun block => .start block.1 :: block.2) ∧
      ∀ block ∈ blocks, Candidate a.anchors input offset block.1 ∧
        (∀ event ∈ block.2, event.isStart = false) ∧ Bounded a input block.1 block.2) ∧
      ∀ start rest, (start, rest) ∈ candidates a.anchors input offset →
        (∀ steps run, (Setting.of a input).Runs ((Setting.of a input).begin start rest) steps run →
          steps.length ≤ (a.edges.length + a.states.length) * (Text.size input - start + 1)) ∧
        ∃ steps run, (Setting.of a input).Runs ((Setting.of a input).begin start rest) steps run ∧
          ∀ events next, (Setting.of a input).step run ≠ .running events next := by
  constructor
  · obtain ⟨tried, untried, split, _, blocks⟩ := events_blocks sealed input offset
    have candidate : ∀ start ∈ tried, Candidate a.anchors input offset start := by
      intro start member
      have listed : start ∈ (candidates a.anchors input offset).map (·.1) := by rw [split]; simp [member]
      obtain ⟨p, present, rfl⟩ := List.mem_map.mp listed
      exact (mem_candidates.mp present).1
    have inside : ∀ start ∈ tried, start ≤ Text.size input := by
      intro start member
      obtain ⟨before, after, rfl, rfl⟩ := Text.isBoundary_iff.mp (candidate start member).boundary
      simp
    obtain ⟨logs, rfl, shown, all⟩ := blocks.bounded sealed inside
    exact ⟨logs, shown, fun log member => ⟨candidate log.1 (List.mem_map_of_mem member), all log member⟩⟩
  · intro start rest listed
    refine ⟨fun steps run runs => runs.length_le sealed (mem_candidates.mp listed).2, ?_⟩
    obtain ⟨steps, run, runs, ends⟩ := (Setting.of a input).explore_runs (fun () _ => ()) ()
      ((Setting.of a input).begin start rest)
    refine ⟨steps, run, runs, fun events next moved => ?_⟩
    rcases ends with ⟨failed, _⟩ | ⟨event, stack, accepted, _⟩
    · cases failed.symm.trans moved
    · cases accepted.symm.trans moved

theorem search_bounded_cyclic :
    cyclic.Sealed ∧
      (∃ blocks : List (Nat × List Event),
        (cyclic.events ['b', 'a'] 0).1 = blocks.flatMap (fun block => .start block.1 :: block.2) ∧
        ∀ block ∈ blocks, Candidate cyclic.anchors ['b', 'a'] 0 block.1 ∧
          (∀ event ∈ block.2, event.isStart = false) ∧ Bounded cyclic ['b', 'a'] block.1 block.2) ∧
      ∀ start rest, (start, rest) ∈ candidates cyclic.anchors ['b', 'a'] 0 →
        (∀ steps run, (Setting.of cyclic ['b', 'a']).Runs ((Setting.of cyclic ['b', 'a']).begin start rest) steps run →
          steps.length ≤ (cyclic.edges.length + cyclic.states.length) * (Text.size ['b', 'a'] - start + 1)) ∧
        ∃ steps run, (Setting.of cyclic ['b', 'a']).Runs ((Setting.of cyclic ['b', 'a']).begin start rest) steps run ∧
          ∀ events next, (Setting.of cyclic ['b', 'a']).step run ≠ .running events next :=
  ⟨cyclic_sealed, search_bounded cyclic_sealed _ _⟩

end Automaton
end PatternMachine
