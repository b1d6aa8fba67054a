import PatternMachine.Proofs.Automaton.Tries
import PatternMachine.Proofs.Construction.Language

namespace PatternMachine

-- The ends of branches lead on, and no other state laid with them leads anywhere else.
structure Exits (fork first : StateId) (nullable : Bool) (sheaf : Sheaf)
    (exit : StateId → Text → Option Consumed → Prop) (onward : Onward) (rest : Text) : Prop where
  stops : ∀ stop ∈ sheaf.stops, stop ≠ fork → ∀ after, Remains nullable rest after → exit stop after (onward after)
  inside : ∀ id after, first ≤ id → id < sheaf.next → id ∉ sheaf.stops → exit id after none

def Sheaf.Ordered (fork first : StateId) (nullable : Bool) (matcher : Onward → Onward) (sheaf : Sheaf) : Prop :=
  ∀ exit onward rest other, Exits fork first nullable sheaf exit onward rest → exit fork rest other →
    Tries sheaf.edges exit fork (Edge.leaving sheaf.edges fork) rest (matcher onward rest <|> other)

def Strand.alone (s : Strand) : Sheaf := ⟨s.edges, [s.stop], s.next⟩

-- The edges of a strand without its pending literals: none at the fork, or a branch that ends off it.
def Strand.Settled (fork first : StateId) (nullable : Bool) (matcher : Onward → Onward) (s : Strand) : Prop :=
  (s.stop = fork ∧ s.edges = [] ∧ nullable = true ∧ matcher = id) ∨
    (s.stop ≠ fork ∧ s.alone.Ordered fork first nullable matcher)

def Strand.Ordered (captures : List Nat) (fork first : StateId) (nullable : Bool) (matcher : Onward → Onward)
    (s : Strand) : Prop :=
  ∃ nullable' core, s.Settled fork first nullable' core ∧ (nullable' && s.pending.isEmpty) = nullable ∧
    (fun onward => core (Item.takeAll captures s.pending onward)) = matcher

def Strand.Runs (fork first : StateId) (nullable : Bool) (matcher : Onward → Onward) (s : Strand) : Prop :=
  ∀ exit onward rest, (∀ after, Remains nullable rest after → exit s.stop after (onward after)) →
    (∀ id after, id = fork ∨ first ≤ id ∧ id < s.next → id ≠ s.stop → exit id after none) →
    Tries s.edges exit fork (Edge.leaving s.edges fork) rest (matcher onward rest)

section Stages

variable {fork first : StateId} {nullable nullable' : Bool} {matcher matcher' : Onward → Onward} {sheaf : Sheaf}
  {s later : Strand} {captures : List Nat}

theorem Sheaf.Ordered.before {exit : StateId → Text → Option Consumed → Prop} {rest : Text} {other : Option Consumed}
    (ordered : sheaf.Ordered fork first nullable matcher) (later : List Edge) (onward : Onward)
    (exits : Exits fork first nullable sheaf
      (fun id rest result => Tries (sheaf.edges ++ later) exit id (Edge.leaving later id) rest result) onward rest)
    (here : Tries (sheaf.edges ++ later) exit fork (Edge.leaving later fork) rest other) :
    Tries (sheaf.edges ++ later) exit fork (Edge.leaving (sheaf.edges ++ later) fork) rest
      (matcher onward rest <|> other) := by
  rw [Edge.leaving_append]
  exact (ordered _ _ _ _ exits here).extended fun there => there

theorem Sheaf.Ordered.runs (ordered : s.alone.Ordered fork first nullable matcher) (off : s.stop ≠ fork) :
    s.Runs fork first nullable matcher := by
  intro exit onward rest stop inside
  have exits : Exits fork first nullable s.alone exit onward rest := by
    refine ⟨?_, ?_⟩
    · intro id member _
      cases List.mem_singleton.mp member
      exact stop
    · intro id after above below different
      exact inside id after (.inr ⟨above, below⟩) fun same => different (List.mem_singleton.mpr same)
  have tries := ordered exit onward rest none exits (inside fork rest (.inl rfl) off.symm)
  simpa [Strand.alone] using tries

theorem Sheaf.Ordered.onward (ordered : s.alone.Ordered fork first nullable matcher) (within : s.Within fork first)
    (off : s.stop ≠ fork) (runs : later.Runs s.stop s.next nullable' matcher')
    (newer : ∀ e ∈ later.edges, (e.origin = s.stop ∨ s.next ≤ e.origin) ∧
      (s.next ≤ e.destination ∨ e.destination = s.stop ∧ ∀ e' ∈ s.edges, e'.origin ≠ s.stop))
    (ends : later.stop = s.stop ∨ s.next ≤ later.stop) (next_ge : s.next ≤ later.next) :
    (s.onward later).alone.Ordered fork first (nullable && nullable') (fun onward => matcher (matcher' onward)) := by
  have first_le : first ≤ s.stop := (within.stop.resolve_left fun held => off held.1).1
  have ends_off : later.stop ≠ fork := by
    rcases ends with same | beyond
    · rw [same]
      exact off
    · exact Nat.ne_of_gt (Nat.lt_of_lt_of_le within.fork_lt_next beyond)
  have ends_apart : ∀ id, id < s.next → id ≠ s.stop → id ≠ later.stop := by
    intro id below different same
    rcases ends with stays | beyond
    · exact different (same.trans stays)
    · exact Nat.not_lt.mpr beyond (same ▸ below)
  have quiet : ∀ id, id < s.next → id ≠ s.stop → Edge.leaving later.edges id = [] :=
    fun _ below different => Edge.leaving_newer (fun e member => (newer e member).1) below different
  intro exit onward rest other exits here
  have inside : ∀ id after, first ≤ id → id < later.next → id ≠ later.stop → exit id after none :=
    fun id after above below different => exits.inside id after above below fun same => different (List.mem_singleton.mp same)
  refine ordered.before later.edges (matcher' onward) ⟨?_, ?_⟩ ?_
  · intro stop member _ middle remains
    cases List.mem_singleton.mp member
    have tries : Tries later.edges exit s.stop (Edge.leaving later.edges s.stop) middle (matcher' onward middle) := by
      refine runs exit onward middle ?_ ?_
      · intro after remains'
        exact exits.stops later.stop List.mem_cons_self ends_off after (remains.trans remains')
      · intro id after place different
        rcases place with rfl | ⟨above, below⟩
        · exact inside s.stop after first_le (Nat.lt_of_lt_of_le within.stop_lt next_ge) different
        · exact inside id after (Nat.le_trans within.next_ge above) below different
    refine tries.behind ?_ List.filter_sublist.subset
    intro e member e' older same
    rcases (newer e member).2 with beyond | ⟨back, none⟩
    · exact Nat.not_lt.mpr beyond (same ▸ within.origin_lt e' older)
    · exact none e' older (same.trans back)
  · intro id after above below different
    have below : id < s.next := below
    have apart : id ≠ s.stop := fun same => different (List.mem_singleton.mpr same)
    rw [quiet id below apart]
    exact .spent (inside id after above (Nat.lt_of_lt_of_le below next_ge) (ends_apart id below apart))
  · rw [quiet fork within.fork_lt_next off.symm]
    exact .spent here

theorem Strand.Settled.onward (settled : s.Settled fork first nullable matcher) (within : s.Within fork first)
    (beyond : later.alone.Ordered s.stop s.next nullable' matcher') (within' : later.Within s.stop s.next)
    (off : later.stop ≠ s.stop) :
    (s.onward later).alone.Ordered fork first (nullable && nullable') (fun onward => matcher (matcher' onward)) := by
  have next_le : s.next ≤ later.stop := (within'.stop.resolve_left fun held => off held.1).1
  rcases settled with ⟨held, none, rfl, rfl⟩ | ⟨off_first, laid⟩
  · intro exit onward rest other exits here
    have wider : Exits s.stop s.next nullable' later.alone exit onward rest := by
      refine ⟨?_, ?_⟩
      · intro stop member different
        exact exits.stops stop member (held ▸ different)
      · intro id after above below
        exact exits.inside id after (Nat.le_trans within.next_ge above) below
    have tries := beyond exit onward rest other wider (held ▸ here)
    rw [held] at tries
    simpa [Strand.alone, Strand.onward, none] using tries
  · refine laid.onward within off_first (beyond.runs off) ?_ (.inr next_le) within'.next_ge
    intro e member
    obtain ⟨origin, after, _⟩ := within'.edges e member
    exact ⟨origin.imp_right And.left, .inl after⟩

theorem Strand.bridge_ordered {stop next : StateId} (stop_lt : stop < next) (captures : List Nat) (text : Text) :
    (Strand.bridge captures text stop next).alone.Ordered stop next text.isEmpty (Item.takeAll captures text) := by
  intro exit onward rest other exits here
  have only : Edge.leaving (Strand.bridge captures text stop next).edges stop = [⟨stop, next, text, captures⟩] := by
    simp [Edge.leaving, Strand.bridge]
  have last : Edge.leaving (Strand.bridge captures text stop next).edges next = [] := by
    simp [Edge.leaving, Strand.bridge, Nat.ne_of_lt stop_lt]
  show Tries _ exit stop (Edge.leaving (Strand.bridge captures text stop next).edges stop) _ _
  rw [only]
  refine Tries.along (e := ⟨stop, next, text, captures⟩) onward ?_ (.spent here)
  intro after whole
  subst whole
  show Tries _ exit next (Edge.leaving (Strand.bridge captures text stop next).edges next) _ _
  rw [last]
  exact .spent (exits.stops next List.mem_cons_self (Nat.ne_of_gt stop_lt) after (Remains.append text after))

namespace Strand.Ordered

theorem of_alone (ordered : s.alone.Ordered fork first nullable matcher) (off : s.stop ≠ fork) (flushed : s.pending = []) :
    s.Ordered captures fork first nullable matcher := by
  refine ⟨nullable, matcher, .inr ⟨off, ordered⟩, ?_, ?_⟩
  · rw [flushed, List.isEmpty_nil, Bool.and_true]
  · rw [flushed]
    rfl

theorem settled (ordered : s.Ordered captures fork first nullable matcher) (flushed : s.pending = []) :
    s.Settled fork first nullable matcher := by
  obtain ⟨nullable', core, settled, rfl, rfl⟩ := ordered
  rw [flushed, List.isEmpty_nil, Bool.and_true]
  exact settled

theorem laid (ordered : s.Ordered captures fork first nullable matcher) (off : s.stop ≠ fork) (flushed : s.pending = []) :
    s.alone.Ordered fork first nullable matcher :=
  ((ordered.settled flushed).resolve_left fun held => off held.1).2

theorem start (fork next : StateId) : (Strand.start fork next).Ordered captures fork first true id :=
  ⟨true, id, .inl ⟨rfl, rfl, rfl, rfl⟩, rfl, rfl⟩

theorem pend (ordered : s.Ordered captures fork first nullable matcher) (c : Char) :
    ({ s with pending := s.pending ++ [c] } : Strand).Ordered captures fork first (nullable && false)
      (fun onward => matcher (Item.take captures c onward)) := by
  obtain ⟨nullable', core, settled, rfl, rfl⟩ := ordered
  refine ⟨nullable', core, settled, ?_, funext fun onward => congrArg core (Item.takeAll_snoc c)⟩
  simp

theorem extend (ordered : s.Ordered captures fork first nullable matcher) (within : s.Within fork first) :
    (s.extend captures s.pending).alone.Ordered fork first nullable matcher := by
  obtain ⟨nullable', core, settled, rfl, rfl⟩ := ordered
  exact settled.onward within (Strand.bridge_ordered within.stop_lt captures s.pending)
    (Strand.bridge_within within.stop_lt captures s.pending) (Nat.ne_of_gt within.stop_lt)

theorem flush (ordered : s.Ordered captures fork first nullable matcher) (within : s.Within fork first) :
    (s.flush captures).Ordered captures fork first nullable matcher := by
  unfold Strand.flush
  split
  · exact ordered
  · exact .of_alone (ordered.extend within) (Nat.ne_of_gt within.fork_lt_next) rfl

theorem entry (ordered : s.Ordered captures fork first nullable matcher) (within : s.Within fork first)
    (flushed : s.pending = []) : (s.entry captures fork).Ordered captures fork first nullable matcher := by
  unfold Strand.entry
  split
  · have extended := ordered.extend within
    rw [flushed] at extended
    exact .of_alone extended (Nat.ne_of_gt within.fork_lt_next) rfl
  · exact ordered

theorem approach (ordered : s.Ordered captures fork first nullable matcher) (within : s.Within fork first)
    (starred : Bool) : (s.approach captures fork starred).Ordered captures fork first nullable matcher := by
  cases starred with
  | false => exact ordered.flush within
  | true => exact (ordered.flush within).entry within.flush (s.flush_pending captures)

theorem onward (ordered : s.Ordered captures fork first nullable matcher) (within : s.Within fork first)
    (flushed : s.pending = []) (beyond : later.alone.Ordered s.stop s.next nullable' matcher')
    (within' : later.Within s.stop s.next) (off : later.stop ≠ s.stop) (settled : later.pending = []) :
    (s.onward later).Ordered captures fork first (nullable && nullable') (fun onward => matcher (matcher' onward)) := by
  have next_le : s.next ≤ later.stop := (within'.stop.resolve_left fun held => off held.1).1
  have off_fork : later.stop ≠ fork := Nat.ne_of_gt (Nat.lt_of_lt_of_le within.fork_lt_next next_le)
  exact .of_alone ((ordered.settled flushed).onward within beyond within' off) off_fork settled

theorem approach_ring {after flag : Bool} {round : Onward → Onward}
    (ordered : s.Ordered captures fork first nullable matcher) (within : s.Within fork first)
    (loose : s.Loose fork after flag) (unflagged : flag = false)
    (ring : later.Ring (s.approach captures fork true).stop (s.approach captures fork true).next)
    (runs : later.Runs (s.approach captures fork true).stop (s.approach captures fork true).next true
      (Item.repeating true round)) (settled : later.pending = []) :
    ((s.approach captures fork true).onward later).Ordered captures fork first (nullable && true)
      (fun onward => matcher (Item.repeating true round onward)) := by
  have approached : (s.approach captures fork true).Within fork first := within.approach true
  have pending := s.approach_pending captures fork true
  have off : (s.approach captures fork true).stop ≠ fork :=
    Nat.ne_of_gt (Nat.lt_of_lt_of_le within.fork_lt within.approach_off)
  have quiet := (loose.approach within true).quiet unflagged pending
  have ends : later.stop = (s.approach captures fork true).stop := ring.stop
  refine .of_alone ?_ (ends ▸ off) settled
  refine ((ordered.approach within true).laid off pending).onward approached off runs ?_ (.inl ends) ring.next_ge
  intro e member
  obtain ⟨origin, destination⟩ := ring.edges e member
  refine ⟨origin.imp_right And.left, ?_⟩
  rcases destination with back | ⟨after, _⟩
  · exact .inr ⟨back, quiet⟩
  · exact .inl after

end Strand.Ordered

theorem Strand.loop_runs (captures : List Nat) (c : Char) (stop next : StateId) :
    (Strand.loop captures c stop next).Runs stop next true (Item.repeating true (Item.take captures c)) := by
  intro exit onward rest stops _
  have only : Edge.leaving (Strand.loop captures c stop next).edges stop = [⟨stop, stop, [c], captures⟩] := by
    simp [Edge.leaving, Strand.loop]
  induction bound : rest.length using Nat.strongRecOn generalizing rest with
  | ind n ih =>
    rw [(Steady.take captures c).repeating_again, only]
    refine Tries.along (e := ⟨stop, stop, [c], captures⟩) (Item.repeating true (Item.take captures c) onward) ?_
      (.spent (stops rest (.refl _)))
    intro after whole
    subst whole
    have remains : Remains false ([c] ++ after) after := Remains.append [c] after
    have shorter : after.length < n := bound ▸ remains.2 rfl
    exact ih after.length shorter after (fun later remains' => stops later ((remains.trans remains').mono fun _ => rfl)) rfl

namespace Sheaf.Ordered

variable {beyond : Sheaf}

theorem empty (fork next : StateId) : (Sheaf.empty next).Ordered fork next nullable fun _ _ => none :=
  fun _ _ _ _ _ here => .spent here

theorem cons_held (fork_lt : fork < first) (ordered : beyond.Ordered fork first nullable matcher) :
    (Sheaf.cons (.start fork first) beyond).Ordered fork first nullable matcher := by
  intro exit onward rest other exits here
  refine ordered exit onward rest other ⟨?_, ?_⟩ here
  · intro stop member
    exact exits.stops stop (List.mem_cons_of_mem _ member)
  · intro id after above below different
    apply exits.inside id after above below
    intro member
    rcases List.mem_cons.mp member with rfl | member
    · exact Nat.not_lt.mpr above fork_lt
    · exact different member

theorem cons (ordered : s.alone.Ordered fork first nullable matcher) (within : s.Within fork first) (off : s.stop ≠ fork)
    (later : beyond.Ordered fork s.next nullable' matcher') (within' : beyond.Within fork s.next) :
    (Sheaf.cons s beyond).Ordered fork first (nullable || nullable')
      (fun onward rest => matcher onward rest <|> matcher' onward rest) := by
  have quiet : ∀ id, id < s.next → id ≠ fork → Edge.leaving beyond.edges id = [] :=
    fun _ below different =>
      Edge.leaving_newer (fun e member => (within'.edges e member).1.imp_right And.left) below different
  intro exit onward rest other exits here
  have others : Tries (s.edges ++ beyond.edges) exit fork (Edge.leaving beyond.edges fork) rest
      (matcher' onward rest <|> other) := by
    refine (later exit onward rest other ⟨?_, ?_⟩ here).behind ?_ List.filter_sublist.subset
    · intro stop member different after remains
      exact exits.stops stop (List.mem_cons_of_mem _ member) different after (remains.mono (by simp_all))
    · intro id after above below different
      apply exits.inside id after (Nat.le_trans within.next_ge above) below
      intro member
      rcases List.mem_cons.mp member with rfl | member
      · exact Nat.not_lt.mpr above within.stop_lt
      · exact different member
    · intro e member e' older same
      exact Nat.not_lt.mpr (within'.edges e member).2.1 (same ▸ within.origin_lt e' older)
  have tries := ordered.before beyond.edges onward ⟨?_, ?_⟩ others
  · simpa [Option.or_assoc, Sheaf.cons, Strand.alone] using tries
  · intro stop member different after remains
    cases List.mem_singleton.mp member
    rw [quiet s.stop within.stop_lt off]
    exact .spent (exits.stops s.stop List.mem_cons_self off after (remains.mono (by simp_all)))
  · intro id after above below different
    have below : id < s.next := below
    have off_fork : id ≠ fork := Nat.ne_of_gt (Nat.lt_of_lt_of_le within.fork_lt above)
    rw [quiet id below off_fork]
    refine .spent (exits.inside id after above (Nat.lt_of_lt_of_le below within'.next_ge) fun member => ?_)
    rcases List.mem_cons.mp member with same | member
    · exact different (List.mem_singleton.mpr same)
    · rcases within'.stops id member with same | ⟨beyond_next, _⟩
      · exact off_fork same
      · exact Nat.not_lt.mpr beyond_next below

theorem joins_quiet {stops : List StateId} {id : StateId} (different : id ∉ stops) (next : StateId) (captures : List Nat) :
    Edge.leaving (stops.map (Edge.joining next captures)) id = [] := by
  apply Edge.leaving_eq_nil.mpr
  intro e member same
  obtain ⟨stop, listed, rfl⟩ := List.mem_map.mp member
  exact different (same ▸ listed)

theorem joins_hop (within : sheaf.Within fork first) (captures : List Nat) {exit : StateId → Text → Option Consumed → Prop}
    {stop : StateId} {rest : Text} {result other : Option Consumed} (listed : stop ∈ sheaf.stops)
    (into : exit sheaf.next rest result) (last : exit stop rest other) :
    Tries (sheaf.edges ++ sheaf.stops.map (Edge.joining sheaf.next captures)) exit stop
      (Edge.leaving (sheaf.stops.map (Edge.joining sheaf.next captures)) stop) rest (result <|> other) := by
  refine Tries.hops sheaf.next ?_ ?_ ?_ last
  · intro e member
    obtain ⟨id, _, rfl⟩ := List.mem_map.mp (List.mem_filter.mp member).1
    exact ⟨rfl, rfl⟩
  · refine List.ne_nil_of_mem (a := Edge.joining sheaf.next captures stop) (List.mem_filter.mpr ⟨?_, ?_⟩)
    · exact List.mem_map.mpr ⟨stop, listed, rfl⟩
    · exact beq_self_eq_true stop
  · rw [Edge.leaving_eq_nil.mpr within.joined_fresh]
    exact .spent into

-- The edges that join the ends of a group come last at each of them, and so at the fork where a branch
-- has no items.
theorem gathered (ordered : sheaf.Ordered fork first nullable matcher) (within : sheaf.Within fork first) {skips : Bool}
    (held : fork ∈ sheaf.stops ↔ skips = true) (empty : skips = true → nullable = true) (captures : List Nat) :
    (Strand.alone ⟨sheaf.edges ++ sheaf.stops.map (Edge.joining sheaf.next captures), sheaf.next, sheaf.next + 1, []⟩).Ordered
      fork first nullable (Item.orNothing skips matcher) := by
  intro exit onward rest other exits here
  have into : ∀ after, Remains nullable rest after → exit sheaf.next after (onward after) :=
    exits.stops sheaf.next List.mem_cons_self (Nat.ne_of_gt within.fork_lt_next)
  have inside : ∀ id after, first ≤ id → id < sheaf.next → exit id after none := by
    intro id after above below
    apply exits.inside id after above (Nat.lt_succ_of_lt below)
    exact fun member => Nat.ne_of_lt below (List.mem_singleton.mp member)
  have last : Tries (sheaf.edges ++ sheaf.stops.map (Edge.joining sheaf.next captures)) exit fork
      (Edge.leaving (sheaf.stops.map (Edge.joining sheaf.next captures)) fork) rest
      ((if skips then onward rest else none) <|> other) := by
    cases skips with
    | false =>
      rw [joins_quiet fun member => (nomatch held.mp member)]
      exact .spent here
    | true =>
      have remains : Remains nullable rest rest := empty rfl ▸ .refl rest
      exact joins_hop within captures (held.mpr rfl) (into rest remains) here
  have tries := ordered.before _ onward ⟨?_, ?_⟩ last
  · simpa [Option.or_assoc, Strand.alone, Item.orNothing] using tries
  · intro stop listed different after remains
    obtain ⟨above, below⟩ := (within.stops stop listed).resolve_left different
    have tries := joins_hop within captures listed (into after remains) (inside stop after above below)
    simpa using tries
  · intro id after above below different
    rw [joins_quiet different]
    exact .spent (inside id after above below)

theorem joined (ordered : sheaf.Ordered fork first nullable matcher) (within : sheaf.Within fork first) {skips : Bool}
    (held : fork ∈ sheaf.stops ↔ skips = true) (empty : skips = true → nullable = true)
    (single : sheaf.stops ≠ [fork]) (captures : List Nat) :
    (sheaf.joined captures).alone.Ordered fork first nullable (Item.orNothing skips matcher) := by
  unfold Sheaf.joined
  split
  · rename_i only alone
    have off : skips ≠ true := by
      intro skipping
      have member := held.mpr skipping
      rw [alone] at member single
      cases List.mem_singleton.mp member
      exact single rfl
    obtain ⟨edges, stops, next⟩ := sheaf
    cases alone
    intro exit onward rest other exits here
    have tries := ordered exit onward rest other exits here
    simpa [Item.orNothing, off, Strand.alone] using tries
  · exact ordered.gathered within held empty captures

end Sheaf.Ordered

end Stages

end PatternMachine
