import PatternMachine.Proofs.Construction.Loop
import PatternMachine.Proofs.Pattern.Tree

namespace PatternMachine

structure Strand where
  edges : List Edge
  stop : StateId
  next : StateId
  pending : Text

structure Sheaf where
  edges : List Edge
  stops : List StateId
  next : StateId

namespace Strand

def start (fork next : StateId) : Strand := ⟨[], fork, next, []⟩

def extend (captures : List Nat) (s : Strand) (text : Text) : Strand :=
  ⟨s.edges ++ [⟨s.stop, s.next, text, captures⟩], s.next, s.next + 1, []⟩

def flush (captures : List Nat) (s : Strand) : Strand := if s.pending = [] then s else s.extend captures s.pending

def entry (captures : List Nat) (fork : StateId) (s : Strand) : Strand :=
  if s.stop = fork then s.extend captures [] else s

def approach (captures : List Nat) (fork : StateId) (starred : Bool) (s : Strand) : Strand :=
  if starred then (s.flush captures).entry captures fork else s.flush captures

def spin (captures : List Nat) (s : Strand) (c : Char) : Strand :=
  { s with edges := s.edges ++ [⟨s.stop, s.stop, [c], captures⟩] }

end Strand

namespace Sheaf

def empty (next : StateId) : Sheaf := ⟨[], [], next⟩

def cons (s : Strand) (later : Sheaf) : Sheaf := ⟨s.edges ++ later.edges, s.stop :: later.stops, later.next⟩

-- A plain group goes on from its only end, or from a state that all its ends lead into.
def joined (captures : List Nat) (sheaf : Sheaf) : Strand :=
  match sheaf.stops with
  | [only] => ⟨sheaf.edges, only, sheaf.next, []⟩
  | stops => ⟨sheaf.edges ++ stops.map (Edge.joining sheaf.next captures), sheaf.next, sheaf.next + 1, []⟩

-- A starred group goes on from its fork, which all its ends lead back to.
def looped (captures : List Nat) (fork : StateId) (sheaf : Sheaf) : Strand :=
  let (edges, next) := loopBack captures fork sheaf.stops.eraseReps sheaf.edges sheaf.next
  ⟨edges, fork, next, []⟩

def close (captures : List Nat) (fork : StateId) (starred : Bool) (sheaf : Sheaf) : Strand :=
  if starred then sheaf.looped captures fork else sheaf.joined captures

end Sheaf

theorem Sheaf.joined_pending (captures : List Nat) (sheaf : Sheaf) : (sheaf.joined captures).pending = [] := by
  unfold Sheaf.joined
  split <;> rfl

theorem Sheaf.joined_single {s : Strand} (flushed : s.pending = []) (captures : List Nat) :
    (Sheaf.cons s (.empty s.next)).joined captures = s := by
  obtain ⟨edges, stop, next, pending⟩ := s
  cases flushed
  simp [Sheaf.cons, Sheaf.empty, Sheaf.joined]

theorem Sheaf.joined_several {sheaf : Sheaf} (several : ∀ only, sheaf.stops ≠ [only]) (captures : List Nat) :
    sheaf.joined captures =
      ⟨sheaf.edges ++ sheaf.stops.map (Edge.joining sheaf.next captures), sheaf.next, sheaf.next + 1, []⟩ := by
  unfold Sheaf.joined
  split
  · rename_i only single
    exact (several only single).elim
  · rfl

theorem Strand.flush_pending (captures : List Nat) (s : Strand) : (s.flush captures).pending = [] := by
  unfold Strand.flush
  split
  · assumption
  · rfl

theorem Strand.entry_pending (captures : List Nat) (fork : StateId) {s : Strand} (flushed : s.pending = []) :
    (s.entry captures fork).pending = [] := by
  unfold Strand.entry
  split
  · rfl
  · exact flushed

theorem Strand.approach_pending (captures : List Nat) (fork : StateId) (starred : Bool) (s : Strand) :
    (s.approach captures fork starred).pending = [] := by
  cases starred with
  | false => exact s.flush_pending captures
  | true => exact Strand.entry_pending captures fork (s.flush_pending captures)

def Strand.onward (s later : Strand) : Strand := { later with edges := s.edges ++ later.edges }

def Strand.bridge (captures : List Nat) (text : Text) (stop next : StateId) : Strand :=
  ⟨[⟨stop, next, text, captures⟩], next, next + 1, []⟩

def Strand.loop (captures : List Nat) (c : Char) (stop next : StateId) : Strand :=
  ⟨[⟨stop, stop, [c], captures⟩], stop, next, []⟩

theorem Strand.spin_eq {s : Strand} (flushed : s.pending = []) (captures : List Nat) (c : Char) :
    s.spin captures c = s.onward (.loop captures c s.stop s.next) := by
  simp [Strand.spin, Strand.onward, Strand.loop, flushed]

namespace Item

mutual
def lay (captures : List Nat) (fork : StateId) (s : Strand) : Item → Strand
  | .char c false => { s with pending := s.pending ++ [c] }
  | .char c true => (s.approach captures fork true).spin captures c
  | .group capture body starred =>
    let s := s.approach captures fork starred
    s.onward ((layAny (captures ++ capture.toList) s.stop s.next body).close (captures ++ capture.toList) s.stop starred)
def layAll (captures : List Nat) (fork : StateId) (s : Strand) : List Item → Strand
  | [] => s
  | item :: items => layAll captures fork (item.lay captures fork s) items
def layAny (captures : List Nat) (fork next : StateId) : List (List Item) → Sheaf
  | [] => .empty next
  | branch :: body =>
    let s := (layAll captures fork (.start fork next) branch).flush captures
    .cons s (layAny captures fork s.next body)
end

end Item

-- Where the edges of a strand may lie: they leave the fork or a state laid since `first`, and enter
-- only such states. Nothing has been laid while the strand still ends at the fork.
structure Strand.Within (fork first : StateId) (s : Strand) : Prop where
  fork_lt : fork < first
  next_ge : first ≤ s.next
  stop : s.stop = fork ∧ s.edges = [] ∨ first ≤ s.stop ∧ s.stop < s.next
  edges : ∀ e ∈ s.edges, (e.origin = fork ∨ first ≤ e.origin ∧ e.origin < s.next) ∧
    first ≤ e.destination ∧ e.destination < s.next

structure Strand.Ring (fork first : StateId) (s : Strand) : Prop where
  fork_lt : fork < first
  next_ge : first ≤ s.next
  stop : s.stop = fork
  edges : ∀ e ∈ s.edges, (e.origin = fork ∨ first ≤ e.origin ∧ e.origin < s.next) ∧
    (e.destination = fork ∨ first ≤ e.destination ∧ e.destination < s.next)

structure Sheaf.Within (fork first : StateId) (sheaf : Sheaf) : Prop where
  fork_lt : fork < first
  next_ge : first ≤ sheaf.next
  stops : ∀ id ∈ sheaf.stops, id = fork ∨ first ≤ id ∧ id < sheaf.next
  distinct : sheaf.stops.Pairwise fun id other => id = other → id = fork
  held : (∀ id ∈ sheaf.stops, id = fork) → sheaf.edges = []
  edges : ∀ e ∈ sheaf.edges, (e.origin = fork ∨ first ≤ e.origin ∧ e.origin < sheaf.next) ∧
    first ≤ e.destination ∧ e.destination < sheaf.next

namespace Strand.Within

variable {fork first : StateId} {s : Strand} {captures : List Nat}

theorem start (fork_lt : fork < first) : (Strand.start fork first).Within fork first :=
  ⟨fork_lt, Nat.le_refl _, .inl ⟨rfl, rfl⟩, by simp [Strand.start]⟩

theorem fork_lt_next (within : s.Within fork first) : fork < s.next :=
  Nat.lt_of_lt_of_le within.fork_lt within.next_ge

theorem stop_lt (within : s.Within fork first) : s.stop < s.next := by
  rcases within.stop with ⟨at_fork, _⟩ | ⟨_, below⟩
  · rw [at_fork]
    exact within.fork_lt_next
  · exact below

theorem origin_lt (within : s.Within fork first) : ∀ e ∈ s.edges, e.origin < s.next := by
  intro e member
  rcases (within.edges e member).1 with at_fork | ⟨_, below⟩
  · rw [at_fork]
    exact within.fork_lt_next
  · exact below

theorem origin (within : s.Within fork first) :
    s.stop = fork ∨ first ≤ s.stop ∧ s.stop < s.next := within.stop.imp And.left id

theorem extend (within : s.Within fork first) (text : Text) : (s.extend captures text).Within fork first := by
  have next_ge := within.next_ge
  refine ⟨within.fork_lt, Nat.le_succ_of_le next_ge, .inr ⟨next_ge, Nat.lt_succ_self _⟩, ?_⟩
  intro e member
  rcases List.mem_append.mp member with old | new
  · obtain ⟨origin, after, before⟩ := within.edges e old
    refine ⟨?_, after, Nat.lt_succ_of_lt before⟩
    exact origin.imp (fun same => same) fun bounds => ⟨bounds.1, Nat.lt_succ_of_lt bounds.2⟩
  · cases List.mem_singleton.mp new
    refine ⟨?_, next_ge, Nat.lt_succ_self _⟩
    exact within.origin.imp (fun same => same) fun bounds => ⟨bounds.1, Nat.lt_succ_of_lt bounds.2⟩

theorem extend_fresh (within : s.Within fork first) (text : Text) :
    ∀ e ∈ (s.extend captures text).edges, e.origin ≠ s.next := by
  intro e member
  rcases List.mem_append.mp member with old | new
  · exact Nat.ne_of_lt (within.origin_lt e old)
  · cases List.mem_singleton.mp new
    exact Nat.ne_of_lt within.stop_lt

theorem flush (within : s.Within fork first) : (s.flush captures).Within fork first := by
  unfold Strand.flush
  split
  · exact within
  · exact within.extend _

theorem entry (within : s.Within fork first) : (s.entry captures fork).Within fork first := by
  unfold Strand.entry
  split
  · exact within.extend _
  · exact within

theorem entry_off (within : s.Within fork first) : first ≤ (s.entry captures fork).stop := by
  unfold Strand.entry
  split
  · exact within.next_ge
  · rename_i off
    exact (within.stop.resolve_left fun held => off held.1).1

theorem approach (within : s.Within fork first) (starred : Bool) :
    (s.approach captures fork starred).Within fork first := by
  cases starred with
  | false => exact within.flush
  | true => exact within.flush.entry

theorem approach_off (within : s.Within fork first) : first ≤ (s.approach captures fork true).stop :=
  within.flush.entry_off

theorem pend (within : s.Within fork first) (text : Text) : ({ s with pending := text } : Strand).Within fork first :=
  ⟨within.fork_lt, within.next_ge, within.stop, within.edges⟩

theorem spin (within : s.Within fork first) (off : first ≤ s.stop) (c : Char) :
    (s.spin captures c).Within fork first := by
  have below := within.stop_lt
  refine ⟨within.fork_lt, within.next_ge, .inr ⟨off, below⟩, ?_⟩
  intro e member
  rcases List.mem_append.mp member with old | new
  · exact within.edges e old
  · cases List.mem_singleton.mp new
    exact ⟨.inr ⟨off, below⟩, off, below⟩

theorem onward {later : Strand} (within : s.Within fork first) (beyond : later.Within s.stop s.next) :
    (s.onward later).Within fork first := by
  have next_ge := within.next_ge
  have later_ge := beyond.next_ge
  have stop_lt := within.stop_lt
  refine ⟨within.fork_lt, Nat.le_trans next_ge later_ge, ?_, ?_⟩
  · rcases beyond.stop with ⟨stays, none⟩ | ⟨after, before⟩
    · rcases within.stop with ⟨at_fork, nothing⟩ | ⟨after, before⟩
      · exact .inl ⟨stays.trans at_fork, by simp [Strand.onward, nothing, none]⟩
      · refine .inr ⟨?_, Nat.lt_of_lt_of_le (stays ▸ before) later_ge⟩
        show first ≤ later.stop
        rw [stays]
        exact after
    · exact .inr ⟨Nat.le_trans next_ge after, before⟩
  · intro e member
    rcases List.mem_append.mp member with old | new
    · obtain ⟨origin, after, before⟩ := within.edges e old
      refine ⟨?_, after, Nat.lt_of_lt_of_le before later_ge⟩
      exact origin.imp (fun same => same) fun bounds => ⟨bounds.1, Nat.lt_of_lt_of_le bounds.2 later_ge⟩
    · obtain ⟨origin, after, before⟩ := beyond.edges e new
      refine ⟨?_, Nat.le_trans next_ge after, before⟩
      rcases origin with same | ⟨after, before⟩
      · rw [same]
        exact within.origin.imp (fun same => same) fun bounds => ⟨bounds.1, Nat.lt_of_lt_of_le bounds.2 later_ge⟩
      · exact .inr ⟨Nat.le_trans next_ge after, before⟩

theorem onward_ring {later : Strand} (within : s.Within fork first) (off : first ≤ s.stop)
    (beyond : later.Ring s.stop s.next) : (s.onward later).Within fork first := by
  have next_ge := within.next_ge
  have later_ge := beyond.next_ge
  have stop_lt := within.stop_lt
  have stays : later.stop = s.stop := beyond.stop
  refine ⟨within.fork_lt, Nat.le_trans next_ge later_ge, .inr ?_, ?_⟩
  · show first ≤ later.stop ∧ later.stop < later.next
    rw [stays]
    exact ⟨off, Nat.lt_of_lt_of_le stop_lt later_ge⟩
  · intro e member
    rcases List.mem_append.mp member with old | new
    · obtain ⟨origin, after, before⟩ := within.edges e old
      refine ⟨?_, after, Nat.lt_of_lt_of_le before later_ge⟩
      exact origin.imp (fun same => same) fun bounds => ⟨bounds.1, Nat.lt_of_lt_of_le bounds.2 later_ge⟩
    · have inside : ∀ id, id = s.stop ∨ s.next ≤ id ∧ id < later.next → first ≤ id ∧ id < later.next := by
        intro id place
        rcases place with rfl | ⟨after, before⟩
        · exact ⟨off, Nat.lt_of_lt_of_le stop_lt later_ge⟩
        · exact ⟨Nat.le_trans next_ge after, before⟩
      obtain ⟨origin, destination⟩ := beyond.edges e new
      exact ⟨.inr (inside _ origin), inside _ destination⟩

end Strand.Within

theorem Strand.bridge_within {stop next : StateId} (stop_lt : stop < next) (captures : List Nat) (text : Text) :
    (Strand.bridge captures text stop next).Within stop next := by
  refine ⟨stop_lt, Nat.le_succ _, .inr ⟨Nat.le_refl _, Nat.lt_succ_self _⟩, ?_⟩
  intro e member
  cases List.mem_singleton.mp member
  exact ⟨.inl rfl, Nat.le_refl _, Nat.lt_succ_self _⟩

theorem Strand.loop_ring {stop next : StateId} (stop_lt : stop < next) (captures : List Nat) (c : Char) :
    (Strand.loop captures c stop next).Ring stop next := by
  refine ⟨stop_lt, Nat.le_refl _, rfl, ?_⟩
  intro e member
  cases List.mem_singleton.mp member
  exact ⟨.inl rfl, .inl rfl⟩

namespace Sheaf.Within

variable {fork first next : StateId} {sheaf later : Sheaf} {s : Strand} {captures : List Nat}

theorem empty (fork_lt : fork < next) : (Sheaf.empty next).Within fork next :=
  ⟨fork_lt, Nat.le_refl _, by simp [Sheaf.empty], List.Pairwise.nil, fun _ => rfl, by simp [Sheaf.empty]⟩

theorem fork_lt_next (within : sheaf.Within fork first) : fork < sheaf.next :=
  Nat.lt_of_lt_of_le within.fork_lt within.next_ge

theorem origin_lt (within : sheaf.Within fork first) : ∀ e ∈ sheaf.edges, e.origin < sheaf.next := by
  intro e member
  rcases (within.edges e member).1 with at_fork | ⟨_, below⟩
  · rw [at_fork]
    exact within.fork_lt_next
  · exact below

theorem stop_lt (within : sheaf.Within fork first) : ∀ stop ∈ sheaf.stops, stop < sheaf.next := by
  intro stop member
  rcases within.stops stop member with at_fork | ⟨_, below⟩
  · rw [at_fork]
    exact within.fork_lt_next
  · exact below

theorem cons (within : s.Within fork first) (beyond : later.Within fork s.next) :
    (Sheaf.cons s later).Within fork first := by
  have fork_lt := within.fork_lt
  have next_ge := within.next_ge
  have later_ge := beyond.next_ge
  refine ⟨fork_lt, Nat.le_trans next_ge later_ge, ?_, ?_, ?_, ?_⟩
  · intro id member
    rcases List.mem_cons.mp member with rfl | member
    · exact within.origin.imp (fun same => same) fun bounds => ⟨bounds.1, Nat.lt_of_lt_of_le bounds.2 later_ge⟩
    · exact (beyond.stops id member).imp (fun same => same) fun bounds => ⟨Nat.le_trans next_ge bounds.1, bounds.2⟩
  · refine List.Pairwise.cons ?_ beyond.distinct
    intro id member same
    rcases within.origin with at_fork | ⟨after, before⟩
    · exact at_fork
    · rcases beyond.stops id member with at_fork | ⟨after', _⟩
      · exact same.trans at_fork
      · rw [← same] at after'
        exact (Nat.not_lt.mpr after' before).elim
  · intro all
    have nothing := (within.stop.resolve_right fun bounds =>
      Nat.not_lt.mpr bounds.1 (all s.stop List.mem_cons_self ▸ fork_lt)).2
    have none := beyond.held fun id member => all id (List.mem_cons_of_mem _ member)
    simp [Sheaf.cons, nothing, none]
  · intro e member
    rcases List.mem_append.mp member with old | new
    · obtain ⟨origin, after, before⟩ := within.edges e old
      refine ⟨?_, after, Nat.lt_of_lt_of_le before later_ge⟩
      exact origin.imp (fun same => same) fun bounds => ⟨bounds.1, Nat.lt_of_lt_of_le bounds.2 later_ge⟩
    · obtain ⟨origin, after, before⟩ := beyond.edges e new
      refine ⟨?_, Nat.le_trans next_ge after, before⟩
      exact origin.imp (fun same => same) fun bounds => ⟨Nat.le_trans next_ge bounds.1, bounds.2⟩

theorem joined_fresh (within : sheaf.Within fork first) :
    ∀ e ∈ sheaf.edges ++ sheaf.stops.map (Edge.joining sheaf.next captures), e.origin ≠ sheaf.next := by
  intro e member
  rcases List.mem_append.mp member with old | new
  · exact Nat.ne_of_lt (within.origin_lt e old)
  · obtain ⟨stop, listed, rfl⟩ := List.mem_map.mp new
    exact Nat.ne_of_lt (within.stop_lt stop listed)

theorem joined (within : sheaf.Within fork first) : (sheaf.joined captures).Within fork first := by
  have next_ge := within.next_ge
  unfold Sheaf.joined
  split
  · rename_i only alone
    refine ⟨within.fork_lt, next_ge, ?_, within.edges⟩
    rcases within.stops only (by simp [alone]) with rfl | bounds
    · exact .inl ⟨rfl, within.held (by simp [alone])⟩
    · exact .inr bounds
  · refine ⟨within.fork_lt, Nat.le_succ_of_le next_ge, .inr ⟨next_ge, Nat.lt_succ_self _⟩, ?_⟩
    intro e member
    rcases List.mem_append.mp member with old | new
    · obtain ⟨origin, after, before⟩ := within.edges e old
      refine ⟨?_, after, Nat.lt_succ_of_lt before⟩
      exact origin.imp (fun same => same) fun bounds => ⟨bounds.1, Nat.lt_succ_of_lt bounds.2⟩
    · obtain ⟨id, listed, rfl⟩ := List.mem_map.mp new
      refine ⟨?_, next_ge, Nat.lt_succ_self _⟩
      exact (within.stops id listed).imp (fun same => same) fun bounds => ⟨bounds.1, Nat.lt_succ_of_lt bounds.2⟩

theorem merges (within : sheaf.Within fork first) (captures : List Nat) :
    ∃ merge, Merges fork first sheaf.next sheaf.stops.eraseReps sheaf.edges (sheaf.looped captures fork).next merge ∧
      (sheaf.looped captures fork).edges =
        (sheaf.edges ++ (Edge.linked fork sheaf.edges sheaf.stops.eraseReps).map (Edge.joining fork captures)).map
          (Edge.moved merge) := by
  obtain ⟨sublist, _⟩ := eraseReps_spec sheaf.stops
  exact loopBack_merges within.fork_lt within.next_ge (fun id member => within.stops id (sublist.subset member))
    (within.distinct.sublist sublist)

theorem looped (within : sheaf.Within fork first) : (sheaf.looped captures fork).Ring fork first := by
  obtain ⟨merge, merges, laid⟩ := within.merges captures
  have place : ∀ id, id = fork ∨ first ≤ id ∧ id < sheaf.next →
      merge id = fork ∨ first ≤ merge id ∧ merge id < (sheaf.looped captures fork).next := by
    intro id bounds
    rcases bounds with rfl | ⟨after, before⟩
    · exact .inl (merges.fixed id within.fork_lt)
    · exact merges.range id after before
  refine ⟨within.fork_lt, merges.next_ge, rfl, ?_⟩
  intro e member
  rw [laid] at member
  obtain ⟨old, present, rfl⟩ := List.mem_map.mp member
  rcases List.mem_append.mp present with here | back
  · obtain ⟨origin, destination⟩ := within.edges old here
    exact ⟨place _ origin, place _ (.inr destination)⟩
  · obtain ⟨id, listed, rfl⟩ := List.mem_map.mp back
    have stop := (eraseReps_spec sheaf.stops).1.subset (List.mem_of_mem_filter listed)
    exact ⟨place id (within.stops id stop), place fork (.inl rfl)⟩

end Sheaf.Within

mutual
theorem Item.lay_within {captures : List Nat} {fork first : StateId} {s : Strand} (within : s.Within fork first) :
    (item : Item) → (item.lay captures fork s).Within fork first
  | .char _ false => within.pend _
  | .char c true => (within.approach true).spin within.approach_off c
  | .group _ body false => (within.approach false).onward (Item.layAny_within (within.approach false).stop_lt body).joined
  | .group _ body true =>
    (within.approach true).onward_ring within.approach_off (Item.layAny_within (within.approach true).stop_lt body).looped
theorem Item.layAll_within {captures : List Nat} {fork first : StateId} {s : Strand} (within : s.Within fork first) :
    (items : List Item) → (Item.layAll captures fork s items).Within fork first
  | [] => within
  | item :: items => Item.layAll_within (Item.lay_within within item) items
theorem Item.layAny_within {captures : List Nat} {fork next : StateId} (fork_lt : fork < next) :
    (body : List (List Item)) → (Item.layAny captures fork next body).Within fork next
  | [] => .empty fork_lt
  | branch :: body =>
    have within : ((Item.layAll captures fork (.start fork next) branch).flush captures).Within fork next :=
      (Item.layAll_within (.start fork_lt) branch).flush
    .cons within (Item.layAny_within within.fork_lt_next body)
end

theorem Item.layAny_stops (captures : List Nat) (fork next : StateId) (body : List (List Item)) :
    (Item.layAny captures fork next body).stops.length = body.length := by
  induction body generalizing next with
  | nil => rfl
  | cons branch body ih => simp [Item.layAny, Sheaf.cons, ih]

end PatternMachine
