import PatternMachine.Proofs.Construction.Tags

namespace PatternMachine

def Free (index : Nat) (edges : List Edge) : Prop := ∀ e ∈ edges, index ∉ e.groups

def Silent (edges : List Edge) : Prop := ∀ e ∈ edges, e.text = []

-- Once the capture has read something, it may read on in the states `held`, and never again in those `past` it.
structure Passed (index : Nat) (first next : StateId) (edges : List Edge) (held past : StateId → Prop) : Prop where
  inside : ∀ id, held id ∨ past id → first ≤ id ∧ id < next
  enters : ∀ e ∈ edges, index ∈ e.groups → e.text ≠ [] → held e.destination
  leaves : ∀ e ∈ edges, held e.origin → held e.destination ∧ (index ∈ e.groups ∨ e.text = []) ∨ past e.destination
  closed : ∀ e ∈ edges, past e.origin → past e.destination ∧ (index ∈ e.groups → e.text = [])

def Strand.Once (index : Nat) (first : StateId) (ending : Option Bool) (s : Strand) : Prop :=
  Free index s.edges ∨ ∃ held past, Passed index first s.next s.edges held past ∧
    (ending ≠ some true → s.pending = [] → past s.stop)

def Sheaf.Once (index : Nat) (first : StateId) (sheaf : Sheaf) : Prop :=
  Free index sheaf.edges ∨ ∃ held past, Passed index first sheaf.next sheaf.edges held past

section

variable {index : Nat} {captures names : List Nat} {edges others whole : List Edge}

theorem Tagged.free (tagged : Tagged captures names edges) (outside : index ∉ captures) (other : index ∉ names) :
    Free index edges := by
  intro e member named
  rcases List.mem_append.mp ((tagged e member).2.subset named) with around | own
  · exact outside around
  · exact other own

theorem Tagged.named (tagged : Tagged captures names edges) (inside : index ∈ captures) :
    ∀ e ∈ edges, index ∈ e.groups := fun e member => (tagged e member).1.subset inside

theorem Free.append (front : Free index edges) (back : Free index others) : Free index (edges ++ others) := by
  intro e member
  rcases List.mem_append.mp member with old | new
  · exact front e old
  · exact back e new

theorem Silent.append (front : Silent edges) (back : Silent others) : Silent (edges ++ others) := by
  intro e member
  rcases List.mem_append.mp member with old | new
  · exact front e old
  · exact back e new

theorem Passed.add {first next first' next' : StateId} {held past : StateId → Prop}
    (passed : Passed index first next edges held past) (more gone : StateId → Prop) (split : ∀ e ∈ whole, e ∈ edges ∨ e ∈ others)
    (free : Free index others) (first_le : first' ≤ first) (next_le : next ≤ next')
    (range : ∀ id, more id ∨ gone id → first' ≤ id ∧ id < next') (fresh : ∀ e ∈ edges, ¬ (more e.origin ∨ gone e.origin))
    (leaves : ∀ e ∈ others, held e.origin ∨ more e.origin →
      (held e.destination ∨ more e.destination) ∧ e.text = [] ∨ past e.destination ∨ gone e.destination)
    (closed : ∀ e ∈ others, past e.origin ∨ gone e.origin → past e.destination ∨ gone e.destination) :
    Passed index first' next' whole (fun id => held id ∨ more id) fun id => past id ∨ gone id := by
  refine ⟨?_, ?_, ?_, ?_⟩
  · intro id place
    rcases or_or_or_comm.mp place with old | new
    · obtain ⟨after, before⟩ := passed.inside id old
      exact ⟨Nat.le_trans first_le after, Nat.lt_of_lt_of_le before next_le⟩
    · exact range id new
  · intro e member named reads
    rcases split e member with old | new
    · exact .inl (passed.enters e old named reads)
    · exact (free e new named).elim
  · intro e member place
    rcases split e member with old | new
    · have here := place.resolve_right fun added => fresh e old (.inl added)
      exact (passed.leaves e old here).imp (And.imp_left .inl) .inl
    · exact (leaves e new place).imp_left (And.imp_right .inr)
  · intro e member place
    rcases split e member with old | new
    · exact (passed.closed e old (place.resolve_right fun added => fresh e old (.inr added))).imp_left .inl
    · exact ⟨closed e new place, fun named => (free e new named).elim⟩

theorem Passed.beside {first next first' next' : StateId} {held past : StateId → Prop}
    (passed : Passed index first next edges held past) (split : ∀ e ∈ whole, e ∈ edges ∨ e ∈ others)
    (free : Free index others) (first_le : first' ≤ first) (next_le : next ≤ next')
    (apart : ∀ e ∈ others, ¬ (first ≤ e.origin ∧ e.origin < next)) :
    Passed index first' next' whole held past := by
  have beside := passed.add (fun _ => False) (fun _ => False) split free first_le next_le
  simp only [or_false, not_false_eq_true, implies_true, false_imp_iff, true_imp_iff] at beside
  refine beside ?_ ?_
  · exact fun e member place => (apart e member (passed.inside _ (.inl place))).elim
  · exact fun e member place => (apart e member (passed.inside _ (.inr place))).elim

-- All that is added leads past the capture.
theorem Passed.beyond {first next next' : StateId} {held past gone : StateId → Prop}
    (passed : Passed index first next edges held past) (free : Free index others) (next_le : next ≤ next')
    (range : ∀ id, gone id → first ≤ id ∧ id < next') (fresh : ∀ e ∈ edges, ¬ gone e.origin)
    (leads : ∀ e ∈ others, past e.destination ∨ gone e.destination) :
    Passed index first next' (edges ++ others) held fun id => past id ∨ gone id := by
  have beyond := passed.add (fun _ => False) gone (fun e member => List.mem_append.mp member) free (Nat.le_refl _) next_le
  simp only [or_false, false_or] at beyond
  exact beyond range fresh (fun e member _ => .inr (leads e member)) fun e member _ => leads e member

end

namespace Strand.Once

variable {index : Nat} {fork first : StateId} {ending ending' : Option Bool} {s later : Strand} {captures : List Nat}

theorem imp (once : s.Once index first ending) (weaker : ending' ≠ some true → ending ≠ some true) :
    s.Once index first ending' :=
  once.imp_right fun ⟨held, past, passed, ends⟩ => ⟨held, past, passed, fun unmarked => ends (weaker unmarked)⟩

theorem free_extend (free : Free index s.edges) (outside : index ∉ captures) (text : Text) :
    Free index (s.extend captures text).edges := by
  refine free.append ?_
  intro e member
  cases List.mem_singleton.mp member
  exact outside

theorem onward (once : s.Once index first ending) (flushed : s.pending = []) (within : s.Within fork first)
    (free : Free index later.edges) (beyond : later.Within s.stop s.next)
    (stays : later.stop = s.stop → later.pending = [] → ending' ≠ some true → ending ≠ some true) :
    (s.onward later).Once index first ending' := by
  rcases once with none | ⟨held, past, passed, ends⟩
  · exact .inl (none.append free)
  · refine .inr ⟨held, fun id => past id ∨ s.next ≤ id ∧ id < later.next, ?_, ?_⟩
    · refine passed.beyond free beyond.next_ge ?_ ?_ fun e member => .inr (beyond.edges e member).2
      · exact fun id bounds => ⟨Nat.le_trans within.next_ge bounds.1, bounds.2⟩
      · exact fun e member bounds => Nat.not_lt.mpr bounds.1 (within.origin_lt e member)
    · intro unmarked settled
      rcases beyond.stop with ⟨same, _⟩ | bounds
      · have here := ends (stays same settled unmarked) flushed
        rw [← same] at here
        exact .inl here
      · exact .inr bounds

theorem extend (once : s.Once index first ending) (within : s.Within fork first) (outside : index ∉ captures) (text : Text)
    (ending' : Option Bool) : (s.extend captures text).Once index first ending' := by
  rcases once with none | ⟨held, past, passed, _⟩
  · exact .inl (free_extend none outside text)
  · have settled : Strand.Once index first (some true) { s with pending := [] } :=
      .inr ⟨held, past, passed, fun impossible => (impossible rfl).elim⟩
    have free : Free index (Strand.bridge captures text s.stop s.next).edges := by
      intro e member
      cases List.mem_singleton.mp member
      exact outside
    exact settled.onward rfl (within.pend []) free (Strand.bridge_within within.stop_lt captures text)
      fun stays => (Nat.ne_of_gt within.stop_lt stays).elim

theorem flush (once : s.Once index first ending) (within : s.Within fork first) (outside : index ∉ captures) :
    (s.flush captures).Once index first ending := by
  unfold Strand.flush
  split
  · exact once
  · exact once.extend within outside _ _

theorem entry (once : s.Once index first ending) (within : s.Within fork first) (outside : index ∉ captures) :
    (s.entry captures fork).Once index first ending := by
  unfold Strand.entry
  split
  · exact once.extend within outside _ _
  · exact once

theorem approach (once : s.Once index first ending) (within : s.Within fork first) (outside : index ∉ captures)
    (starred : Bool) : (s.approach captures fork starred).Once index first ending := by
  cases starred with
  | false => exact once.flush within outside
  | true => exact (once.flush within outside).entry within.flush outside

theorem onward_ring (once : s.Once index first ending) (unmarked : ending ≠ some true) (flushed : s.pending = [])
    (within : s.Within fork first) (free : Free index later.edges) (beyond : later.Ring s.stop s.next)
    (ending' : Option Bool) : (s.onward later).Once index first ending' := by
  have stays : later.stop = s.stop := beyond.stop
  rcases once with none | ⟨held, past, passed, ends⟩
  · exact .inl (none.append free)
  · have here := ends unmarked flushed
    refine .inr ⟨held, fun id => past id ∨ s.next ≤ id ∧ id < later.next, ?_, fun _ _ => .inl (stays ▸ here)⟩
    refine passed.beyond free beyond.next_ge ?_ ?_ ?_
    · exact fun id bounds => ⟨Nat.le_trans within.next_ge bounds.1, bounds.2⟩
    · exact fun e member bounds => Nat.not_lt.mpr bounds.1 (within.origin_lt e member)
    · intro e member
      rcases (beyond.edges e member).2 with back | bounds
      · rw [back]
        exact .inl here
      · exact .inr bounds

-- A loop that reads nothing may lie anywhere: its states are what the end of the strand is.
theorem onward_silent (once : s.Once index first ending) (flushed : s.pending = []) (within : s.Within fork first)
    (free : Free index later.edges) (silent : Silent later.edges) (beyond : later.Ring s.stop s.next) :
    (s.onward later).Once index first ending := by
  have stays : later.stop = s.stop := beyond.stop
  rcases once with none | ⟨held, past, passed, ends⟩
  · exact .inl (none.append free)
  · -- A set of old states goes along the loop as a whole.
    have around : ∀ (old : StateId → Prop), (∀ id, old id → id < s.next) → ∀ e ∈ later.edges,
        old e.origin ∨ old s.stop ∧ s.next ≤ e.origin ∧ e.origin < later.next →
        old e.destination ∨ old s.stop ∧ s.next ≤ e.destination ∧ e.destination < later.next := by
      intro old bound e member place
      obtain ⟨origin, destination⟩ := beyond.edges e member
      have here : old s.stop := by
        rcases place with place | place
        · rcases origin with same | ⟨after, _⟩
          · rwa [same] at place
          · exact (Nat.not_lt.mpr after (bound _ place)).elim
        · exact place.1
      refine destination.imp (fun same => ?_) fun bounds => ⟨here, bounds⟩
      rwa [same]
    refine .inr ⟨fun id => held id ∨ held s.stop ∧ s.next ≤ id ∧ id < later.next,
      fun id => past id ∨ past s.stop ∧ s.next ≤ id ∧ id < later.next, ?_,
      fun unmarked _ => .inl (stays ▸ ends unmarked flushed)⟩
    refine passed.add _ _ (fun e member => List.mem_append.mp member) free (Nat.le_refl _) beyond.next_ge ?_ ?_ ?_ ?_
    · rintro id (⟨_, after, before⟩ | ⟨_, after, before⟩) <;> exact ⟨Nat.le_trans within.next_ge after, before⟩
    · rintro e member (⟨_, after, _⟩ | ⟨_, after, _⟩) <;> exact Nat.not_lt.mpr after (within.origin_lt e member)
    · exact fun e member place => .inl ⟨around held (fun id place => (passed.inside id (.inl place)).2) e member place,
        silent e member⟩
    · exact fun e member place => around past (fun id place => (passed.inside id (.inr place)).2) e member place

theorem after (once : later.Once index s.next ending) (within : s.Within fork first) (free : Free index s.edges) :
    (s.onward later).Once index first ending := by
  rcases once with none | ⟨held, past, passed, ends⟩
  · exact .inl (free.append none)
  · refine .inr ⟨held, past, passed.beside (fun e member => (List.mem_append.mp member).symm) free within.next_ge
      (Nat.le_refl _) ?_, ends⟩
    exact fun e member bounds => Nat.not_lt.mpr bounds.1 (within.origin_lt e member)

end Strand.Once

namespace Sheaf.Once

variable {index : Nat} {fork first : StateId} {ending : Option Bool} {s : Strand} {sheaf later : Sheaf} {captures : List Nat}

theorem here (once : s.Once index first ending) (within : s.Within fork first) (beyond : later.Within fork s.next)
    (free : Free index later.edges) : (Sheaf.cons s later).Once index first := by
  rcases once with none | ⟨held, past, passed, _⟩
  · exact .inl (none.append free)
  · refine .inr ⟨held, past, passed.beside (fun e member => List.mem_append.mp member) free (Nat.le_refl _)
      beyond.next_ge ?_⟩
    intro e member bounds
    rcases (beyond.edges e member).1 with at_fork | ⟨after, _⟩
    · rw [at_fork] at bounds
      exact Nat.not_lt.mpr bounds.1 within.fork_lt
    · exact Nat.not_lt.mpr after bounds.2

theorem there (once : later.Once index s.next) (within : s.Within fork first) (free : Free index s.edges) :
    (Sheaf.cons s later).Once index first := by
  rcases once with none | ⟨held, past, passed⟩
  · exact .inl (free.append none)
  · refine .inr ⟨held, past, passed.beside (fun e member => (List.mem_append.mp member).symm) free within.next_ge
      (Nat.le_refl _) ?_⟩
    exact fun e member bounds => Nat.not_lt.mpr bounds.1 (within.origin_lt e member)

theorem joined (once : sheaf.Once index first) (within : sheaf.Within fork first) (outside : index ∉ captures)
    (several : ∀ only, sheaf.stops ≠ [only]) (ending : Option Bool) : (sheaf.joined captures).Once index first ending := by
  have free : Free index (sheaf.stops.map (Edge.joining sheaf.next captures)) := by
    intro e member
    obtain ⟨_, _, rfl⟩ := List.mem_map.mp member
    exact outside
  rw [Sheaf.joined_several several]
  rcases once with none | ⟨held, past, passed⟩
  · exact .inl (none.append free)
  · refine .inr ⟨held, fun id => past id ∨ id = sheaf.next, ?_, fun _ _ => .inr rfl⟩
    refine passed.beyond free (Nat.le_succ _) ?_ ?_ ?_
    · rintro _ rfl
      exact ⟨within.next_ge, Nat.lt_succ_self _⟩
    · exact fun e member => Nat.ne_of_lt (within.origin_lt e member)
    · intro e member
      obtain ⟨_, _, rfl⟩ := List.mem_map.mp member
      exact .inr rfl

end Sheaf.Once

-- A strand still ends where it began as long as only groups that hold nothing have been read.
def Strand.Begun (fork : StateId) (ending : Option Bool) (s : Strand) : Prop :=
  ending = none ↔ s.stop = fork ∧ s.pending = []

def Strand.Calm (first : StateId) (s : Strand) : Prop :=
  ∃ past : StateId → Prop, past s.stop ∧ (∀ id, past id → first ≤ id ∧ id < s.next) ∧
    ∀ e ∈ s.edges, past e.origin → past e.destination ∧ e.text = []

namespace Strand.Begun

variable {fork first : StateId} {ending ending' : Option Bool} {s later : Strand} {captures : List Nat}

theorem start (fork next : StateId) : (Strand.start fork next).Begun fork none := by simp [Strand.Begun, Strand.start]

theorem off (off : s.stop ≠ fork) (flag : Bool) : s.Begun fork (some flag) := by simp [Strand.Begun, off]

theorem flush (begun : s.Begun fork ending) (within : s.Within fork first) : (s.flush captures).Begun fork ending := by
  have fresh : s.next ≠ fork := Nat.ne_of_gt within.fork_lt_next
  unfold Strand.flush
  split
  · exact begun
  · rename_i pending
    simpa [Strand.Begun, Strand.extend, fresh, pending] using begun

theorem onward (begun : s.Begun fork ending) (within : s.Within fork first) (flushed : s.pending = [])
    (beyond : later.Within s.stop s.next) (inner : later.Begun s.stop ending') :
    (s.onward later).Begun fork (ending'.or ending) := by
  show ending'.or ending = none ↔ later.stop = fork ∧ later.pending = []
  rw [Option.or_eq_none_iff, show ending' = none ↔ _ from inner, show ending = none ↔ _ from begun]
  constructor
  · rintro ⟨⟨stays, settled⟩, at_fork, _⟩
    exact ⟨stays.trans at_fork, settled⟩
  · rintro ⟨ends, settled⟩
    rcases beyond.origin with stays | ⟨after, _⟩
    · exact ⟨⟨stays, settled⟩, stays.symm.trans ends, flushed⟩
    · exact (Nat.not_lt.mpr (ends ▸ after) within.fork_lt_next).elim

end Strand.Begun

namespace Strand.Calm

variable {fork first : StateId} {s later : Strand} {captures : List Nat}

theorem extend (within : s.Within fork first) (text : Text) : (s.extend captures text).Calm first := by
  refine ⟨fun id => id = s.next, rfl, ?_, fun e member same => (within.extend_fresh text e member same).elim⟩
  rintro _ rfl
  exact ⟨within.next_ge, Nat.lt_succ_self _⟩

theorem flush (calm : s.pending = [] → s.Calm first) (within : s.Within fork first) : (s.flush captures).Calm first := by
  unfold Strand.flush
  split
  · rename_i settled
    exact calm settled
  · exact extend within _

theorem entry (calm : s.stop ≠ fork → s.Calm first) (within : s.Within fork first) : (s.entry captures fork).Calm first := by
  unfold Strand.entry
  split
  · exact extend within _
  · rename_i off
    exact calm off

theorem onward (calm : later.Calm s.next) (within : s.Within fork first) : (s.onward later).Calm first := by
  obtain ⟨past, here, bounds, closed⟩ := calm
  refine ⟨past, here, fun id place => ⟨Nat.le_trans within.next_ge (bounds id place).1, (bounds id place).2⟩, ?_⟩
  intro e member place
  rcases List.mem_append.mp member with old | new
  · exact (Nat.not_lt.mpr (bounds _ place).1 (within.origin_lt e old)).elim
  · exact closed e new place

theorem onward_nothing (calm : s.Calm first) (within : s.Within fork first) (beyond : later.Within s.stop s.next)
    (stays : later.stop = s.stop) : (s.onward later).Calm first := by
  have nothing : later.edges = [] := by
    refine (beyond.stop.resolve_right fun bounds => ?_).2
    exact Nat.not_le.mpr within.stop_lt (stays ▸ bounds.1)
  obtain ⟨past, here, bounds, closed⟩ := calm
  refine ⟨past, stays ▸ here, fun id place => (bounds id place).imp_right fun before => ?_,
    by simpa [Strand.onward, nothing]⟩
  exact Nat.lt_of_lt_of_le before beyond.next_ge

theorem onward_ring (calm : s.Calm first) (within : s.Within fork first) (silent : Silent later.edges)
    (beyond : later.Ring s.stop s.next) : (s.onward later).Calm first := by
  obtain ⟨past, here, bounds, closed⟩ := calm
  have stays : later.stop = s.stop := beyond.stop
  refine ⟨fun id => past id ∨ s.next ≤ id ∧ id < later.next, .inl (stays ▸ here), ?_, ?_⟩
  · rintro id (old | ⟨after, before⟩)
    · exact ⟨(bounds id old).1, Nat.lt_of_lt_of_le (bounds id old).2 beyond.next_ge⟩
    · exact ⟨Nat.le_trans within.next_ge after, before⟩
  · intro e member place
    rcases List.mem_append.mp member with old | new
    · have place := place.resolve_right fun added => Nat.not_lt.mpr added.1 (within.origin_lt e old)
      exact (closed e old place).imp_left .inl
    · refine ⟨(beyond.edges e new).2.imp (fun same => ?_) id, silent e new⟩
      rw [same]
      exact here

theorem once {index : Nat} {ending : Option Bool} (calm : ending ≠ some true → s.pending = [] → first ≤ s.stop → s.Calm first)
    (within : s.Within fork first) (named : ∀ e ∈ s.edges, index ∈ e.groups) : s.Once index first ending := by
  -- Every state of the strand is held, and past it is what lies ahead of its end.
  rcases within.stop with ⟨_, nothing⟩ | ⟨after, before⟩
  · refine .inl fun e member => ?_
    rw [nothing] at member
    cases member
  · have passed : ∀ past : StateId → Prop, (∀ id, past id → first ≤ id ∧ id < s.next) →
        (∀ e ∈ s.edges, past e.origin → past e.destination ∧ e.text = []) →
        Passed index first s.next s.edges (fun id => first ≤ id ∧ id < s.next) past := fun past bounds closed =>
      { inside := fun id place => place.elim (fun within => within) (bounds id)
        enters := fun e member _ _ => (within.edges e member).2
        leaves := fun e member _ => .inl ⟨(within.edges e member).2, .inl (named e member)⟩
        closed := fun e member place => (closed e member place).imp_right fun silent _ => silent }
    by_cases settled : ending ≠ some true ∧ s.pending = []
    · obtain ⟨past, here, bounds, closed⟩ := calm settled.1 settled.2 after
      exact .inr ⟨_, past, passed past bounds closed, fun _ _ => here⟩
    · refine .inr ⟨_, fun _ => False, passed _ (fun _ => False.elim) (fun _ _ => False.elim), ?_⟩
      exact fun unmarked flushed => settled ⟨unmarked, flushed⟩

end Strand.Calm

theorem Sheaf.joined_several_off {fork first : StateId} {sheaf : Sheaf} (within : sheaf.Within fork first) (captures : List Nat)
    (several : ∀ only, sheaf.stops ≠ [only]) : (sheaf.joined captures).stop ≠ fork := by
  rw [Sheaf.joined_several several]
  exact Nat.ne_of_gt within.fork_lt_next

theorem Sheaf.joined_calm {fork first : StateId} {sheaf : Sheaf} (within : sheaf.Within fork first) (captures : List Nat)
    (several : ∀ only, sheaf.stops ≠ [only]) : (sheaf.joined captures).Calm first := by
  rw [Sheaf.joined_several several]
  refine ⟨fun id => id = sheaf.next, rfl, ?_, fun e member same => (within.joined_fresh e member same).elim⟩
  rintro _ rfl
  exact ⟨within.next_ge, Nat.lt_succ_self _⟩

theorem Sheaf.close_silent {captures : List Nat} {fork first : StateId} {sheaf : Sheaf} (within : sheaf.Within fork first)
    (silent : Silent sheaf.edges) (starred : Bool) : Silent (sheaf.close captures fork starred).edges := by
  have joining : ∀ (target : StateId) (stops : List StateId), Silent (stops.map (Edge.joining target captures)) := by
    intro target stops e member
    obtain ⟨_, _, rfl⟩ := List.mem_map.mp member
    rfl
  cases starred with
  | false =>
    show Silent (sheaf.joined captures).edges
    unfold Sheaf.joined
    split
    · exact silent
    · exact silent.append (joining _ _)
  | true =>
    obtain ⟨merge, _, laid⟩ := within.merges captures
    show Silent (sheaf.looped captures fork).edges
    rw [laid]
    intro e member
    obtain ⟨old, present, rfl⟩ := List.mem_map.mp member
    exact silent.append (joining _ _) old present

theorem Strand.approach_silent {captures : List Nat} {fork : StateId} {s : Strand} (flushed : s.pending = [])
    (silent : Silent s.edges) (starred : Bool) : Silent (s.approach captures fork starred).edges := by
  have stays : s.flush captures = s := if_pos flushed
  cases starred with
  | false =>
    show Silent (s.flush captures).edges
    rwa [stays]
  | true =>
    show Silent ((s.flush captures).entry captures fork).edges
    rw [stays]
    unfold Strand.entry
    split
    · refine silent.append fun e member => ?_
      cases List.mem_singleton.mp member
      rfl
    · exact silent

end PatternMachine
