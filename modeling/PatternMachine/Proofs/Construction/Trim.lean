import PatternMachine.Proofs.Construction.Language
import PatternMachine.Proofs.Construction.Scan

namespace PatternMachine

def Reachable (edges : List Edge) (start stop : StateId) : Prop := ∃ text, Path edges start text stop

namespace Reachable

variable {edges back : List Edge} {start middle stop : StateId}

theorem refl (edges : List Edge) (here : StateId) : Reachable edges here here := ⟨[], .stay⟩

theorem trans (first : Reachable edges start middle) (second : Reachable edges middle stop) :
    Reachable edges start stop := by
  obtain ⟨text, path⟩ := first
  obtain ⟨later, onward⟩ := second
  exact ⟨text ++ later, path.append onward⟩

theorem mono (reach : Reachable edges start stop) (more : edges ⊆ back) : Reachable back start stop := by
  obtain ⟨text, path⟩ := reach
  exact ⟨text, path.mono more⟩

theorem crossing {e : Edge} (member : e ∈ edges) : Reachable edges e.origin e.destination := ⟨e.text, .single member⟩

theorem moved (reach : Reachable edges start stop) (move : StateId → StateId) :
    Reachable (edges.map (Edge.moved move)) (move start) (move stop) := by
  obtain ⟨text, path⟩ := reach
  exact ⟨text, path.moved move⟩

end Reachable

-- Of the states from `first` to `next`, each is reached from the fork and leads to one of the ends.
structure Trim (fork first next : StateId) (edges : List Edge) (ends : List StateId) : Prop where
  reached : ∀ id, first ≤ id → id < next → Reachable edges fork id
  leads : ∀ id, first ≤ id → id < next → ∃ stop ∈ ends, Reachable edges id stop

def Strand.Trim (fork first : StateId) (s : Strand) : Prop := PatternMachine.Trim fork first s.next s.edges [s.stop]

def Sheaf.Trim (fork first : StateId) (sheaf : Sheaf) : Prop :=
  PatternMachine.Trim fork first sheaf.next sheaf.edges sheaf.stops

namespace Strand.Trim

variable {fork first : StateId} {s : Strand} {captures : List Nat}

theorem start (fork next : StateId) : (Strand.start fork next).Trim fork next :=
  ⟨fun _ after before => (Nat.not_lt.mpr after before).elim, fun _ after before => (Nat.not_lt.mpr after before).elim⟩

theorem leads_stop (trim : s.Trim fork first) {id : StateId} (after : first ≤ id) (before : id < s.next) :
    Reachable s.edges id s.stop := by
  obtain ⟨stop, member, reach⟩ := trim.leads id after before
  cases List.mem_singleton.mp member
  exact reach

theorem crosses (trim : s.Trim fork first) (within : s.Within fork first) : Reachable s.edges fork s.stop := by
  rcases within.stop with ⟨at_fork, _⟩ | ⟨after, before⟩
  · rw [at_fork]
    exact .refl _ _
  · exact trim.reached s.stop after before

theorem onward {later : Strand} (trim : s.Trim fork first) (within : s.Within fork first)
    (beyond : later.Trim s.stop s.next) (crosses : Reachable later.edges s.stop later.stop) :
    (s.onward later).Trim fork first := by
  have older : s.edges ⊆ s.edges ++ later.edges := List.subset_append_left _ _
  have newer : later.edges ⊆ s.edges ++ later.edges := List.subset_append_right _ _
  have here : Reachable (s.onward later).edges fork s.stop := (trim.crosses within).mono older
  refine ⟨?_, ?_⟩
  · intro id after before
    rcases Nat.lt_or_ge id s.next with old | new
    · exact (trim.reached id after old).mono older
    · exact here.trans ((beyond.reached id new before).mono newer)
  · intro id after before
    refine ⟨later.stop, List.mem_singleton_self _, ?_⟩
    rcases Nat.lt_or_ge id s.next with old | new
    · exact ((trim.leads_stop after old).mono older).trans (crosses.mono newer)
    · exact (beyond.leads_stop new before).mono newer

theorem extend (trim : s.Trim fork first) (within : s.Within fork first) (text : Text) :
    (s.extend captures text).Trim fork first := by
  have bridge : (Strand.bridge captures text s.stop s.next).Trim s.stop s.next := by
    have only : ∀ id, s.next ≤ id → id < s.next + 1 → id = s.next := fun id after before =>
      Nat.le_antisymm (Nat.le_of_lt_succ before) after
    refine ⟨?_, ?_⟩
    · intro id after before
      rw [only id after before]
      exact .crossing (e := ⟨s.stop, s.next, text, captures⟩) (List.mem_singleton_self _)
    · intro id after before
      rw [only id after before]
      exact ⟨s.next, List.mem_singleton_self _, .refl _ _⟩
  exact trim.onward within bridge (.crossing (e := ⟨s.stop, s.next, text, captures⟩) (List.mem_singleton_self _))

theorem flush (trim : s.Trim fork first) (within : s.Within fork first) : (s.flush captures).Trim fork first := by
  unfold Strand.flush
  split
  · exact trim
  · exact trim.extend within _

theorem entry (trim : s.Trim fork first) (within : s.Within fork first) : (s.entry captures fork).Trim fork first := by
  unfold Strand.entry
  split
  · exact trim.extend within _
  · exact trim

theorem approach (trim : s.Trim fork first) (within : s.Within fork first) (starred : Bool) :
    (s.approach captures fork starred).Trim fork first := by
  cases starred with
  | false => exact trim.flush within
  | true => exact (trim.flush within).entry within.flush

theorem spin (trim : s.Trim fork first) (within : s.Within fork first) (flushed : s.pending = []) (c : Char) :
    (s.spin captures c).Trim fork first := by
  rw [Strand.spin_eq flushed]
  refine trim.onward within ⟨?_, ?_⟩ (.refl _ _)
  · exact fun _ after before => (Nat.not_lt.mpr after before).elim
  · exact fun _ after before => (Nat.not_lt.mpr after before).elim

end Strand.Trim

theorem StateId.absorbed_onto {first next id : StateId} (gone target : StateId) (after : first ≤ id) (before : id < next - 1) :
    ∃ old, StateId.absorbed gone target old = id ∧ first ≤ old ∧ old < next := by
  unfold StateId.absorbed StateId.renumbered
  by_cases below : id < gone
  · exact ⟨id, by grind, after, Nat.lt_of_lt_of_le before (Nat.sub_le _ _)⟩
  · exact ⟨id + 1, by grind, Nat.le_succ_of_le after, Nat.add_lt_of_lt_sub before⟩

theorem loopBack_trim {captures : List Nat} {fork first next : StateId} {stops : List StateId} {edges : List Edge}
    (fork_lt : fork < first) (inside : ∀ id ∈ stops, id = fork ∨ first ≤ id ∧ id < next)
    (distinct : stops.Pairwise fun id other => id = other → id = fork)
    (trim : Trim fork first next edges (fork :: stops)) :
    Trim fork first (loopBack captures fork stops edges next).2 (loopBack captures fork stops edges next).1 [fork] := by
  induction count : stops.length generalizing stops edges next with
  | zero =>
    cases List.eq_nil_of_length_eq_zero count
    rw [loopBack]
    exact trim
  | succ n ih =>
    cases stops with
    | nil => cases count
    | cons id later =>
      have shorter : later.length = n := Nat.succ.inj count
      have inside' : ∀ id ∈ later, id = fork ∨ first ≤ id ∧ id < next :=
        fun id member => inside id (List.mem_cons_of_mem _ member)
      obtain ⟨different, distinct'⟩ := List.pairwise_cons.mp distinct
      rw [loopBack]
      by_cases apart : id = fork
      · subst apart
        rw [if_pos rfl]
        refine ih inside' distinct' ⟨trim.reached, ?_⟩ shorter
        intro id' after before
        obtain ⟨stop, member, reach⟩ := trim.leads id' after before
        exact ⟨stop, by simpa using member, reach⟩
      have other : ∀ id' ∈ later, id' ≠ id := fun id' member equal => apart (different id' member equal.symm)
      rw [if_neg apart]
      by_cases leaves : Edge.leaves edges id = true
      · have more : edges ⊆ edges ++ [Edge.joining fork captures id] := List.subset_append_left _ _
        have back : Reachable (edges ++ [Edge.joining fork captures id]) id fork :=
          .crossing (e := Edge.joining fork captures id) (List.mem_append_right _ (List.mem_singleton_self _))
        rw [if_pos leaves]
        refine ih inside' distinct' ⟨fun id' after before => (trim.reached id' after before).mono more, ?_⟩ shorter
        intro id' after before
        obtain ⟨stop, member, reach⟩ := trim.leads id' after before
        rcases List.mem_cons.mp member with rfl | member
        · exact ⟨_, List.mem_cons_self, reach.mono more⟩
        · rcases List.mem_cons.mp member with rfl | member
          · exact ⟨fork, List.mem_cons_self, (reach.mono more).trans back⟩
          · exact ⟨stop, List.mem_cons_of_mem _ member, reach.mono more⟩
      · obtain ⟨first_le, lt_next⟩ := (inside id List.mem_cons_self).resolve_left apart
        have fork_lt_id : fork < id := Nat.lt_of_lt_of_le fork_lt first_le
        have fixed : StateId.absorbed id fork fork = fork := StateId.absorbed_below fork_lt_id
        have merged : StateId.absorbed id fork id = fork := if_pos rfl
        rw [if_neg leaves]
        refine ih (inside_renumbered fork_lt first_le lt_next other inside')
          (distinct_renumbered fork_lt_id other distinct') ⟨?_, ?_⟩ (by simpa using shorter)
        · intro id' after before
          obtain ⟨old, rfl, after, before⟩ := StateId.absorbed_onto id fork after before
          have reach := (trim.reached old after before).moved (StateId.absorbed id fork)
          rwa [fixed] at reach
        · intro id' after before
          obtain ⟨old, rfl, after, before⟩ := StateId.absorbed_onto id fork after before
          obtain ⟨stop, member, reach⟩ := trim.leads old after before
          have reach := reach.moved (StateId.absorbed id fork)
          rcases List.mem_cons.mp member with at_fork | member
          · rw [at_fork, fixed] at reach
            exact ⟨fork, List.mem_cons_self, reach⟩
          · rcases List.mem_cons.mp member with here | member
            · rw [here, merged] at reach
              exact ⟨fork, List.mem_cons_self, reach⟩
            · refine ⟨_, List.mem_cons_of_mem _ (List.mem_map.mpr ⟨stop, member, rfl⟩), ?_⟩
              rwa [StateId.renumbered_eq_absorbed fork (other stop member)]

namespace Sheaf.Trim

variable {fork first next : StateId} {sheaf later : Sheaf} {s : Strand}

theorem empty (fork next : StateId) : (Sheaf.empty next).Trim fork next :=
  ⟨fun _ after before => (Nat.not_lt.mpr after before).elim, fun _ after before => (Nat.not_lt.mpr after before).elim⟩

theorem crosses (trim : sheaf.Trim fork first) (within : sheaf.Within fork first) {stop : StateId}
    (member : stop ∈ sheaf.stops) : Reachable sheaf.edges fork stop := by
  rcases within.stops stop member with rfl | ⟨after, before⟩
  · exact .refl _ _
  · exact trim.reached stop after before

theorem cons (trim : s.Trim fork first) (beyond : later.Trim fork s.next) : (Sheaf.cons s later).Trim fork first := by
  have older : s.edges ⊆ s.edges ++ later.edges := List.subset_append_left _ _
  have newer : later.edges ⊆ s.edges ++ later.edges := List.subset_append_right _ _
  refine ⟨?_, ?_⟩
  · intro id after before
    rcases Nat.lt_or_ge id s.next with old | new
    · exact (trim.reached id after old).mono older
    · exact (beyond.reached id new before).mono newer
  · intro id after before
    rcases Nat.lt_or_ge id s.next with old | new
    · exact ⟨s.stop, List.mem_cons_self, (trim.leads_stop after old).mono older⟩
    · obtain ⟨stop, member, reach⟩ := beyond.leads id new before
      exact ⟨stop, List.mem_cons_of_mem _ member, reach.mono newer⟩

theorem joined (trim : sheaf.Trim fork first) (within : sheaf.Within fork first) (some : sheaf.stops ≠ [])
    (captures : List Nat) : (sheaf.joined captures).Trim fork first := by
  unfold Sheaf.joined
  split
  · rename_i only alone
    have single : PatternMachine.Trim fork first sheaf.next sheaf.edges sheaf.stops := trim
    rwa [alone] at single
  · have older : sheaf.edges ⊆ sheaf.edges ++ sheaf.stops.map (Edge.joining sheaf.next captures) :=
      List.subset_append_left _ _
    have joins : ∀ stop ∈ sheaf.stops,
        Reachable (sheaf.edges ++ sheaf.stops.map (Edge.joining sheaf.next captures)) stop sheaf.next :=
      fun stop member => .crossing (e := Edge.joining sheaf.next captures stop)
        (List.mem_append_right _ (List.mem_map.mpr ⟨stop, member, rfl⟩))
    refine ⟨?_, ?_⟩
    · intro id after before
      rcases Nat.lt_succ_iff_lt_or_eq.mp before with old | rfl
      · exact (trim.reached id after old).mono older
      · obtain ⟨stop, member⟩ := List.exists_mem_of_ne_nil _ some
        exact ((trim.crosses within member).mono older).trans (joins stop member)
    · intro id after before
      refine ⟨sheaf.next, List.mem_singleton_self _, ?_⟩
      rcases Nat.lt_succ_iff_lt_or_eq.mp before with old | rfl
      · obtain ⟨stop, member, reach⟩ := trim.leads id after old
        exact (reach.mono older).trans (joins stop member)
      · exact .refl _ _

theorem looped (trim : sheaf.Trim fork first) (within : sheaf.Within fork first) (captures : List Nat) :
    (sheaf.looped captures fork).Trim fork first := by
  obtain ⟨sublist, members⟩ := eraseReps_spec sheaf.stops
  refine loopBack_trim within.fork_lt (fun id member => within.stops id (sublist.subset member))
    (within.distinct.sublist sublist) ⟨trim.reached, ?_⟩
  intro id after before
  obtain ⟨stop, member, reach⟩ := trim.leads id after before
  exact ⟨stop, List.mem_cons_of_mem _ (members stop member), reach⟩

end Sheaf.Trim

theorem Item.SpelledAny.nonempty {table : CaptureTable} {captures : List Nat} {body : List (List Item)}
    {tokens : List Token} (spelled : Item.SpelledAny table captures body tokens) : body ≠ [] := by
  rintro rfl
  exact spelled

theorem Item.SpelledAny.stops {table : CaptureTable} {captures : List Nat} {body : List (List Item)}
    {tokens : List Token} (spelled : Item.SpelledAny table captures body tokens) (fork next : StateId) :
    (Item.layAny captures fork next body).stops ≠ [] := by
  rw [← List.length_pos_iff_ne_nil, Item.layAny_stops]
  exact List.length_pos_iff_ne_nil.mpr spelled.nonempty

mutual
theorem Item.lay_trim {table : CaptureTable} {captures : List Nat} {fork first : StateId} {s : Strand}
    {tokens : List Token} (within : s.Within fork first) (trim : s.Trim fork first) :
    (item : Item) → item.Spelled table captures tokens → (item.lay captures fork s).Trim fork first
  | .char _ false, _ => trim
  | .char c true, _ => (trim.approach within true).spin (within.approach true) (s.approach_pending captures fork true) c
  | .group capture body starred, spelled => by
    obtain ⟨_, _, _, _, _, _, _, spelled⟩ := spelled
    have approached : (s.approach captures fork starred).Within fork first := within.approach starred
    have inside : (Item.layAny (captures ++ capture.toList) (s.approach captures fork starred).stop
        (s.approach captures fork starred).next body).Within _ _ := Item.layAny_within approached.stop_lt body
    have inner := Item.layAny_trim approached.stop_lt body spelled
    cases starred with
    | false =>
      have joined := inner.joined inside (spelled.stops _ _) (captures ++ capture.toList)
      exact (trim.approach within false).onward approached joined (joined.crosses inside.joined)
    | true => exact (trim.approach within true).onward approached (inner.looped inside _) (.refl _ _)
theorem Item.layAll_trim {table : CaptureTable} {captures : List Nat} {fork first : StateId} {s : Strand}
    {tokens : List Token} (within : s.Within fork first) (trim : s.Trim fork first) :
    (items : List Item) → Item.SpelledAll table captures items tokens →
      (Item.layAll captures fork s items).Trim fork first
  | [], _ => trim
  | item :: items, spelled => by
    obtain ⟨_, _, _, here, rest⟩ := spelled
    exact Item.layAll_trim (Item.lay_within within item) (Item.lay_trim within trim item here) items rest
theorem Item.layAny_trim {table : CaptureTable} {captures : List Nat} {fork next : StateId} {tokens : List Token}
    (fork_lt : fork < next) :
    (body : List (List Item)) → Item.SpelledAny table captures body tokens →
      (Item.layAny captures fork next body).Trim fork next
  | [], spelled => spelled.elim
  | [branch], spelled =>
    have within : (Item.layAll captures fork (.start fork next) branch).Within fork next :=
      Item.layAll_within (.start fork_lt) branch
    have trim := Item.layAll_trim (.start fork_lt) (.start fork next) branch spelled
    .cons (trim.flush within) (.empty fork _)
  | branch :: other :: body, spelled => by
    obtain ⟨_, _, _, here, rest⟩ := spelled
    have within : (Item.layAll captures fork (.start fork next) branch).Within fork next :=
      Item.layAll_within (.start fork_lt) branch
    have trim := Item.layAll_trim (.start fork_lt) (.start fork next) branch here
    exact .cons (trim.flush within) (Item.layAny_trim within.flush.fork_lt_next (other :: body) rest)
end

end PatternMachine
