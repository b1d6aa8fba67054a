import PatternMachine.Proofs.Construction.Priority

namespace PatternMachine

section Loop

variable {fork first next next' : StateId} {stops : List StateId} {edges : List Edge} {merge : StateId → StateId}
  {captures : List Nat} {exit : StateId → Text → Option Consumed → Prop}

def Edge.back (captures : List Nat) (fork : StateId) (stops : List StateId) (edges : List Edge) : List Edge :=
  (Edge.linked fork edges stops).map (Edge.joining fork captures)

def Edge.ring (captures : List Nat) (fork : StateId) (stops : List StateId) (edges : List Edge)
    (merge : StateId → StateId) : List Edge :=
  (edges ++ Edge.back captures fork stops edges).map (Edge.moved merge)

-- An end of a branch goes round once more; any other state is left the way the loop is.
def loopExit (ring : List Edge) (fork : StateId) (stops : List StateId) (merge : StateId → StateId)
    (exit : StateId → Text → Option Consumed → Prop) (id : StateId) (rest : Text) (result : Option Consumed) : Prop :=
  if id ∈ stops then Tries ring exit fork (Edge.leaving ring fork) rest result else exit (merge id) rest result

theorem Merges.leaving (merges : Merges fork first next stops edges next' merge) {place : StateId}
    (kept : merge place = fork → place = fork) :
    Edge.leaving (Edge.ring captures fork stops edges merge) (merge place) =
      (Edge.leaving edges place ++ Edge.leaving (Edge.back captures fork stops edges) place).map (Edge.moved merge) := by
  rw [← Edge.leaving_append]
  unfold Edge.leaving Edge.ring
  rw [List.filter_map]
  refine congrArg _ (List.filter_congr fun e present => ?_)
  rw [Bool.eq_iff_iff, Function.comp_apply, beq_iff_eq, beq_iff_eq]
  constructor
  · exact merges.origin present kept
  · intro same
    subst same
    rfl

theorem Merges.arrive (merges : Merges fork first next stops edges next' merge) {id : StateId} {rest : Text}
    {result : Option Consumed}
    (inner : Tries edges (loopExit (Edge.ring captures fork stops edges merge) fork stops merge exit) id
      (Edge.leaving edges id) rest result)
    (whole : (merge id = fork → id = fork) → Tries (Edge.ring captures fork stops edges merge) exit (merge id)
      ((Edge.leaving edges id ++ Edge.leaving (Edge.back captures fork stops edges) id).map (Edge.moved merge)) rest result) :
    Tries (Edge.ring captures fork stops edges merge) exit (merge id)
      (Edge.leaving (Edge.ring captures fork stops edges merge) (merge id)) rest result := by
  by_cases kept : merge id = fork → id = fork
  · rw [merges.leaving kept]
    exact whole kept
  · obtain ⟨merged, apart⟩ := Classical.not_imp.mp kept
    obtain ⟨ended, stuck⟩ := (merges.merged id merged).resolve_left apart
    have none : Edge.leaving edges id = [] := by
      apply Edge.leaving_eq_nil.mpr
      intro e member same
      have leaves : Edge.leaves edges id = true := List.any_eq_true.mpr ⟨e, member, beq_iff_eq.mpr same⟩
      rw [stuck] at leaves
      cases leaves
    rw [none] at inner
    cases inner with
    | spent left =>
      rw [loopExit, if_pos ended] at left
      rw [merged]
      exact left

-- A search over the branches of a loop is one over the loop, with the way back to the fork wherever a
-- branch ends: at once where its end was merged, over an edge where it was not.
theorem Merges.tries (merges : Merges fork first next stops edges next' merge) (captures : List Nat) (fork_lt : fork < first)
    (held : fork ∉ stops) (dead : ∀ id ∈ stops, merge id ≠ fork → ∀ after, exit (merge id) after none)
    {state : StateId} {untried : List Edge} {rest : Text} {result : Option Consumed}
    (tries : Tries edges (loopExit (Edge.ring captures fork stops edges merge) fork stops merge exit)
      state untried rest result) (kept : merge state = fork → state = fork) :
    Tries (Edge.ring captures fork stops edges merge) exit (merge state)
      ((untried ++ Edge.leaving (Edge.back captures fork stops edges) state).map (Edge.moved merge)) rest result := by
  have at_fork : merge fork = fork := merges.fixed fork fork_lt
  induction tries with
  | @spent state rest result left =>
    rw [List.nil_append]
    by_cases ended : state ∈ stops
    · rw [loopExit, if_pos ended] at left
      have off : state ≠ fork := fun same => held (same ▸ ended)
      have unmerged : merge state ≠ fork := fun same => off (kept same)
      have leaves := ((merges.closes state ended).resolve_left off).resolve_right unmerged
      have linked : state ∈ Edge.linked fork edges stops := List.mem_filter.mpr ⟨ended, by simp [off, leaves]⟩
      have joins : ∀ e ∈ (Edge.leaving (Edge.back captures fork stops edges) state).map (Edge.moved merge),
          e.text = [] ∧ e.destination = fork := by
        intro e member
        obtain ⟨old, present, rfl⟩ := List.mem_map.mp member
        obtain ⟨id, _, rfl⟩ := List.mem_map.mp (List.mem_filter.mp present).1
        exact ⟨rfl, at_fork⟩
      have back : Edge.joining fork captures state ∈ Edge.leaving (Edge.back captures fork stops edges) state :=
        List.mem_filter.mpr ⟨List.mem_map.mpr ⟨state, linked, rfl⟩, beq_self_eq_true state⟩
      have tries := Tries.hops fork joins (List.ne_nil_of_mem (List.mem_map.mpr ⟨_, back, rfl⟩)) left
        (dead state ended unmerged rest)
      simpa using tries
    · rw [loopExit, if_neg ended] at left
      have none : Edge.leaving (Edge.back captures fork stops edges) state = [] := by
        apply Edge.leaving_eq_nil.mpr
        intro e member same
        obtain ⟨id, linked, rfl⟩ := List.mem_map.mp member
        exact ended (same ▸ List.mem_of_mem_filter linked)
      rw [none]
      exact .spent left
  | miss misses _ ih => exact .miss misses (ih kept)
  | hit inner ih => exact .hit (merges.arrive inner ih)
  | lost inner _ ih later_ih => exact .lost (merges.arrive inner ih) (later_ih kept)

end Loop

-- A loop tries another round before it goes on. Every round leaves less of the input.
theorem Sheaf.Ordered.looped {fork first : StateId} {matcher : Onward → Onward} {sheaf : Sheaf}
    (ordered : sheaf.Ordered fork first false matcher) (steady : Steady false matcher) (within : sheaf.Within fork first)
    (held : fork ∉ sheaf.stops) (captures : List Nat) :
    (sheaf.looped captures fork).Runs fork first true (Item.repeating true matcher) := by
  obtain ⟨merge, merges, laid⟩ := within.merges captures
  have at_fork : merge fork = fork := merges.fixed fork within.fork_lt
  have listed : ∀ id, id ∈ sheaf.stops.eraseReps ↔ id ∈ sheaf.stops :=
    fun id => ⟨fun member => (eraseReps_spec sheaf.stops).1.subset member, (eraseReps_spec sheaf.stops).2 id⟩
  intro exit onward rest stops inside
  have elsewhere : ∀ id after, first ≤ id → id < sheaf.next → merge id ≠ fork → exit (merge id) after none := by
    intro id after above below unmerged
    exact inside (merge id) after (.inr ((merges.range id above below).resolve_left unmerged)) unmerged
  show Tries (sheaf.looped captures fork).edges exit fork (Edge.leaving (sheaf.looped captures fork).edges fork) _ _
  rw [laid]
  clear inside
  induction bound : rest.length using Nat.strongRecOn generalizing rest with
  | ind n ih =>
    rw [steady.repeating_again]
    have tries := ordered
      (loopExit (Edge.ring captures fork sheaf.stops.eraseReps sheaf.edges merge) fork sheaf.stops.eraseReps merge exit)
      (Item.repeating true matcher onward) rest (onward rest) ⟨?_, ?_⟩ ?_
    · have whole := merges.tries captures within.fork_lt (fun member => held ((listed fork).mp member))
        (fun id member unmerged after => ?_) tries fun _ => rfl
      · rw [← merges.leaving fun _ => rfl, at_fork] at whole
        exact whole
      · obtain ⟨above, below⟩ := (within.stops id ((listed id).mp member)).resolve_left
          fun same => held (same ▸ (listed id).mp member)
        exact elsewhere id after above below unmerged
    · intro stop member _ after remains
      rw [loopExit, if_pos ((listed stop).mpr member)]
      have shorter : after.length < n := bound ▸ remains.2 rfl
      exact ih after.length shorter after (fun later remains' => stops later ((remains.trans remains').mono fun _ => rfl)) rfl
    · intro id after above below different
      rw [loopExit, if_neg fun member => different ((listed id).mp member)]
      apply elsewhere id after above below
      intro merged
      rcases merges.merged id merged with same | ⟨member, _⟩
      · exact Nat.not_lt.mpr above (same ▸ within.fork_lt)
      · exact different ((listed id).mp member)
    · rw [loopExit, if_neg fun member => held ((listed fork).mp member), at_fork]
      exact stops rest (.refl rest)

theorem Sheaf.Ordered.mono {fork first : StateId} {nullable nullable' : Bool} {matcher : Onward → Onward} {sheaf : Sheaf}
    (ordered : sheaf.Ordered fork first nullable matcher) (wider : nullable = true → nullable' = true) :
    sheaf.Ordered fork first nullable' matcher := by
  intro exit onward rest other exits here
  refine ordered exit onward rest other ⟨?_, exits.inside⟩ here
  exact fun stop member different after remains => exits.stops stop member different after (remains.mono wider)

theorem Sheaf.joined_off {fork first : StateId} {sheaf : Sheaf} (within : sheaf.Within fork first)
    (single : sheaf.stops ≠ [fork]) (captures : List Nat) : (sheaf.joined captures).stop ≠ fork := by
  unfold Sheaf.joined
  split
  · rename_i only alone
    intro same
    subst same
    exact single alone
  · exact Nat.ne_of_gt within.fork_lt_next

theorem Strand.flush_off {fork first : StateId} {captures : List Nat} {s : Strand} (within : s.Within fork first)
    (moved : s.pending ≠ [] ∨ s.stop ≠ fork) : (s.flush captures).stop ≠ fork := by
  unfold Strand.flush
  split
  · rename_i flushed
    exact moved.resolve_left fun waiting => waiting flushed
  · exact Nat.ne_of_gt within.fork_lt_next

theorem Item.layAny_single {captures : List Nat} {fork next : StateId} {body : List (List Item)}
    (held : fork ∈ (Item.layAny captures fork next body).stops ↔ body.any (·.isEmpty) = true)
    (filled : Item.emptyGroup body = false) : (Item.layAny captures fork next body).stops ≠ [fork] := by
  intro alone
  have count := Item.layAny_stops captures fork next body
  rw [alone] at count held
  obtain ⟨branch, rfl⟩ := List.length_eq_one_iff.mp count.symm
  have empty := held.mp List.mem_cons_self
  simp only [List.any_cons, List.any_nil, Bool.or_false, List.isEmpty_iff] at empty
  subst empty
  cases filled

mutual
theorem Item.lay_moved {captures : List Nat} {fork first : StateId} {s : Strand} (within : s.Within fork first) :
    (item : Item) → item.filled = true →
      (item.lay captures fork s).pending ≠ [] ∨ (item.lay captures fork s).stop ≠ fork
  | .char _ false, _ => .inl (by simp [Item.lay])
  | .char _ true, _ => .inr (Nat.ne_of_gt (Nat.lt_of_lt_of_le within.fork_lt within.approach_off))
  | .group _ _ true, _ => .inr (Nat.ne_of_gt (Nat.lt_of_lt_of_le within.fork_lt within.approach_off))
  | .group capture body false, filled => by
    obtain ⟨nonempty, _, inner⟩ := Item.filled_group filled
    have approached : (s.approach captures fork false).Within fork first := within.approach false
    have inside : (Item.layAny (captures ++ capture.toList) (s.approach captures fork false).stop
        (s.approach captures fork false).next body).Within _ _ := Item.layAny_within approached.stop_lt body
    have off := Sheaf.joined_off inside (Item.layAny_single (Item.layAny_held _ approached.stop_lt body inner) nonempty)
      (captures ++ capture.toList)
    have joined : (Sheaf.joined (captures ++ capture.toList) _).Within _ _ := inside.joined
    have beyond := (joined.stop.resolve_left fun held => off held.1).1
    exact .inr (Nat.ne_of_gt (Nat.lt_of_lt_of_le approached.fork_lt_next beyond))
theorem Item.layAll_moved {captures : List Nat} {fork first : StateId} {s : Strand} (within : s.Within fork first) :
    (items : List Item) → items ≠ [] → Item.filledAll items = true →
      (Item.layAll captures fork s items).pending ≠ [] ∨ (Item.layAll captures fork s items).stop ≠ fork
  | [], nonempty, _ => (nonempty rfl).elim
  | [item], _, filled => Item.lay_moved within item (Bool.and_eq_true _ _ ▸ filled).1
  | item :: later :: items, _, filled =>
    Item.layAll_moved (Item.lay_within within item) (later :: items) (List.cons_ne_nil _ _) (Bool.and_eq_true _ _ ▸ filled).2
theorem Item.layAny_held (captures : List Nat) {fork next : StateId} (fork_lt : fork < next) :
    (body : List (List Item)) → Item.filledEach body = true →
      (fork ∈ (Item.layAny captures fork next body).stops ↔ body.any (·.isEmpty) = true)
  | [], _ => by simp [Item.layAny, Sheaf.empty]
  | [] :: body, _ => by simp [Item.layAny, Item.layAll, Strand.flush, Strand.start, Sheaf.cons]
  | (item :: items) :: body, filled => by
    obtain ⟨first, others⟩ := Bool.and_eq_true _ _ ▸ filled
    have laid : (Item.layAll captures fork (.start fork next) (item :: items)).Within fork next :=
      Item.layAll_within (.start fork_lt) (item :: items)
    have within : ((Item.layAll captures fork (.start fork next) (item :: items)).flush captures).Within fork next := laid.flush
    have off : ((Item.layAll captures fork (.start fork next) (item :: items)).flush captures).stop ≠ fork :=
      Strand.flush_off laid (Item.layAll_moved (.start fork_lt) (item :: items) (List.cons_ne_nil _ _) first)
    have later := Item.layAny_held captures within.fork_lt_next body others
    simpa [Item.layAny, Sheaf.cons, off.symm] using later
end

theorem Item.orNothing_false (matcher : Onward → Onward) : Item.orNothing false matcher = matcher := by
  funext onward rest
  simp [Item.orNothing]

mutual
theorem Item.lay_ordered {captures : List Nat} {fork first : StateId} {after flag nullable : Bool}
    {matcher : Onward → Onward} {s : Strand} (within : s.Within fork first) (loose : s.Loose fork after flag)
    (ordered : s.Ordered captures fork first nullable matcher) :
    (item : Item) → (flag && item.starred) = false → item.spaced = true → item.filled = true →
      (item.lay captures fork s).Ordered captures fork first (nullable && item.nullable)
        (fun onward => matcher (item.attempt captures onward))
  | .char c false, _, _, _ => ordered.pend c
  | .char c true, apart, _, _ => by
    have unflagged : flag = false := by simpa [Item.starred] using apart
    have approached : (s.approach captures fork true).Within fork first := within.approach true
    have ring := Strand.loop_ring approached.stop_lt captures c
    rw [Item.lay, Strand.spin_eq (s.approach_pending captures fork true)]
    exact ordered.approach_ring within loose unflagged ring (Strand.loop_runs captures c _ _) rfl
  | .group capture body false, _, spaced, filled => by
    obtain ⟨nonempty, _, inner⟩ := Item.filled_group filled
    have approached : (s.approach captures fork false).Within fork first := within.approach false
    have inside : (Item.layAny (captures ++ capture.toList) (s.approach captures fork false).stop
        (s.approach captures fork false).next body).Within _ _ := Item.layAny_within approached.stop_lt body
    have held : (s.approach captures fork false).stop ∈ (Item.layAny (captures ++ capture.toList)
        (s.approach captures fork false).stop (s.approach captures fork false).next body).stops ↔ _ :=
      Item.layAny_held _ approached.stop_lt body inner
    have single := Item.layAny_single held nonempty
    have joined := (Item.layAny_ordered (captures ++ capture.toList) approached.stop_lt body spaced inner).joined
      inside held Item.nullableAny_of_empty single (captures ++ capture.toList)
    exact (ordered.approach within false).onward approached (s.approach_pending captures fork false) joined inside.joined
      (Sheaf.joined_off inside single _) (Sheaf.joined_pending _ _)
  | .group capture body true, apart, spaced, filled => by
    obtain ⟨_, consuming, inner⟩ := Item.filled_group filled
    have unflagged : flag = false := by simpa [Item.starred] using apart
    have nullable : Item.nullableAny body = false := by simpa using consuming
    have none : body.any (·.isEmpty) = false := by
      apply Bool.eq_false_iff.mpr
      intro skips
      have empty := Item.nullableAny_of_empty skips
      rw [nullable] at empty
      cases empty
    have approached : (s.approach captures fork true).Within fork first := within.approach true
    have inside : (Item.layAny (captures ++ capture.toList) (s.approach captures fork true).stop
        (s.approach captures fork true).next body).Within _ _ := Item.layAny_within approached.stop_lt body
    have held := Item.layAny_held (captures ++ capture.toList) approached.stop_lt body inner
    have branches := Item.layAny_ordered (captures ++ capture.toList) approached.stop_lt body spaced inner
    have steady := Item.attemptAny_steady (captures ++ capture.toList) body
    rw [nullable] at branches steady
    have runs := branches.looped steady inside (fun member => by simp [held.mp member] at none) (captures ++ capture.toList)
    have whole := ordered.approach_ring within loose unflagged inside.looped runs rfl
    simpa [Item.lay, Sheaf.close, Item.attempt, none, Item.orNothing_false, Item.nullable] using whole
theorem Item.layAll_ordered {captures : List Nat} {fork first : StateId} {after flag nullable : Bool}
    {matcher : Onward → Onward} {s : Strand} (within : s.Within fork first) (loose : s.Loose fork after flag)
    (ordered : s.Ordered captures fork first nullable matcher) :
    (items : List Item) → Item.spacedAfter flag items = true → Item.filledAll items = true →
      (Item.layAll captures fork s items).Ordered captures fork first (nullable && Item.nullableAll items)
        (fun onward => matcher (Item.attemptAll captures items onward))
  | [], _, _ => by
    rw [Item.nullableAll, Bool.and_true]
    exact ordered
  | item :: items, spaced, filled => by
    simp only [Item.spacedAfter, Bool.and_eq_true, Bool.not_eq_true'] at spaced
    obtain ⟨⟨apart, inner⟩, rest⟩ := spaced
    obtain ⟨first, others⟩ := Bool.and_eq_true _ _ ▸ filled
    rw [Item.nullableAll, ← Bool.and_assoc]
    exact Item.layAll_ordered (Item.lay_within within item) (Item.lay_loose within loose item)
      (Item.lay_ordered within loose ordered item apart inner first) items rest others
theorem Item.layAny_ordered (captures : List Nat) {fork next : StateId} (fork_lt : fork < next) :
    (body : List (List Item)) → Item.spacedEach body = true → Item.filledEach body = true →
      (Item.layAny captures fork next body).Ordered fork next (Item.nullableAny body) (Item.attemptAny captures body)
  | [], _, _ => .empty fork next
  | [] :: body, spaced, filled => by
    obtain ⟨_, rest⟩ := Bool.and_eq_true _ _ ▸ spaced
    obtain ⟨_, others⟩ := Bool.and_eq_true _ _ ▸ filled
    have later := (Item.layAny_ordered captures fork_lt body rest others).cons_held fork_lt
    have same : Item.attemptAny captures ([] :: body) = Item.attemptAny captures body := by
      funext onward rest
      simp [Item.attemptAny]
    rw [same]
    exact later.mono fun _ => rfl
  | (item :: items) :: body, spaced, filled => by
    obtain ⟨apart, rest⟩ := Bool.and_eq_true _ _ ▸ spaced
    obtain ⟨full, others⟩ := Bool.and_eq_true _ _ ▸ filled
    have laid : (Item.layAll captures fork (.start fork next) (item :: items)).Within fork next :=
      Item.layAll_within (.start fork_lt) (item :: items)
    have within : ((Item.layAll captures fork (.start fork next) (item :: items)).flush captures).Within fork next := laid.flush
    have off : ((Item.layAll captures fork (.start fork next) (item :: items)).flush captures).stop ≠ fork :=
      Strand.flush_off laid (Item.layAll_moved (.start fork_lt) (item :: items) (List.cons_ne_nil _ _) full)
    have ordered := (Item.layAll_ordered (.start fork_lt) (.start fork next false) (.start fork next) (item :: items)
      apart full).flush laid
    exact (ordered.laid off (Strand.flush_pending _ _)).cons within off
      (Item.layAny_ordered captures within.fork_lt_next body rest others) (Item.layAny_within within.fork_lt_next body)
end

end PatternMachine
