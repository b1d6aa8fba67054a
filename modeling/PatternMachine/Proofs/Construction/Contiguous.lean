import PatternMachine.Proofs.Construction.Passing

namespace PatternMachine

theorem Item.several_stops (captures : List Nat) (fork next : StateId) {body : List (List Item)} (several : body.length ≠ 1)
    (only : StateId) : (Item.layAny captures fork next body).stops ≠ [only] := by
  intro alone
  have count := Item.layAny_stops captures fork next body
  rw [alone] at count
  exact several count.symm

theorem Item.joined_branch (captures : List Nat) (fork next : StateId) (branch : List Item) :
    (Item.layAny captures fork next [branch]).joined captures =
      (Item.layAll captures fork (.start fork next) branch).flush captures :=
  Sheaf.joined_single (Strand.flush_pending _ _) captures

mutual
theorem Item.lay_begun (index : Nat) (inside : Bool) {captures : List Nat} {fork first : StateId} {before : Option Bool}
    {s : Strand} (within : s.Within fork first) (begun : s.Begun fork before) :
    (item : Item) → (item.lay captures fork s).Begun fork (item.ending index inside before)
  | .char _ false => by simp [Strand.Begun, Item.lay, Item.ending]
  | .char _ true => .off (Nat.ne_of_gt (Nat.lt_of_lt_of_le within.fork_lt within.approach_off)) _
  | .group capture body true => by
    have off : (s.approach captures fork true).stop ≠ fork := Nat.ne_of_gt (Nat.lt_of_lt_of_le within.fork_lt within.approach_off)
    have laid : (Item.lay captures fork s (.group capture body true)).stop ≠ fork := off
    rw [Item.ending]
    split <;> exact .off laid _
  | .group capture body false =>
    have approached : (s.approach captures fork false).Within fork first := within.approach false
    (begun.flush within).onward approached (s.approach_pending captures fork false)
      (Item.layAny_within approached.stop_lt body).joined (Item.joined_begun index _ _ approached.stop_lt body)
theorem Item.layAll_begun (index : Nat) (inside : Bool) {captures : List Nat} {fork first : StateId} {before : Option Bool}
    {s : Strand} (within : s.Within fork first) (begun : s.Begun fork before) :
    (items : List Item) → (Item.layAll captures fork s items).Begun fork (Item.endingAll index inside before items)
  | [] => begun
  | item :: items =>
    Item.layAll_begun index inside (Item.lay_within within item) (Item.lay_begun index inside within begun item) items
theorem Item.joined_begun (index : Nat) (inside : Bool) (captures : List Nat) {fork next : StateId} (fork_lt : fork < next) :
    (body : List (List Item)) →
      ((Item.layAny captures fork next body).joined captures).Begun fork (Item.endingAny index inside body)
  | [] => .off (Sheaf.joined_several_off (Item.layAny_within fork_lt []) captures (Item.several_stops _ _ _ (by simp))) _
  | [branch] => by
    rw [Item.joined_branch]
    exact (Item.layAll_begun index inside (.start fork_lt) (.start _ _) branch).flush
      (Item.layAll_within (.start fork_lt) branch)
  | branch :: other :: body =>
    .off (Sheaf.joined_several_off (Item.layAny_within fork_lt (branch :: other :: body)) captures
      (Item.several_stops _ _ _ (by simp))) _
end

mutual
theorem Item.lay_silent (captures : List Nat) {fork first : StateId} {s : Strand} (within : s.Within fork first)
    (flushed : s.pending = []) (silent : Silent s.edges) : (item : Item) → item.hollow = true →
      (item.lay captures fork s).pending = [] ∧ Silent (item.lay captures fork s).edges
  | .char _ _, hollow => by cases hollow
  | .group capture body starred, hollow => by
    have approached : (s.approach captures fork starred).Within fork first := within.approach starred
    have beyond : (Item.layAny (captures ++ capture.toList) _ _ body).Within _ _ := Item.layAny_within approached.stop_lt body
    refine ⟨?_, (Strand.approach_silent flushed silent starred).append
      (Sheaf.close_silent beyond (Item.layAny_silent _ approached.stop_lt body hollow) starred)⟩
    cases starred with
    | false => exact Sheaf.joined_pending _ _
    | true => rfl
theorem Item.layAll_silent (captures : List Nat) {fork first : StateId} {s : Strand} (within : s.Within fork first)
    (flushed : s.pending = []) (silent : Silent s.edges) : (items : List Item) → Item.hollowAll items = true →
      (Item.layAll captures fork s items).pending = [] ∧ Silent (Item.layAll captures fork s items).edges
  | [], _ => ⟨flushed, silent⟩
  | item :: items, hollow => by
    simp only [Item.hollowAll, Bool.and_eq_true] at hollow
    obtain ⟨flushed, silent⟩ := Item.lay_silent captures within flushed silent item hollow.1
    exact Item.layAll_silent captures (Item.lay_within within item) flushed silent items hollow.2
theorem Item.layAny_silent (captures : List Nat) {fork next : StateId} (fork_lt : fork < next) :
    (body : List (List Item)) → Item.hollowAny body = true → Silent (Item.layAny captures fork next body).edges
  | [], _ => by
    intro e member
    cases member
  | branch :: body, hollow => by
    simp only [Item.hollowAny, Bool.and_eq_true] at hollow
    have within : (Item.layAll captures fork (.start fork next) branch).Within fork next :=
      Item.layAll_within (.start fork_lt) branch
    obtain ⟨flushed, silent⟩ := Item.layAll_silent captures (.start fork_lt) rfl (by simp [Silent, Strand.start])
      branch hollow.1
    have stays : (Item.layAll captures fork (.start fork next) branch).flush captures =
        Item.layAll captures fork (.start fork next) branch := if_pos flushed
    rw [Item.layAny, stays]
    exact silent.append (Item.layAny_silent captures within.fork_lt_next body hollow.2)
end

mutual
theorem Item.lay_calm (index : Nat) {captures : List Nat} {fork first : StateId} {before : Option Bool} {s : Strand}
    (within : s.Within fork first) (begun : s.Begun fork before)
    (calm : before = some false → s.pending = [] → s.Calm first) : (item : Item) →
      item.ending index true before = some false → (item.lay captures fork s).pending = [] →
      (item.lay captures fork s).Calm first
  | .char _ false, _, settled => by simp [Item.lay] at settled
  | .char _ true, ended, _ => by simp [Item.ending] at ended
  | .group capture body true, ended, _ => by
    rw [Item.ending] at ended
    split at ended
    · rename_i hollow
      have approached : (s.approach captures fork true).Within fork first := within.approach true
      have beyond : (Item.layAny (captures ++ capture.toList) _ _ body).Within _ _ := Item.layAny_within approached.stop_lt body
      -- At the fork the loop hangs on a new state, elsewhere on the end that the strand has.
      have entered : (s.approach captures fork true).Calm first := by
        refine Strand.Calm.entry (fun off => Strand.Calm.flush (fun settled => calm ?_ settled) within) within.flush
        cases before with
        | none => exact (off ((Strand.Begun.flush begun within).mp rfl).1).elim
        | some flag => simpa using ended
      exact entered.onward_ring approached (Sheaf.close_silent beyond (Item.layAny_silent _ approached.stop_lt body hollow) true)
        beyond.looped
    · cases ended
  | .group capture body false, ended, settled => by
    have approached : (s.approach captures fork false).Within fork first := within.approach false
    cases inner : Item.endingAny index true body with
    | none =>
      have beyond : ((Item.layAny (captures ++ capture.toList) _ _ body).joined (captures ++ capture.toList)).Within _ _ :=
        (Item.layAny_within approached.stop_lt body).joined
      obtain ⟨stays, _⟩ := (Item.joined_begun index true (captures ++ capture.toList) approached.stop_lt body).mp inner
      have before_calm : before = some false := by simpa [Item.ending, inner] using ended
      exact (Strand.Calm.flush (calm before_calm) within).onward_nothing approached beyond stays
    | some flag =>
      have ended : flag = false := by simpa [Item.ending, inner] using ended
      subst ended
      exact (Item.joined_calm index approached.stop_lt body inner).onward approached
theorem Item.layAll_calm (index : Nat) {captures : List Nat} {fork first : StateId} {before : Option Bool} {s : Strand}
    (within : s.Within fork first) (begun : s.Begun fork before)
    (calm : before = some false → s.pending = [] → s.Calm first) : (items : List Item) →
      Item.endingAll index true before items = some false → (Item.layAll captures fork s items).pending = [] →
      (Item.layAll captures fork s items).Calm first
  | [], ended, settled => calm ended settled
  | item :: items, ended, settled =>
    Item.layAll_calm index (Item.lay_within within item) (Item.lay_begun index true within begun item)
      (Item.lay_calm index within begun calm item) items ended settled
theorem Item.joined_calm (index : Nat) {captures : List Nat} {fork next : StateId} (fork_lt : fork < next) :
    (body : List (List Item)) → Item.endingAny index true body = some false →
      ((Item.layAny captures fork next body).joined captures).Calm next
  | [], _ => Sheaf.joined_calm (Item.layAny_within fork_lt []) captures (Item.several_stops _ _ _ (by simp))
  | [branch], ended => by
    rw [Item.joined_branch]
    refine Strand.Calm.flush (fun settled => ?_) (Item.layAll_within (.start fork_lt) branch)
    exact Item.layAll_calm index (.start fork_lt) (.start _ _) (fun impossible => nomatch impossible)
      branch ended settled
  | branch :: other :: body, _ =>
    Sheaf.joined_calm (Item.layAny_within fork_lt (branch :: other :: body)) captures (Item.several_stops _ _ _ (by simp))
end

section

variable {index : Nat} {captures : List Nat} {fork first : StateId} {s : Strand}

theorem Item.lay_after {before : Option Bool} (outside : index ∉ captures) (within : s.Within fork first)
    (once : s.Once index first before) : (item : Item) → index ∉ item.indices →
      (before == some true && item.starred && !item.hollow) = false →
      (item.lay captures fork s).Once index first (item.ending index false before)
  | .char c false, _, _ => by
    rcases once with none | ⟨held, past, passed, _⟩
    · exact .inl none
    · refine .inr ⟨held, past, passed, fun _ settled => ?_⟩
      simp [Item.lay] at settled
  | .char c true, _, apart => by
    have unmarked : before ≠ some true := by simpa [Item.starred, Item.hollow] using apart
    have approached : (s.approach captures fork true).Within fork first := within.approach true
    have pending := s.approach_pending captures fork true
    have ring := Strand.loop_ring approached.stop_lt captures c
    rw [Item.lay, Strand.spin_eq pending]
    refine (once.approach within outside true).onward_ring unmarked pending approached ?_ ring _
    intro e member
    cases List.mem_singleton.mp member
    exact outside
  | .group capture body starred, other, apart => by
    obtain ⟨foreign, inner⟩ : index ∉ capture.toList ∧ index ∉ Item.indicesAny body := by simpa [Item.indices] using other
    have outside' : index ∉ captures ++ capture.toList := by simp [outside, foreign]
    have approached : (s.approach captures fork starred).Within fork first := within.approach starred
    have pending := s.approach_pending captures fork starred
    have laid : Tagged _ _ ((Item.layAny (captures ++ capture.toList) (s.approach captures fork starred).stop
        (s.approach captures fork starred).next body).close (captures ++ capture.toList)
          (s.approach captures fork starred).stop starred).edges :=
      Sheaf.close_tagged (Item.layAny_tagged _ _ _ body) _ starred
    have beyond : (Item.layAny (captures ++ capture.toList) (s.approach captures fork starred).stop
        (s.approach captures fork starred).next body).Within _ _ := Item.layAny_within approached.stop_lt body
    cases starred with
    | false =>
      have begun : Strand.Begun _ _ _ := Item.joined_begun index (false || capture == some index)
        (captures ++ capture.toList) approached.stop_lt body
      refine (once.approach within outside false).onward pending approached (laid.free outside' inner) beyond.joined ?_
      -- Only a group that holds nothing ends where the strand does.
      intro stays settled unmarked
      have same := begun.mpr ⟨stays, settled⟩
      rwa [Item.ending, same, Option.none_or] at unmarked
    | true =>
      have entered := once.approach within outside true
      cases hollow : Item.hollowAny body with
      | false =>
        have unmarked : before ≠ some true := by simpa [Item.starred, Item.hollow, hollow] using apart
        exact entered.onward_ring unmarked pending approached (laid.free outside' inner) beyond.looped _
      | true =>
        have silent := Item.layAny_silent (captures ++ capture.toList) approached.stop_lt body hollow
        refine (entered.onward_silent pending approached (laid.free outside' inner)
          (Sheaf.close_silent beyond silent true) beyond.looped).imp ?_
        simp [Item.ending, hollow, Option.getD_eq_iff]

theorem Item.layAll_after {before : Option Bool} (outside : index ∉ captures) (within : s.Within fork first)
    (once : s.Once index first before) {items : List Item} (other : index ∉ Item.indicesAll items)
    (clear : Item.clearAfter index before items = true) :
    (Item.layAll captures fork s items).Once index first (Item.endingAll index false before items) := by
  induction items generalizing s before with
  | nil => exact once
  | cons item items ih =>
    obtain ⟨here, there⟩ : index ∉ item.indices ∧ index ∉ Item.indicesAll items := by
      simpa [Item.indicesAll] using other
    rw [Item.clearAfter, Bool.and_eq_true, Bool.and_eq_true, Bool.not_eq_true'] at clear
    obtain ⟨⟨apart, _⟩, rest⟩ := clear
    exact ih (Item.lay_within within item) (Item.lay_after outside within once item here apart) there rest

theorem Item.joined_own {next : StateId} (fork_lt : fork < next) (body : List (List Item)) :
    ((Item.layAny (captures ++ [index]) fork next body).joined (captures ++ [index])).Once index next
      (Item.endingAny index true body) := by
  have beyond : ((Item.layAny (captures ++ [index]) fork next body).joined (captures ++ [index])).Within fork next :=
    (Item.layAny_within fork_lt body).joined
  have named := (Sheaf.joined_tagged (Item.layAny_tagged (captures ++ [index]) fork next body)).named
    (List.mem_append_right captures (List.mem_singleton_self index))
  refine Strand.Calm.once (fun unmarked _ off => Item.joined_calm index fork_lt body ?_) beyond named
  have begun := Item.joined_begun index true (captures ++ [index]) fork_lt body
  cases ended : Item.endingAny index true body with
  | none => exact (Nat.not_le.mpr fork_lt ((begun.mp ended).1 ▸ off)).elim
  | some flag => simpa [ended] using unmarked

theorem Item.lay_group_once {names : List Nat} {capture : Option Nat} {body : List (List Item)} {ending before : Option Bool}
    (outside : index ∉ captures) (free : index ∉ names) (within : s.Within fork first)
    (tagged : Tagged captures names s.edges)
    (inner : ((Item.layAny (captures ++ capture.toList) (s.approach captures fork false).stop
      (s.approach captures fork false).next body).joined (captures ++ capture.toList)).Once index
        (s.approach captures fork false).next ending) :
    (Item.lay captures fork s (.group capture body false)).Once index first (ending.or before) :=
  have approached : (s.approach captures fork false).Within fork first := within.approach false
  (inner.after approached ((Strand.approach_tagged tagged false).free outside free)).imp fun unmarked marked =>
    unmarked (by rw [marked, Option.some_or])

end

mutual
theorem Item.lay_once {index : Nat} {captures names : List Nat} {fork first : StateId} {before : Option Bool} {s : Strand}
    (outside : index ∉ captures) (free : index ∉ names) (within : s.Within fork first)
    (tagged : Tagged captures names s.edges) :
    (item : Item) → item.indices.Nodup → index ∈ item.indices → index ∉ item.looped → item.clear index = true →
      (item.lay captures fork s).Once index first (item.ending index false before)
  | .char _ _, _, own, _, _ => by cases own
  | .group capture body true, _, own, unlooped, _ => (unlooped (by simpa [Item.looped, Item.indices] using own)).elim
  | .group capture body false, distinct, own, unlooped, clear => by
    have approached : (s.approach captures fork false).Within fork first := within.approach false
    refine Item.lay_group_once outside free within tagged ?_
    by_cases same : capture = some index
    · subst same
      simpa using Item.joined_own approached.stop_lt body
    have foreign : index ∉ captures ++ capture.toList := by simp [outside, same]
    have others : (false || capture == some index) = false := by simp [same]
    have inside : index ∈ Item.indicesAny body := by simpa [Item.indices, same] using own
    have distinct : (Item.indicesAny body).Nodup := (List.nodup_append.mp distinct).2.1
    have unlooped : index ∉ Item.loopedAny body := unlooped
    have clear : Item.clearEach index body = true := clear
    rw [others]
    match body with
    | [] => cases inside
    | [branch] =>
      have once := Item.layAll_once foreign List.not_mem_nil (.start approached.stop_lt)
        (Option.some_ne_none true).symm .nil branch
        (by simpa [Item.indicesAny] using distinct) (by simpa [Item.indicesAny] using inside)
        (by simpa [Item.loopedAny] using unlooped) (by simpa [Item.clearEach] using clear)
      rw [Item.joined_branch]
      exact once.flush (Item.layAll_within (.start approached.stop_lt) branch) foreign
    | branch :: other :: body =>
      have once := Item.layAny_once foreign approached.stop_lt (branch :: other :: body) distinct inside unlooped clear
      exact once.joined (Item.layAny_within approached.stop_lt _) foreign (Item.several_stops _ _ _ (by simp)) _
theorem Item.layAll_once {index : Nat} {captures names : List Nat} {fork first : StateId} {before : Option Bool} {s : Strand}
    (outside : index ∉ captures) (free : index ∉ names) (within : s.Within fork first) (unmarked : before ≠ some true)
    (tagged : Tagged captures names s.edges) :
    (items : List Item) → (Item.indicesAll items).Nodup → index ∈ Item.indicesAll items → index ∉ Item.loopedAll items →
      Item.clearAfter index before items = true →
      (Item.layAll captures fork s items).Once index first (Item.endingAll index false before items)
  | [], _, own, _, _ => by cases own
  | item :: items, distinct, own, unlooped, clear => by
    obtain ⟨distinct, distinct', apart⟩ := List.nodup_append.mp distinct
    simp only [Item.loopedAll, List.mem_append, not_or] at unlooped
    rw [Item.clearAfter, Bool.and_eq_true, Bool.and_eq_true] at clear
    obtain ⟨⟨_, clear⟩, rest⟩ := clear
    have laid : (item.lay captures fork s).Within fork first := Item.lay_within within item
    -- Each capture is in one item only, so those before it do not end in a star of it.
    by_cases here : index ∈ item.indices
    · have other : index ∉ Item.indicesAll items := fun member => apart index here index member rfl
      exact Item.layAll_after outside laid
        (Item.lay_once outside free within tagged item distinct here unlooped.1 clear) other rest
    · have there : index ∈ Item.indicesAll items := (List.mem_append.mp own).resolve_left here
      exact Item.layAll_once outside (by simp [free, here]) laid (Item.ending_free unmarked item here)
        (Item.lay_tagged tagged item) items distinct' there unlooped.2 rest
theorem Item.layAny_once {index : Nat} {captures : List Nat} {fork next : StateId} (outside : index ∉ captures)
    (fork_lt : fork < next) : (body : List (List Item)) → (Item.indicesAny body).Nodup → index ∈ Item.indicesAny body →
      index ∉ Item.loopedAny body → Item.clearEach index body = true →
      (Item.layAny captures fork next body).Once index next
  | [], _, own, _, _ => by cases own
  | branch :: body, distinct, own, unlooped, clear => by
    obtain ⟨distinct, distinct', apart⟩ := List.nodup_append.mp distinct
    simp only [Item.loopedAny, List.mem_append, not_or] at unlooped
    simp only [Item.clearEach, Bool.and_eq_true] at clear
    have laid : (Item.layAll captures fork (.start fork next) branch).Within fork next :=
      Item.layAll_within (.start fork_lt) branch
    have tagged : Tagged captures ([] ++ Item.indicesAll branch) (Item.layAll captures fork (.start fork next) branch).edges :=
      Item.layAll_tagged .nil branch
    have within : ((Item.layAll captures fork (.start fork next) branch).flush captures).Within fork next := laid.flush
    by_cases here : index ∈ Item.indicesAll branch
    · have other : index ∉ Item.indicesAny body := fun member => apart index here index member rfl
      have once := Item.layAll_once outside List.not_mem_nil (.start fork_lt)
        (Option.some_ne_none true).symm .nil branch distinct here unlooped.1 clear.1
      exact .here (once.flush laid outside) within (Item.layAny_within within.fork_lt_next body)
        ((Item.layAny_tagged captures fork _ body).free outside other)
    · have there : index ∈ Item.indicesAny body := (List.mem_append.mp own).resolve_left here
      have once := Item.layAny_once outside within.fork_lt_next body distinct' there unlooped.2 clear.2
      exact .there once within ((Strand.flush_tagged tagged).free outside (by simpa using here))
end

end PatternMachine
