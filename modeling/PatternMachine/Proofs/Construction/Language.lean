import PatternMachine.Proofs.Automaton.Path
import PatternMachine.Proofs.Construction.Layout

namespace PatternMachine

open scoped Computability

theorem append_mem_kstar {language : Language Char} {first rest : Text} (here : first ∈ language)
    (later : rest ∈ language∗) : first ++ rest ∈ language∗ := by
  obtain ⟨pieces, rfl, members⟩ := Language.mem_kstar.mp later
  refine Language.mem_kstar.mpr ⟨first :: pieces, by simp, ?_⟩
  intro piece member
  rcases List.mem_cons.mp member with rfl | member
  · exact here
  · exact members piece member

theorem Path.moved {edges : List Edge} {start stop : StateId} {text : Text} (path : Path edges start text stop)
    (move : StateId → StateId) : Path (edges.map (Edge.moved move)) (move start) text (move stop) := by
  induction path with
  | stay => exact .stay
  | @step _ _ e member _ ih => exact .step (e := e.moved move) (List.mem_map.mpr ⟨e, member, rfl⟩) ih

def Strand.Sound (fork : StateId) (language : Language Char) (s : Strand) : Prop :=
  ∀ text, Path s.edges fork text s.stop → text ++ s.pending ∈ language

def Strand.Complete (fork : StateId) (language : Language Char) (s : Strand) : Prop :=
  ∀ text ∈ language, ∃ read, text = read ++ s.pending ∧ Path s.edges fork read s.stop

def Sheaf.Sound (fork : StateId) (language : Language Char) (sheaf : Sheaf) : Prop :=
  ∀ stop ∈ sheaf.stops, ∀ text, Path sheaf.edges fork text stop → text ∈ language

def Sheaf.Complete (fork : StateId) (language : Language Char) (sheaf : Sheaf) : Prop :=
  ∀ text ∈ language, ∃ stop ∈ sheaf.stops, Path sheaf.edges fork text stop

namespace Strand.Complete

variable {fork : StateId} {language : Language Char} {s : Strand} {captures : List Nat}

theorem start (fork next : StateId) : (Strand.start fork next).Complete fork 1 := by
  intro text member
  obtain rfl := (Language.mem_one text).mp member
  exact ⟨[], rfl, .stay⟩

theorem pend (complete : s.Complete fork language) (c : Char) :
    ({ s with pending := s.pending ++ [c] } : Strand).Complete fork (language * {[c]}) := by
  intro text member
  obtain ⟨front, here, back, last, rfl⟩ := Language.mem_mul.mp member
  obtain ⟨read, rfl, path⟩ := complete front here
  obtain rfl := Set.mem_singleton_iff.mp last
  exact ⟨read, by simp, path⟩

theorem extend (complete : s.Complete fork language) : (s.extend captures s.pending).Complete fork language := by
  intro text member
  obtain ⟨read, rfl, path⟩ := complete text member
  refine ⟨read ++ s.pending, by simp [Strand.extend], ?_⟩
  have older : Path (s.extend captures s.pending).edges fork read s.stop := path.mono (List.subset_append_left _ _)
  exact older.append (Path.single (e := ⟨s.stop, s.next, s.pending, captures⟩) (List.mem_append_right _ (by simp)))

theorem flush (complete : s.Complete fork language) : (s.flush captures).Complete fork language := by
  unfold Strand.flush
  split
  · exact complete
  · exact complete.extend

theorem entry (complete : s.Complete fork language) (flushed : s.pending = []) :
    (s.entry captures fork).Complete fork language := by
  unfold Strand.entry
  split
  · have extended : (s.extend captures s.pending).Complete fork language := complete.extend
    rwa [flushed] at extended
  · exact complete

theorem approach (complete : s.Complete fork language) (starred : Bool) :
    (s.approach captures fork starred).Complete fork language := by
  cases starred with
  | false => exact complete.flush
  | true => exact complete.flush.entry (s.flush_pending captures)

theorem spin (complete : s.Complete fork language) (flushed : s.pending = []) (c : Char) :
    (s.spin captures c).Complete fork (language * {[c]}∗) := by
  intro text member
  obtain ⟨front, here, back, rounds, rfl⟩ := Language.mem_mul.mp member
  obtain ⟨read, rfl, path⟩ := complete front here
  obtain ⟨pieces, rfl, each⟩ := Language.mem_kstar.mp rounds
  refine ⟨read ++ pieces.flatten, by simp [Strand.spin, flushed], ?_⟩
  have older : Path (s.spin captures c).edges fork read s.stop := path.mono (List.subset_append_left _ _)
  have loop : Path (s.spin captures c).edges s.stop [c] s.stop :=
    Path.single (e := ⟨s.stop, s.stop, [c], captures⟩) (List.mem_append_right _ (by simp))
  apply older.append
  clear member rounds
  induction pieces with
  | nil => exact .stay
  | cons piece pieces ih =>
    obtain rfl := Set.mem_singleton_iff.mp (each piece List.mem_cons_self)
    exact loop.append (ih fun piece member => each piece (List.mem_cons_of_mem _ member))

theorem onward {later : Strand} {language' : Language Char} (complete : s.Complete fork language)
    (flushed : s.pending = []) (beyond : later.Complete s.stop language') :
    (s.onward later).Complete fork (language * language') := by
  intro text member
  obtain ⟨front, here, back, there, rfl⟩ := Language.mem_mul.mp member
  obtain ⟨read, rfl, path⟩ := complete front here
  obtain ⟨read', rfl, path'⟩ := beyond back there
  refine ⟨read ++ read', by simp [Strand.onward, flushed], ?_⟩
  exact (path.mono (List.subset_append_left _ _)).append (path'.mono (List.subset_append_right _ _))

end Strand.Complete

namespace Sheaf.Complete

variable {fork first : StateId} {language : Language Char} {sheaf : Sheaf}

theorem cons {s : Strand} {language' : Language Char} (complete : s.Complete fork language) (flushed : s.pending = [])
    (later : sheaf.Complete fork language') : (Sheaf.cons s sheaf).Complete fork (language + language') := by
  intro text member
  rcases (Language.mem_add _ _ _).mp member with here | there
  · obtain ⟨read, rfl, path⟩ := complete text here
    refine ⟨s.stop, List.mem_cons_self, ?_⟩
    rw [flushed, List.append_nil]
    exact path.mono (List.subset_append_left _ _)
  · obtain ⟨stop, present, path⟩ := later text there
    exact ⟨stop, List.mem_cons_of_mem _ present, path.mono (List.subset_append_right _ _)⟩

theorem joined (complete : sheaf.Complete fork language) (captures : List Nat) :
    (sheaf.joined captures).Complete fork language := by
  intro text member
  obtain ⟨stop, present, path⟩ := complete text member
  refine ⟨text, by simp [Sheaf.joined_pending], ?_⟩
  unfold Sheaf.joined
  split
  · rename_i only alone
    rw [alone] at present
    cases List.mem_singleton.mp present
    exact path
  · have joins : Edge.joining sheaf.next captures stop ∈
        sheaf.edges ++ sheaf.stops.map (Edge.joining sheaf.next captures) :=
      List.mem_append_right _ (List.mem_map.mpr ⟨stop, present, rfl⟩)
    have whole := (path.mono (List.subset_append_left _ _)).append (Path.single joins)
    simpa [Edge.joining] using whole

theorem looped (complete : sheaf.Complete fork language) (within : sheaf.Within fork first) (captures : List Nat) :
    (sheaf.looped captures fork).Complete fork language∗ := by
  obtain ⟨merge, merges, laid⟩ := within.merges captures
  have at_fork : merge fork = fork := merges.fixed fork within.fork_lt
  have round : ∀ text ∈ language, Path (sheaf.looped captures fork).edges fork text fork := by
    intro text member
    obtain ⟨stop, present, path⟩ := complete text member
    have moved := (path.mono (List.subset_append_left _
      ((Edge.linked fork sheaf.edges sheaf.stops.eraseReps).map (Edge.joining fork captures)))).moved merge
    rw [← laid, at_fork] at moved
    have present' := (eraseReps_spec sheaf.stops).2 stop present
    rcases merges.closes stop present' with same | leaves | merged
    · rwa [same, at_fork] at moved
    · by_cases same : stop = fork
      · rwa [same, at_fork] at moved
      · have linked : stop ∈ Edge.linked fork sheaf.edges sheaf.stops.eraseReps :=
          List.mem_filter.mpr ⟨present', by simp [same, leaves]⟩
        have back : (Edge.joining fork captures stop).moved merge ∈ (sheaf.looped captures fork).edges := by
          rw [laid]
          exact List.mem_map.mpr ⟨_, List.mem_append_right _ (List.mem_map.mpr ⟨stop, linked, rfl⟩), rfl⟩
        have whole := moved.append (Path.single back)
        simpa [Edge.moved, Edge.joining, at_fork] using whole
    · rwa [merged] at moved
  intro text member
  obtain ⟨pieces, rfl, each⟩ := Language.mem_kstar.mp member
  refine ⟨pieces.flatten, by simp [Sheaf.looped], ?_⟩
  show Path (sheaf.looped captures fork).edges fork pieces.flatten fork
  clear member
  induction pieces with
  | nil => exact .stay
  | cons piece pieces ih =>
    exact (round piece (each piece List.mem_cons_self)).append
      (ih fun piece member => each piece (List.mem_cons_of_mem _ member))

end Sheaf.Complete

mutual
theorem Item.lay_complete {captures : List Nat} {fork first : StateId} {s : Strand} {language : Language Char}
    (within : s.Within fork first) (complete : s.Complete fork language) :
    (item : Item) → (item.lay captures fork s).Complete fork (language * item.language)
  | .char c false => complete.pend c
  | .char c true => (complete.approach true).spin (s.approach_pending captures fork true) c
  | .group _ body false =>
    (complete.approach false).onward (s.approach_pending captures fork false)
      ((Item.layAny_complete (within.approach false).stop_lt body).joined _)
  | .group _ body true =>
    (complete.approach true).onward (s.approach_pending captures fork true)
      ((Item.layAny_complete (within.approach true).stop_lt body).looped
        (Item.layAny_within (within.approach true).stop_lt body) _)
theorem Item.layAll_complete {captures : List Nat} {fork first : StateId} {s : Strand} {language : Language Char}
    (within : s.Within fork first) (complete : s.Complete fork language) :
    (items : List Item) → (Item.layAll captures fork s items).Complete fork (language * Item.languageAll items)
  | [] => by
    rw [Item.languageAll, mul_one]
    exact complete
  | item :: items => by
    rw [Item.languageAll, ← mul_assoc]
    exact Item.layAll_complete (Item.lay_within within item) (Item.lay_complete within complete item) items
theorem Item.layAny_complete {captures : List Nat} {fork next : StateId} (fork_lt : fork < next) :
    (body : List (List Item)) → (Item.layAny captures fork next body).Complete fork (Item.languageAny body)
  | [] => by
    intro text member
    exact member.elim
  | branch :: body => by
    have complete : (Item.layAll captures fork (.start fork next) branch).Complete fork (1 * Item.languageAll branch) :=
      Item.layAll_complete (.start fork_lt) (.start fork next) branch
    rw [one_mul] at complete
    have within : ((Item.layAll captures fork (.start fork next) branch).flush captures).Within fork next :=
      (Item.layAll_within (.start fork_lt) branch).flush
    exact .cons complete.flush (Strand.flush_pending _ _) (Item.layAny_complete within.fork_lt_next body)
end

-- Whether a loop may be open where a strand ends. `after` speaks of what the group that the strand
-- is in follows, `flag` of the last item of the strand. A pending literal hides the end.
structure Strand.Loose (fork : StateId) (after flag : Bool) (s : Strand) : Prop where
  quiet : flag = false → s.pending = [] → ∀ e ∈ s.edges, e.origin ≠ s.stop
  held : s.stop = fork → s.pending = [] → flag = after

namespace Strand.Loose

variable {fork first : StateId} {after flag : Bool} {s : Strand} {captures : List Nat}

theorem start (fork next : StateId) (after : Bool) : (Strand.start fork next).Loose fork after after :=
  ⟨by simp [Strand.start], fun _ _ => rfl⟩

theorem extend (within : s.Within fork first) (text : Text) (flag : Bool) :
    (s.extend captures text).Loose fork after flag := by
  refine ⟨fun _ _ => within.extend_fresh text, fun at_fork _ => ?_⟩
  have fresh : s.next = fork := at_fork
  exact (Nat.ne_of_gt within.fork_lt_next fresh).elim

theorem flush (loose : s.Loose fork after flag) (within : s.Within fork first) :
    (s.flush captures).Loose fork after flag := by
  unfold Strand.flush
  split
  · exact loose
  · exact extend within _ _

theorem entry (loose : s.Loose fork after flag) (within : s.Within fork first) :
    (s.entry captures fork).Loose fork after flag := by
  unfold Strand.entry
  split
  · exact extend within _ _
  · exact loose

theorem approach (loose : s.Loose fork after flag) (within : s.Within fork first) (starred : Bool) :
    (s.approach captures fork starred).Loose fork after flag := by
  cases starred with
  | false => exact loose.flush within
  | true => exact (loose.flush within).entry within.flush

theorem off (off : s.stop ≠ fork) : s.Loose fork after true :=
  ⟨fun impossible => (nomatch impossible), fun held => (off held).elim⟩

theorem onward {later : Strand} {flag' : Bool} (loose : s.Loose fork after flag) (within : s.Within fork first)
    (flushed : s.pending = []) (beyond : later.Loose s.stop flag flag') (within' : later.Within s.stop s.next) :
    (s.onward later).Loose fork after flag' := by
  refine ⟨?_, ?_⟩
  · intro unflagged settled e member same
    rcases List.mem_append.mp member with old | new
    · rcases within'.stop with ⟨stays, _⟩ | ⟨beyond_stop, _⟩
      · have unflagged' : flag = false := (beyond.held stays settled).symm.trans unflagged
        exact loose.quiet unflagged' flushed e old (same.trans stays)
      · have bound := within.origin_lt e old
        have at_stop : e.origin = later.stop := same
        rw [at_stop] at bound
        exact Nat.not_lt.mpr beyond_stop bound
    · exact beyond.quiet unflagged settled e new same
  · intro at_fork settled
    have ends : later.stop = fork := at_fork
    rcases within'.stop with ⟨stays, _⟩ | ⟨beyond_stop, _⟩
    · rw [beyond.held stays settled]
      exact loose.held (stays.symm.trans ends) flushed
    · rw [ends] at beyond_stop
      exact (Nat.not_lt.mpr beyond_stop within.fork_lt_next).elim

end Strand.Loose

theorem Sheaf.joined_loose {fork first : StateId} {sheaf : Sheaf} (within : sheaf.Within fork first)
    (captures : List Nat) (several : ∀ only, sheaf.stops ≠ [only]) (after flag : Bool) :
    (sheaf.joined captures).Loose fork after flag := by
  rw [Sheaf.joined_several several]
  exact ⟨fun _ _ => within.joined_fresh, fun at_fork => (Nat.ne_of_gt within.fork_lt_next at_fork).elim⟩

theorem Item.lay_group_loose {captures : List Nat} {fork first : StateId} {after flag flag' : Bool} {s : Strand}
    {capture : Option Nat} {body : List (List Item)} (within : s.Within fork first) (loose : s.Loose fork after flag)
    (inside : ((Item.layAny (captures ++ capture.toList) (s.approach captures fork false).stop
      (s.approach captures fork false).next body).joined (captures ++ capture.toList)).Loose
        (s.approach captures fork false).stop flag flag') :
    (Item.lay captures fork s (.group capture body false)).Loose fork after flag' :=
  have approached : (s.approach captures fork false).Within fork first := within.approach false
  (loose.approach within false).onward approached (s.approach_pending captures fork false) inside
    (Item.layAny_within approached.stop_lt body).joined

mutual
theorem Item.lay_loose {captures : List Nat} {fork first : StateId} {after flag : Bool} {s : Strand}
    (within : s.Within fork first) (loose : s.Loose fork after flag) :
    (item : Item) → (item.lay captures fork s).Loose fork after (item.leavesStar flag)
  | .char c false => by
    refine ⟨fun _ settled => ?_, fun _ settled => ?_⟩ <;> simp [Item.lay] at settled
  | .char c true => .off (Nat.ne_of_gt (Nat.lt_of_lt_of_le within.fork_lt within.approach_off))
  | .group _ _ true => .off (Nat.ne_of_gt (Nat.lt_of_lt_of_le within.fork_lt within.approach_off))
  | .group capture [] false => by
    have approached : (s.approach captures fork false).Within fork first := within.approach false
    refine Item.lay_group_loose within loose (Sheaf.joined_loose (Item.layAny_within approached.stop_lt []) _ ?_ _ _)
    intro only alone
    cases alone
  | .group capture [branch] false => by
    have approached : (s.approach captures fork false).Within fork first := within.approach false
    have laid : (Item.layAll (captures ++ capture.toList) (s.approach captures fork false).stop
        (.start _ (s.approach captures fork false).next) branch).Within _ _ :=
      Item.layAll_within (.start approached.stop_lt) branch
    have inner : (Item.layAll (captures ++ capture.toList) (s.approach captures fork false).stop
        (.start _ (s.approach captures fork false).next) branch).Loose _ flag _ :=
      Item.layAll_loose (.start approached.stop_lt) (.start _ _ flag) branch
    apply Item.lay_group_loose within loose
    rw [Item.layAny, Item.layAny, Sheaf.joined_single (Strand.flush_pending _ _)]
    exact inner.flush laid
  | .group capture (branch :: other :: body) false => by
    have approached : (s.approach captures fork false).Within fork first := within.approach false
    refine Item.lay_group_loose within loose (Sheaf.joined_loose (Item.layAny_within approached.stop_lt _) _ ?_ _ _)
    intro only alone
    have count := Item.layAny_stops (captures ++ capture.toList) (s.approach captures fork false).stop
      (s.approach captures fork false).next (branch :: other :: body)
    simp [alone] at count
theorem Item.layAll_loose {captures : List Nat} {fork first : StateId} {after flag : Bool} {s : Strand}
    (within : s.Within fork first) (loose : s.Loose fork after flag) :
    (items : List Item) → (Item.layAll captures fork s items).Loose fork after (Item.lastLeavesStar flag items)
  | [] => loose
  | item :: items => Item.layAll_loose (Item.lay_within within item) (Item.lay_loose within loose item) items
end

namespace Strand.Sound

variable {fork first : StateId} {language : Language Char} {s : Strand} {captures : List Nat}

theorem start (fork next : StateId) : (Strand.start fork next).Sound fork 1 := by
  intro text path
  obtain ⟨rfl, _⟩ := path.stuck (by simp [Strand.start])
  exact (Language.mem_one _).mpr rfl

theorem pend (sound : s.Sound fork language) (c : Char) :
    ({ s with pending := s.pending ++ [c] } : Strand).Sound fork (language * {[c]}) := by
  intro text path
  have member := sound text path
  exact Language.mem_mul.mpr ⟨_, member, [c], Set.mem_singleton _, by simp⟩

theorem onward {later : Strand} {language' : Language Char} (sound : s.Sound fork language)
    (within : s.Within fork first) (flushed : s.pending = []) (beyond : later.Sound s.stop language')
    (newer : ∀ e ∈ later.edges, (e.origin = s.stop ∨ s.next ≤ e.origin) ∧
      (s.next ≤ e.destination ∨ e.destination = s.stop ∧ ∀ e' ∈ s.edges, e'.origin ≠ s.stop))
    (ends : later.stop = s.stop ∨ s.next ≤ later.stop) :
    (s.onward later).Sound fork (language * language') := by
  intro text path
  have older : ∀ e ∈ s.edges, e.origin < s.next ∧ e.destination < s.next :=
    fun e member => ⟨within.origin_lt e member, (within.edges e member).2.2⟩
  rcases (Path.split older newer path).2 within.fork_lt_next with early | ⟨before, after, rfl, here, there⟩
  · -- The path never goes beyond the strand, so neither does its end.
    have stays : later.stop = s.stop := by
      apply ends.resolve_right
      intro beyond_next
      have at_end : (s.onward later).stop = later.stop := rfl
      rcases early.ends with ⟨_, same⟩ | ⟨e, member, same⟩
      · have bound := within.fork_lt_next
        rw [same, at_end] at bound
        exact Nat.not_lt.mpr beyond_next bound
      · have bound := (older e member).2
        rw [same, at_end] at bound
        exact Nat.not_lt.mpr beyond_next bound
    have here := sound text (stays ▸ early)
    have there := beyond [] (stays ▸ .stay)
    rw [flushed, List.append_nil] at here
    exact Language.mem_mul.mpr ⟨text, here, later.pending, there, rfl⟩
  · have here := sound before here
    have there := beyond after there
    rw [flushed, List.append_nil] at here
    exact Language.mem_mul.mpr ⟨before, here, after ++ later.pending, there, by simp [Strand.onward]⟩

theorem bridge {stop next : StateId} (stop_lt : stop < next) (captures : List Nat) (text : Text) :
    (Strand.bridge captures text stop next).Sound stop {text} := by
  intro read path
  have apart : stop ≠ next := Nat.ne_of_lt stop_lt
  have only : ∀ e ∈ (Strand.bridge captures text stop next).edges, e.destination = next ∧ e.text = text := by
    simp [Strand.bridge]
  have path : Path (Strand.bridge captures text stop next).edges stop read next := path
  cases path with
  | stay => exact (apart rfl).elim
  | step member rest =>
    obtain ⟨ends, reads⟩ := only _ member
    rw [ends] at rest
    obtain ⟨rfl, _⟩ := rest.stuck (by simpa [Strand.bridge] using apart)
    exact Set.mem_singleton_iff.mpr (by simp [reads, Strand.bridge])

theorem extend (sound : s.Sound fork language) (within : s.Within fork first) :
    (s.extend captures s.pending).Sound fork language := by
  let bare : Strand := { s with pending := [] }
  let last : Strand := .bridge captures s.pending s.stop s.next
  have front : bare.Sound fork {text | text ++ s.pending ∈ language} := by
    intro text path
    show text ++ [] ++ s.pending ∈ language
    rw [List.append_nil]
    exact sound text path
  have back : last.Sound s.stop {s.pending} := .bridge within.stop_lt captures s.pending
  have whole := front.onward (within.pend []) rfl back (by simp [last, bare, Strand.bridge]) (.inr (Nat.le_refl _))
  intro text path
  obtain ⟨before, here, after, there, same⟩ := Language.mem_mul.mp (whole text path)
  obtain rfl := Set.mem_singleton_iff.mp there
  rw [show text ++ (s.extend captures s.pending).pending = text ++ (bare.onward last).pending from rfl, ← same]
  exact here

theorem flush (sound : s.Sound fork language) (within : s.Within fork first) :
    (s.flush captures).Sound fork language := by
  unfold Strand.flush
  split
  · exact sound
  · exact sound.extend within

theorem entry (sound : s.Sound fork language) (within : s.Within fork first) (flushed : s.pending = []) :
    (s.entry captures fork).Sound fork language := by
  unfold Strand.entry
  split
  · have extended : (s.extend captures s.pending).Sound fork language := sound.extend within
    rwa [flushed] at extended
  · exact sound

theorem approach (sound : s.Sound fork language) (within : s.Within fork first) (starred : Bool) :
    (s.approach captures fork starred).Sound fork language := by
  cases starred with
  | false => exact sound.flush within
  | true => exact (sound.flush within).entry within.flush (s.flush_pending captures)

theorem spin (sound : s.Sound fork language) (within : s.Within fork first) (flushed : s.pending = [])
    (quiet : ∀ e ∈ s.edges, e.origin ≠ s.stop) (c : Char) : (s.spin captures c).Sound fork (language * {[c]}∗) := by
  have round : ∀ {start stop : StateId} {text : Text}, Path (Strand.loop captures c s.stop s.next).edges start text stop →
      text ∈ ({[c]}∗ : Language Char) := by
    intro start stop text path
    induction path with
    | stay => exact Language.nil_mem_kstar _
    | step member _ ih =>
      cases List.mem_singleton.mp member
      exact append_mem_kstar (Set.mem_singleton _) ih
  have rounds : (Strand.loop captures c s.stop s.next).Sound s.stop {[c]}∗ := by
    intro text path
    have member := round path
    rwa [← List.append_nil text] at member
  rw [Strand.spin_eq flushed]
  refine sound.onward within flushed rounds ?_ (.inl rfl)
  intro e member
  cases List.mem_singleton.mp member
  exact ⟨.inl rfl, .inr ⟨rfl, quiet⟩⟩

end Strand.Sound

namespace Sheaf.Sound

variable {fork first : StateId} {language : Language Char} {sheaf : Sheaf}

theorem cons {s : Strand} {language' : Language Char} (sound : s.Sound fork language) (within : s.Within fork first)
    (flushed : s.pending = []) (later : sheaf.Sound fork language') (beyond : sheaf.Within fork s.next) :
    (Sheaf.cons s sheaf).Sound fork (language + language') := by
  intro stop member text path
  have older : ∀ e ∈ s.edges, e.origin < s.next ∧ e.destination ≠ fork ∧ e.destination < s.next := by
    intro e member
    obtain ⟨_, after, before⟩ := within.edges e member
    exact ⟨within.origin_lt e member, Nat.ne_of_gt (Nat.lt_of_lt_of_le within.fork_lt after), before⟩
  have newer : ∀ e ∈ sheaf.edges, (e.origin = fork ∨ s.next ≤ e.origin) ∧ s.next ≤ e.destination := by
    intro e member
    obtain ⟨origin, after, _⟩ := beyond.edges e member
    exact ⟨origin.imp_right And.left, after⟩
  have whole : Path (s.edges ++ sheaf.edges) fork text stop := path
  refine (Language.mem_add _ _ _).mpr ?_
  rcases whole.branch older newer rfl with ⟨path, place⟩ | ⟨path, after⟩
  · rcases List.mem_cons.mp member with rfl | listed
    · have here := sound text path
      rw [flushed, List.append_nil] at here
      exact .inl here
    · rcases place with ⟨rfl, rfl⟩ | ⟨off, below⟩
      · exact .inr (later _ listed [] .stay)
      · exact (Nat.not_lt.mpr ((beyond.stops stop listed).resolve_left off).1 below).elim
  · rcases List.mem_cons.mp member with rfl | listed
    · exact (Nat.not_lt.mpr after within.stop_lt).elim
    · exact .inr (later stop listed text path)

theorem joined (sound : sheaf.Sound fork language) (within : sheaf.Within fork first) (captures : List Nat) :
    (sheaf.joined captures).Sound fork language := by
  intro text path
  rw [Sheaf.joined_pending, List.append_nil]
  unfold Sheaf.joined at path
  split at path
  · rename_i only alone
    exact sound only (by simp [alone]) text path
  · have older : ∀ e ∈ sheaf.edges, e.origin ≠ sheaf.next ∧ e.destination ≠ sheaf.next := fun e member =>
      ⟨Nat.ne_of_lt (within.origin_lt e member), Nat.ne_of_lt (within.edges e member).2.2⟩
    have joins : ∀ e ∈ sheaf.stops.map (Edge.joining sheaf.next captures),
        e.text = [] ∧ e.origin ≠ sheaf.next ∧ e.destination = sheaf.next := by
      intro e member
      obtain ⟨stop, listed, rfl⟩ := List.mem_map.mp member
      exact ⟨rfl, Nat.ne_of_lt (within.stop_lt stop listed), rfl⟩
    obtain ⟨last, member, path⟩ := path.into older joins (Nat.ne_of_lt within.fork_lt_next)
    obtain ⟨stop, listed, rfl⟩ := List.mem_map.mp member
    exact sound stop listed text path

-- A path over a loop, pulled back to the branches: `place` is where it starts there, and `held` what
-- was read since it last came by the fork.
theorem rounds (sound : sheaf.Sound fork language) (within : sheaf.Within fork first) {captures : List Nat}
    {merge : StateId → StateId} {next start stop place : StateId} {held text : Text}
    (merges : Merges fork first sheaf.next sheaf.stops.eraseReps sheaf.edges next merge)
    (path : Path ((sheaf.edges ++ (Edge.linked fork sheaf.edges sheaf.stops.eraseReps).map (Edge.joining fork captures)).map
      (Edge.moved merge)) start text stop) (arrives : stop = fork) (starts : start = merge place)
    (kept : merge place = fork → place = fork) (since : Path sheaf.edges fork held place) : held ++ text ∈ language∗ := by
  have at_fork : merge fork = fork := merges.fixed fork within.fork_lt
  have listed : ∀ id ∈ sheaf.stops.eraseReps, id ∈ sheaf.stops := fun id member =>
    (eraseReps_spec sheaf.stops).1.subset member
  induction path generalizing place held with
  | stay =>
    have same := kept (starts.symm.trans arrives)
    subst same
    rcases since.ends with ⟨rfl, _⟩ | ⟨e, member, enters⟩
    · exact Language.nil_mem_kstar _
    · have after := (within.edges e member).2.1
      rw [enters] at after
      exact (Nat.not_lt.mpr after within.fork_lt).elim
  | @step text stop moved member rest ih =>
    obtain ⟨e, present, rfl⟩ := List.mem_map.mp member
    have origin : e.origin = place := merges.origin present kept starts
    subst origin
    rcases List.mem_append.mp present with here | back
    · have onward : Path sheaf.edges fork (held ++ e.text) e.destination := since.append (Path.single here)
      by_cases comes_back : merge e.destination = fork
      · have off : e.destination ≠ fork := Nat.ne_of_gt (Nat.lt_of_lt_of_le within.fork_lt (within.edges e here).2.1)
        have ended := (merges.merged _ comes_back).resolve_left off
        have round := sound _ (listed _ ended.1) _ onward
        have later : [] ++ text ∈ language∗ := ih arrives (comes_back.trans at_fork.symm) (fun _ => rfl) .stay
        have whole := append_mem_kstar round later
        simpa [Edge.moved] using whole
      · have whole := ih arrives rfl (fun back => (comes_back back).elim) onward
        simpa [Edge.moved] using whole
    · obtain ⟨id, linked, rfl⟩ := List.mem_map.mp back
      have round := sound id (listed id (List.mem_of_mem_filter linked)) held since
      have later : [] ++ text ∈ language∗ := ih arrives rfl (fun _ => rfl) .stay
      exact append_mem_kstar round later

theorem looped (sound : sheaf.Sound fork language) (within : sheaf.Within fork first) (captures : List Nat) :
    (sheaf.looped captures fork).Sound fork language∗ := by
  obtain ⟨merge, merges, laid⟩ := within.merges captures
  intro text path
  rw [laid] at path
  have whole := sound.rounds within merges path rfl (merges.fixed fork within.fork_lt).symm (fun _ => rfl) .stay
  simpa [Sheaf.looped] using whole

end Sheaf.Sound

mutual
theorem Item.lay_sound {captures : List Nat} {fork first : StateId} {after flag : Bool} {s : Strand}
    {language : Language Char} (within : s.Within fork first) (loose : s.Loose fork after flag)
    (sound : s.Sound fork language) :
    (item : Item) → (flag && item.starred) = false → item.spaced = true →
      (item.lay captures fork s).Sound fork (language * item.language)
  | .char c false, _, _ => sound.pend c
  | .char c true, apart, _ => by
    have approached : (s.approach captures fork true).Within fork first := within.approach true
    have unflagged : flag = false := by simpa [Item.starred] using apart
    exact (sound.approach within true).spin approached (s.approach_pending captures fork true)
      ((loose.approach within true).quiet unflagged (s.approach_pending captures fork true)) c
  | .group capture body starred, apart, spaced => by
    have approached : (s.approach captures fork starred).Within fork first := within.approach starred
    have inside : (Item.layAny (captures ++ capture.toList) (s.approach captures fork starred).stop
        (s.approach captures fork starred).next body).Within _ _ := Item.layAny_within approached.stop_lt body
    have inner : (Item.layAny (captures ++ capture.toList) (s.approach captures fork starred).stop
        (s.approach captures fork starred).next body).Sound _ _ := Item.layAny_sound approached.stop_lt body spaced
    have pending := s.approach_pending captures fork starred
    cases starred with
    | false =>
      refine (sound.approach within false).onward approached pending (inner.joined inside _) ?_ ?_
      · intro e member
        obtain ⟨origin, after, _⟩ := inside.joined.edges e member
        exact ⟨origin.imp_right And.left, .inl after⟩
      · exact inside.joined.origin.imp_right And.left
    | true =>
      have unflagged : flag = false := by simpa [Item.starred] using apart
      refine (sound.approach within true).onward approached pending (inner.looped inside _) ?_ (.inl rfl)
      intro e member
      obtain ⟨origin, destination⟩ := inside.looped.edges e member
      refine ⟨origin.imp_right And.left, ?_⟩
      rcases destination with back | ⟨after, _⟩
      · exact .inr ⟨back, (loose.approach within true).quiet unflagged pending⟩
      · exact .inl after
theorem Item.layAll_sound {captures : List Nat} {fork first : StateId} {after flag : Bool} {s : Strand}
    {language : Language Char} (within : s.Within fork first) (loose : s.Loose fork after flag)
    (sound : s.Sound fork language) :
    (items : List Item) → Item.spacedAfter flag items = true →
      (Item.layAll captures fork s items).Sound fork (language * Item.languageAll items)
  | [], _ => by
    rw [Item.languageAll, mul_one]
    exact sound
  | item :: items, spaced => by
    simp only [Item.spacedAfter, Bool.and_eq_true, Bool.not_eq_true'] at spaced
    obtain ⟨⟨apart, inner⟩, rest⟩ := spaced
    rw [Item.languageAll, ← mul_assoc]
    exact Item.layAll_sound (Item.lay_within within item) (Item.lay_loose within loose item)
      (Item.lay_sound within loose sound item apart inner) items rest
theorem Item.layAny_sound {captures : List Nat} {fork next : StateId} (fork_lt : fork < next) :
    (body : List (List Item)) → Item.spacedEach body = true →
      (Item.layAny captures fork next body).Sound fork (Item.languageAny body)
  | [], _ => by
    intro stop member
    cases member
  | branch :: body, spaced => by
    simp only [Item.spacedEach, Bool.and_eq_true] at spaced
    have sound : (Item.layAll captures fork (.start fork next) branch).Sound fork (1 * Item.languageAll branch) :=
      Item.layAll_sound (.start fork_lt) (.start fork next false) (.start fork next) branch spaced.1
    rw [one_mul] at sound
    have laid : (Item.layAll captures fork (.start fork next) branch).Within fork next :=
      Item.layAll_within (.start fork_lt) branch
    have within : ((Item.layAll captures fork (.start fork next) branch).flush captures).Within fork next := laid.flush
    exact .cons (sound.flush laid) within (Strand.flush_pending _ _) (Item.layAny_sound within.fork_lt_next body spaced.2)
      (Item.layAny_within within.fork_lt_next body)
end

end PatternMachine
