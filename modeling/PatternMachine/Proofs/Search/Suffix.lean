import PatternMachine.Proofs.Search.Leftmost

namespace PatternMachine

def Event.shifted (offset : Nat) : Event → Event
  | .start position => .start (offset + position)
  | .edge e position => .edge e (offset + position)
  | .reject e position => .reject e (offset + position)
  | .revisit state position => .revisit state (offset + position)
  | .deadEnd state position => .deadEnd state (offset + position)
  | .backtrack state position => .backtrack state (offset + position)
  | .accept state position => .accept state (offset + position)

def Match.shifted (offset : Nat) (m : Match) : Match := { m with start := offset + m.start }

namespace Visited

variable {states columns position : Nat}

structure Aligned (offset states columns : Nat) (whole part : Visited) : Prop where
  fits : whole.Fits states (offset + columns)
  fits' : part.Fits states columns
  marks : ∀ state position, whole.seen state (offset + position) = part.seen state position

theorem empty_aligned (offset states columns : Nat) :
    Aligned offset states columns (Visited.empty states (offset + columns)) (Visited.empty states columns) := by
  have fits := empty_fits states (offset + columns)
  have fits' := empty_fits states columns
  refine ⟨fits, fits', fun state position => ?_⟩
  by_cases within : state < states ∧ position < columns
  · rw [seen_empty within.1 within.2, seen_empty within.1 (Nat.add_lt_add_left within.2 offset)]
  · have within' : ¬ (state < states ∧ offset + position < offset + columns) := by
      rwa [Nat.add_lt_add_iff_left]
    rw [seen_outside fits' within, seen_outside fits within']

theorem Aligned.insert {offset : Nat} {whole part : Visited} (aligned : Aligned offset states columns whole part)
    (inside : position < columns) (state : StateId) :
    Aligned offset states columns (whole.insert state (offset + position)) (part.insert state position) := by
  refine ⟨insert_fits aligned.fits _ _, insert_fits aligned.fits' _ _, fun other position' => Bool.eq_iff_iff.mpr ?_⟩
  rw [seen_insert aligned.fits (Nat.add_lt_add_left inside offset), seen_insert aligned.fits' inside,
    Nat.add_left_cancel_iff, aligned.marks]

end Visited

namespace Search

def Frame.shifted (offset : Nat) (frame : Frame) : Frame := { frame with position := offset + frame.position }

-- A run on the whole input and one on what follows an offset of it that have come equally far.
structure Abreast (a : Automaton) (after : Text) (offset : Nat) (whole part : Run) : Prop where
  tables : Visited.Aligned offset a.states.length (Text.size after + 1) whole.visited part.visited
  stack : whole.stack = part.stack.map (Frame.shifted offset)

def Progress.Abreast (a : Automaton) (after : Text) (offset : Nat) (progress : Progress) : Progress → Prop
  | .running events part => ∃ whole, progress = .running (events.map (Event.shifted offset)) whole ∧
      Search.Abreast a after offset whole part
  | .accepted event stack => progress = .accepted (event.shifted offset) (stack.map (Frame.shifted offset))
  | .failed => progress = .failed

variable {a : Automaton} {input after : Text} {offset : Nat} {whole part : Run}

theorem begin_abreast (here : Text.from? input offset = some after) {start : Nat} (inside : start ≤ Text.size after)
    (rest : Text) : Abreast a after offset ((Setting.of a input).begin (offset + start) rest)
      ((Setting.of a after).begin start rest) := by
  have columns : Text.size input + 1 = offset + (Text.size after + 1) := by
    rw [← Text.from?_size here, Nat.add_assoc]
  have tables := Visited.empty_aligned offset a.states.length (Text.size after + 1)
  rw [← columns] at tables
  exact ⟨tables.insert (Nat.lt_succ_of_le inside) a.start, rfl⟩

theorem accepts_abreast (here : Text.from? input offset = some after) (state : StateId) (position : Nat) :
    (Setting.of a input).accepts state (offset + position) = (Setting.of a after).accepts state position := by
  have width := Text.from?_size here
  have ends : (offset + position == Text.size input) = (position == Text.size after) := by
    rw [← width, Bool.eq_iff_iff, beq_iff_eq, beq_iff_eq, Nat.add_left_cancel_iff]
  unfold Setting.accepts
  exact congrArg (fun ends => a.isTerminal state && (!a.anchors.fixedEnd || ends)) ends

theorem step_abreast (here : Text.from? input offset = some after) (abreast : Abreast a after offset whole part) :
    ((Setting.of a input).step whole).Abreast a after offset ((Setting.of a after).step part) := by
  obtain ⟨visited, stack⟩ := whole
  obtain ⟨tables, same⟩ := abreast
  obtain rfl : stack = part.stack.map (Frame.shifted offset) := same
  have onward : ∀ (top : Frame) (e : Edge),
      (top.shifted offset).position + Text.size e.text = offset + (top.position + Text.size e.text) :=
    fun top e => Nat.add_assoc _ _ _
  generalize moved : (Setting.of a after).step part = progress
  cases Setting.step_spec moved with
  | failed => exact Setting.Step.failed.moved
  | rejected left stripped => exact ⟨_, Setting.Step.moved (.rejected left stripped), tables, rfl⟩
  | @revisited e _ _ _ top lower left stripped seen =>
    rw [← tables.marks, ← onward] at seen
    have passed : (Setting.of a input).Step ⟨visited, top.shifted offset :: lower.map (Frame.shifted offset)⟩ _ :=
      .revisited left stripped seen
    rw [onward] at passed
    exact ⟨_, passed.moved, tables, rfl⟩
  | @taken e _ _ _ top lower left stripped fresh =>
    have inside := (Visited.inside_of_fresh tables.fits' fresh).2
    rw [← tables.marks, ← onward] at fresh
    have taken : (Setting.of a input).Step ⟨visited, top.shifted offset :: lower.map (Frame.shifted offset)⟩ _ :=
      .taken left stripped fresh
    rw [onward] at taken
    exact ⟨_, taken.moved, tables.insert inside _, rfl⟩
  | accepted left accepts =>
    rw [← accepts_abreast here] at accepts
    exact Setting.Step.moved (.accepted left accepts)
  | emptied left rejects =>
    rw [← accepts_abreast here] at rejects
    exact ⟨_, Setting.Step.moved (.emptied left rejects), tables, rfl⟩
  | resumed left rejects =>
    rw [← accepts_abreast here] at rejects
    exact ⟨_, Setting.Step.moved (.resumed left rejects), tables, rfl⟩

theorem path_shifted (stack : List Frame) : path (stack.map (Frame.shifted offset)) = path stack := by
  rw [path, ← List.map_reverse, List.filterMap_map]
  rfl

theorem matched_shifted (a : Automaton) (start : Nat) (rest : Text) (stack : List Frame) :
    matched a (offset + start) rest (stack.map (Frame.shifted offset)) = (matched a start rest stack).shifted offset := by
  have width : ((stack.map (Frame.shifted offset)).head?.map (·.position)).getD (offset + start) - (offset + start) =
      (stack.head?.map (·.position)).getD start - start := by
    cases stack <;> exact Nat.add_sub_add_left _ _ _
  show Match.mk _ (Text.takeBytes (_ - (offset + start)) rest) _ = Match.mk _ (Text.takeBytes (_ - start) rest) _
  rw [path_shifted, width]
  rfl

-- Two observers that agree through `f` when the first one is shown everything `offset` bytes further on.
variable {f : τ → σ} {observe : σ → Event → σ} {observe' : τ → Event → τ}

theorem explore_abreast (here : Text.from? input offset = some after)
    (agree : ∀ seen event, observe (f seen) (event.shifted offset) = f (observe' seen event))
    (abreast : Abreast a after offset whole part) (seen : τ) :
    (Setting.of a input).explore observe (f seen) whole =
      ((Setting.of a after).explore observe' seen part).map f (·.map (·.map (Frame.shifted offset))) := by
  fun_induction Setting.explore (Setting.of a after) observe' seen part generalizing whole with
  | case1 seen part events next moved ih =>
    have stepped := step_abreast here abreast
    rw [moved] at stepped
    obtain ⟨whole, moved', abreast'⟩ := stepped
    have told : (events.map (Event.shifted offset)).foldl observe (f seen) = f (events.foldl observe' seen) := by
      rw [List.foldl_map]
      exact List.foldl_hom f agree
    rw [Setting.explore_running moved', told]
    exact ih abreast'
  | case2 seen part event stack moved =>
    have stepped := step_abreast here abreast
    rw [moved] at stepped
    rw [Setting.explore_accepted stepped, agree]
    rfl
  | case3 seen part moved =>
    have stepped := step_abreast here abreast
    rw [moved] at stepped
    rw [Setting.explore_failed stepped]
    rfl

theorem firstMatch_abreast (here : Text.from? input offset = some after)
    (agree : ∀ seen event, observe (f seen) (event.shifted offset) = f (observe' seen event))
    {starts : List (Nat × Text)} (inside : ∀ p ∈ starts, p.1 ≤ Text.size after) (seen : τ) :
    (Setting.of a input).firstMatch observe (f seen) (starts.map fun p => (offset + p.1, p.2)) =
      ((Setting.of a after).firstMatch observe' seen starts).map f (·.map (Match.shifted offset)) := by
  induction starts generalizing seen with
  | nil => rfl
  | cons p later ih =>
    obtain ⟨start, rest⟩ := p
    have abreast := begin_abreast (a := a) here (inside _ List.mem_cons_self) rest
    have explored := explore_abreast here agree abreast (observe' seen (.start start))
    have told : observe (f seen) (.start (offset + start)) = f (observe' seen (.start start)) := agree seen (.start start)
    rw [List.map_cons, Setting.firstMatch, Setting.firstMatch, told, explored]
    rcases (Setting.of a after).explore observe' (observe' seen (.start start)) ((Setting.of a after).begin start rest) with
      ⟨seen, found⟩
    cases found with
    | none => exact ih (fun p member => inside p (List.mem_cons_of_mem _ member)) seen
    | some stack => exact congrArg (fun m => (f seen, some m)) (matched_shifted a start rest stack)

theorem candidates_suffix {anchors : Anchors} (here : Text.from? input offset = some after)
    (anywhere : anchors.fixedStart = false) :
    candidates anchors input offset = (candidates anchors after 0).map fun p => (offset + p.1, p.2) := by
  obtain ⟨before, rfl, rfl⟩ := Text.from?_eq_some.mp here
  have behind := Text.suffixes_behind 0 before after
  rw [Nat.zero_add] at behind
  have shifted := Text.suffixes_shifted (Text.size before) 0 after
  rw [Nat.add_zero] at shifted
  have every : candidates anchors after 0 = Text.suffixes 0 after := by simp [candidates, anywhere]
  rw [every, ← shifted, ← behind]
  simp [candidates, anywhere]

theorem candidates_fixed {anchors : Anchors} (fixed : anchors.fixedStart = true) (later : 0 < offset) :
    candidates anchors input offset = [] := by
  apply List.filter_eq_nil_iff.mpr
  rintro ⟨start, rest⟩ _
  simp [fixed]
  omega

end Search

namespace Automaton

open Search

variable {a : Automaton} {input after : Text} {offset : Nat}

theorem observeFrom_suffix {f : τ → σ} {observe : σ → Event → σ} {observe' : τ → Event → τ}
    (here : Text.from? input offset = some after) (anywhere : a.anchors.fixedStart = false)
    (agree : ∀ seen event, observe (f seen) (event.shifted offset) = f (observe' seen event)) (seen : τ) :
    a.observeFrom observe (f seen) input offset =
      (a.observeFrom observe' seen after 0).map f (·.map (Match.shifted offset)) := by
  have inside : ∀ p ∈ candidates a.anchors after 0, p.1 ≤ Text.size after := by
    intro p member
    have width := Text.from?_size (mem_candidates.mp member).2
    omega
  unfold observeFrom
  rw [candidates_suffix here anywhere]
  exact firstMatch_abreast here agree inside seen

theorem events_suffix (here : Text.from? input offset = some after) (anywhere : a.anchors.fixedStart = false) :
    a.events input offset = (a.events after 0).map (·.map (Event.shifted offset)) (·.map (Match.shifted offset)) := by
  have observed : a.observeFrom (fun seen event => event :: seen) [] input offset =
      (a.observeFrom (fun seen event => event :: seen) [] after 0).map (·.map (Event.shifted offset))
        (·.map (Match.shifted offset)) :=
    observeFrom_suffix (f := List.map (Event.shifted offset)) here anywhere (fun _ _ => rfl) []
  unfold events
  rw [observed]
  rcases a.observeFrom (fun seen event => event :: seen) [] after 0 with ⟨latestFirst, found⟩
  exact Prod.ext List.map_reverse.symm rfl

theorem findFrom_suffix (here : Text.from? input offset = some after) (anywhere : a.anchors.fixedStart = false) :
    a.findFrom input offset = (a.findFrom after 0).map (Match.shifted offset) :=
  congrArg Prod.snd (observeFrom_suffix (f := id) here anywhere (fun _ _ => rfl) ())

theorem findFrom_fixed (fixed : a.anchors.fixedStart = true) (later : 0 < offset) : a.findFrom input offset = none := by
  unfold findFrom observeFrom
  rw [candidates_fixed fixed later]
  rfl

theorem findAt_inside (a : Automaton) (here : Text.from? input offset = some after) :
    a.findAt input offset = .ok (a.findFrom input offset) := by
  obtain ⟨before, whole, place⟩ := Text.from?_eq_some.mp here
  have boundary : Text.isBoundary input offset = true := Text.isBoundary_iff.mpr ⟨before, after, whole, place⟩
  have inside : ¬ Text.size input < offset := by
    have width := Text.from?_size here
    omega
  have valid : checkOffset input offset = .ok () := by rw [checkOffset, if_neg inside, if_pos boundary]
  rw [findAt, valid]
  rfl

-- What is found from an offset on is what is found in the text that follows it, `offset` bytes further on. Only with a fixed
-- start nothing is found, since no candidate is left but the front of the whole input.
theorem findAt_suffix (here : Text.from? input offset = some after) :
    ∃ found, a.findAt after 0 = .ok found ∧
      (a.anchors.fixedStart = false → a.findAt input offset = .ok (found.map (Match.shifted offset))) ∧
      (a.anchors.fixedStart = true → 0 < offset → a.findAt input offset = .ok none) := by
  refine ⟨a.findFrom after 0, a.findAt_inside (Text.from?_zero after), fun anywhere => ?_, fun fixed later => ?_⟩
  · rw [a.findAt_inside here, findFrom_suffix here anywhere]
  · rw [a.findAt_inside here, findFrom_fixed fixed later]

-- Behind `é`, with the start free and with the start fixed.
theorem findAt_suffix_cyclic :
    Text.from? ['é', 'a'] 2 = some ['a'] ∧
      (∃ found, cyclic.findAt ['a'] 0 = .ok found ∧ cyclic.findAt ['é', 'a'] 2 = .ok (found.map (Match.shifted 2))) ∧
      { cyclic with anchors := ⟨true, true⟩ }.findAt ['é', 'a'] 2 = .ok none := by
  have here : Text.from? ['é', 'a'] 2 = some ['a'] := rfl
  obtain ⟨found, answer, further, _⟩ := findAt_suffix (a := cyclic) here
  obtain ⟨_, _, _, fixed⟩ := findAt_suffix (a := { cyclic with anchors := ⟨true, true⟩ }) here
  exact ⟨here, ⟨found, answer, further rfl⟩, fixed rfl (by decide)⟩

end Automaton
end PatternMachine
