import PatternMachine.Proofs.Construction.Backtracking
import PatternMachine.Proofs.Regex.Acceptance
import PatternMachine.Proofs.Search.Answers

namespace PatternMachine

def Onward.Distinct (onward : Onward) : Prop :=
  ∀ rest consumed, onward rest = some consumed → ∀ p ∈ consumed, p.2.Nodup

namespace Onward.Distinct

variable {onward onward' : Onward} {captures : List Nat}

theorem take (distinct : Onward.Distinct onward) (once : captures.Nodup) (c : Char) :
    Onward.Distinct (Item.take captures c onward) := by
  intro rest consumed found p member
  cases rest with
  | nil => cases found
  | cons d rest =>
    rw [Item.take] at found
    split at found
    · obtain ⟨more, later, rfl⟩ := Option.map_eq_some_iff.mp found
      rcases List.mem_cons.mp member with rfl | member
      · exact once
      · exact distinct rest more later p member
    · cases found

theorem either (distinct : Onward.Distinct onward) (others : Onward.Distinct onward') :
    Onward.Distinct fun rest => onward rest <|> onward' rest := by
  intro rest consumed found
  cases first : onward rest with
  | none =>
    simp only [first] at found
    exact others rest consumed found
  | some consumed' =>
    simp only [first] at found
    cases found
    exact distinct rest consumed first

theorem never : Onward.Distinct fun _ => none := fun _ _ found => (nomatch found)

theorem orNothing {round : Onward → Onward} (distinct : Onward.Distinct onward)
    (keeps : Onward.Distinct (round onward)) (skips : Bool) : Onward.Distinct (Item.orNothing skips round onward) := by
  apply keeps.either
  cases skips with
  | false => exact never
  | true => exact distinct

theorem repeating {round : Onward → Onward} (distinct : Onward.Distinct onward)
    (keeps : ∀ onward, Onward.Distinct onward → Onward.Distinct (round onward)) (starred : Bool) :
    Onward.Distinct (Item.repeating starred round onward) := by
  have rounds : ∀ count, Onward.Distinct (Item.rounds round onward count) := by
    intro count
    induction count with
    | zero => exact distinct
    | succ count ih => exact (keeps _ ih).either distinct
  cases starred with
  | false => exact keeps onward distinct
  | true => exact fun rest => rounds rest.length rest

end Onward.Distinct

theorem Item.captures_nodup {captures : List Nat} (once : captures.Nodup) {capture : Option Nat}
    (apart : ∀ index ∈ capture, index ∉ captures) : (captures ++ capture.toList).Nodup := by
  refine List.nodup_append.mpr ⟨once, ?_, ?_⟩
  · cases capture <;> simp
  · intro outer member inner own same
    subst same
    exact apart outer (Option.mem_toList.mp own) member

mutual
theorem Item.attempt_distinct {table : CaptureTable} {captures : List Nat} (once : captures.Nodup) {onward : Onward}
    (distinct : onward.Distinct) : (item : Item) → {tokens : List Token} → item.Spelled table captures tokens →
      (item.attempt captures onward).Distinct
  | .char c starred, _, _ => distinct.repeating (fun _ distinct => distinct.take once c) starred
  | .group capture body starred, _, spelled => by
    obtain ⟨_, _, _, _, _, _, apart, inner⟩ := spelled
    refine distinct.repeating (fun onward distinct => ?_) starred
    exact distinct.orNothing (Item.attemptAny_distinct (Item.captures_nodup once apart) distinct body inner) _
theorem Item.attemptAll_distinct {table : CaptureTable} {captures : List Nat} (once : captures.Nodup) {onward : Onward}
    (distinct : onward.Distinct) : (items : List Item) → {tokens : List Token} →
      Item.SpelledAll table captures items tokens → (Item.attemptAll captures items onward).Distinct
  | [], _, _ => distinct
  | item :: items, _, spelled => by
    obtain ⟨_, _, _, first, rest⟩ := spelled
    exact Item.attempt_distinct once (Item.attemptAll_distinct once distinct items rest) item first
theorem Item.attemptAny_distinct {table : CaptureTable} {captures : List Nat} (once : captures.Nodup) {onward : Onward}
    (distinct : onward.Distinct) : (body : List (List Item)) → {tokens : List Token} →
      Item.SpelledAny table captures body tokens → (Item.attemptAny captures body onward).Distinct
  | [], _, spelled => spelled.elim
  | [branch], _, spelled => (Item.attemptBranch_distinct once distinct branch spelled).either .never
  | branch :: next :: body, _, spelled => by
    obtain ⟨_, _, _, first, rest⟩ := spelled
    exact (Item.attemptBranch_distinct once distinct branch first).either
      (Item.attemptAny_distinct once distinct (next :: body) rest)
theorem Item.attemptBranch_distinct {table : CaptureTable} {captures : List Nat} (once : captures.Nodup) {onward : Onward}
    (distinct : onward.Distinct) : (branch : List Item) → {tokens : List Token} →
      Item.SpelledAll table captures branch tokens →
      Onward.Distinct fun rest => if branch.isEmpty then none else Item.attemptAll captures branch onward rest
  | [], _, _ => .never
  | item :: items, _, spelled => by
    obtain ⟨_, _, _, first, rest⟩ := spelled
    exact Item.attempt_distinct once (Item.attemptAll_distinct once distinct items rest) item first
end

theorem Tree.starts_eq (anchors : Anchors) (input : Text) : Tree.starts anchors input = Search.candidates anchors input 0 := by
  unfold Tree.starts Search.candidates
  cases anchors.fixedStart with
  | false => simp
  | true =>
    cases input with
    | nil => simp [Text.suffixes]
    | cons c rest =>
      have later : (Text.suffixes (0 + c.utf8Size) rest).filter (fun p => p.1 == 0) = [] := by
        apply List.filter_eq_nil_iff.mpr
        intro p member
        obtain ⟨before, _, place⟩ := Text.mem_suffixes.mp (show (p.1, p.2) ∈ _ from member)
        have positive := c.utf8Size_pos
        simp only [beq_iff_eq]
        omega
      simpa [Text.suffixes] using later

def Automaton.ending (a : Automaton) (state : StateId) (rest : Text) (result : Option Consumed) : Prop :=
  result = if a.isTerminal state then Tree.finish a.anchors rest else none

theorem Automaton.ending_accepts {a : Automaton} {input rest : Text} {position : Nat} {state : StateId}
    {result : Option Consumed} (here : Text.from? input position = some rest) (ends : a.ending state rest result) :
    result = some [] ∧ Search.Accepts a input ⟨state, position⟩ ∨
      result = none ∧ ¬ Search.Accepts a input ⟨state, position⟩ := by
  have at_end : position = Text.size input ↔ rest = [] := by
    have whole := Text.from?_size here
    rw [← Text.size_eq_zero]
    omega
  unfold Search.Accepts
  rw [ends, at_end]
  cases a.isTerminal state <;> cases fixed : a.anchors.fixedEnd <;> cases rest <;> simp [Tree.finish, fixed]

theorem Automaton.tries_tree {a : Automaton} {tree : Tree} (laid : a.Laid (Item.layAny [] 0 1 tree.body))
    (filled : Item.filledEach tree.body = true) (spaced : Item.spacedEach tree.body = true) (rest : Text) :
    Tries a.edges a.ending a.start (Edge.leaving a.edges a.start) rest (tree.attempt a.anchors rest) := by
  have terminal : ∀ id, id ∈ (Item.layAny [] 0 1 tree.body).stops → a.isTerminal id = true := fun id => (laid.terminal id).mpr
  have held : 0 ∈ (Item.layAny [] 0 1 tree.body).stops ↔ tree.body.any (·.isEmpty) = true :=
    Item.layAny_held [] Nat.zero_lt_one tree.body filled
  have exits : Exits 0 1 (Item.nullableAny tree.body) (Item.layAny [] 0 1 tree.body) a.ending
      (Tree.finish a.anchors) rest := by
    refine ⟨fun stop member _ after _ => ?_, fun id after _ _ different => ?_⟩
    · rw [Automaton.ending, if_pos (terminal stop member)]
    · rw [Automaton.ending, if_neg fun accepting => different ((laid.terminal id).mp accepting)]
  have here : a.ending 0 rest (if tree.body.any (·.isEmpty) then Tree.finish a.anchors rest else none) := by
    have same : a.isTerminal 0 = tree.body.any (·.isEmpty) := Bool.eq_iff_iff.mpr ((laid.terminal 0).trans held)
    rw [Automaton.ending, same]
  rw [laid.edges, laid.start]
  exact Item.layAny_ordered [] Nat.zero_lt_one tree.body spaced filled a.ending (Tree.finish a.anchors) rest _ exits here

theorem Tree.attempt_distinct {table : CaptureTable} {tree : Tree} {tokens : List Token}
    (spelled : Item.SpelledAny table [] tree.body tokens) (anchors : Anchors) :
    Onward.Distinct (tree.attempt anchors) := by
  have finish : Onward.Distinct (Tree.finish anchors) := by
    intro rest consumed found p member
    unfold Tree.finish at found
    split at found <;> cases found
    cases member
  exact finish.orNothing (Item.attemptAny_distinct List.nodup_nil finish tree.body spelled) _

theorem Edge.collected_path {path : List Edge} (distinct : ∀ p ∈ path.flatMap Edge.consumed, p.2.Nodup) (index : Nat) :
    path.flatMap (·.collected index) = Consumed.group (path.flatMap Edge.consumed) index := by
  induction path with
  | nil => rfl
  | cons e path ih =>
    rw [List.flatMap_cons] at distinct
    have here := Edge.collected_eq (fun p member => distinct p (List.mem_append_left _ member)) index
    have later := ih fun p member => distinct p (List.mem_append_right _ member)
    rw [List.flatMap_cons, List.flatMap_cons, here, later]
    simp [Consumed.group]

theorem Automaton.find_tree {a : Automaton} {table : CaptureTable} {tree : Tree} {tokens : List Token} (sealed : a.Sealed)
    (laid : a.Laid (Item.layAny [] 0 1 tree.body)) (count : a.groupCount = tree.captures)
    (spelled : Item.SpelledAny table [] tree.body tokens) (filled : Item.filledEach tree.body = true)
    (spaced : Item.spacedEach tree.body = true) (input : Text) : a.find input = tree.find a.anchors input := by
  unfold Tree.find
  rw [Tree.starts_eq]
  apply Automaton.findFrom_first sealed
  intro p candidate
  obtain ⟨start, rest⟩ := p
  have here := (Search.mem_candidates.mp candidate).2
  obtain ⟨taken, ran, same⟩ := Search.unguarded_of_tries sealed
    (fun _ _ _ _ here ends => Automaton.ending_accepts here ends) (Automaton.tries_tree laid filled spaced rest)
    List.filter_sublist.subset here
  rw [← Automaton.outgoing_eq sealed.start_live] at ran
  refine ⟨taken, ran, ?_⟩
  cases taken with
  | none => simp [same]
  | some path =>
    have distinct := Tree.attempt_distinct spelled a.anchors rest _ same
    have text : Consumed.text (path.flatMap Edge.consumed) = path.flatMap (·.text) := by
      simp [Consumed.text, Edge.consumed, List.map_flatMap, Function.comp_def]
    have groups : collectGroups tree.captures path =
        (List.range tree.captures).map (Consumed.group (path.flatMap Edge.consumed)) :=
      List.map_congr_left fun index _ => Edge.collected_path distinct index
    simp [same, text, count, groups]

namespace Regex

-- On a body with no group that is empty, no starred group that can consume nothing, and no starred item
-- right after one that ends in a star, a compiled pattern finds what the matcher on its tree finds.
theorem find_eq_tree {source : Text} {p : Pattern} (parsed : Pattern.parse source = .ok p) :
    ∃ tree r, Tree.read p.body = some tree ∧ Regex.ofPattern source = .ok r ∧
      (Item.filledEach tree.body = true → Item.apartEach tree.body = true →
        ∀ input, r.find input = tree.find p.anchors input) := by
  obtain ⟨tree, r, read, compiled, sealed, laid, anchors, count, spelled⟩ := Regex.ofPattern_laid parsed
  refine ⟨tree, r, read, compiled, fun filled apart input => ?_⟩
  have spaced : Item.spacedEach tree.body = true := (Item.spacedEach_filled tree.body filled).trans apart
  rw [← anchors]
  exact Automaton.find_tree sealed laid count spelled filled spaced input

-- `(a(b|)|c*d)*e$`
def layered : Pattern :=
  ⟨['(', 'a', '(', 'b', '|', ')', '|', 'c', '*', 'd', ')', '*', 'e', '$'],
    ['(', 'a', '(', 'b', '|', ')', '|', 'c', '*', 'd', ')', '*', 'e'], ⟨false, true⟩⟩

theorem find_eq_tree_layered :
    Pattern.parse layered.source = .ok layered ∧ ∃ tree r, Tree.read layered.body = some tree ∧
      Regex.ofPattern layered.source = .ok r ∧ Item.filledEach tree.body = true ∧ Item.apartEach tree.body = true ∧
      ∀ input, r.find input = tree.find layered.anchors input := by
  have parsed : Pattern.parse layered.source = .ok layered := rfl
  obtain ⟨tree, r, read, compiled, finds⟩ := find_eq_tree parsed
  have shape : Tree.read layered.body = some ⟨[[.group (some 0) [[.char 'a' false, .group (some 1) [[.char 'b' false], []] false],
      [.char 'c' true, .char 'd' false]] true, .char 'e' false]], 2⟩ := rfl
  rw [read] at shape
  cases shape
  exact ⟨parsed, _, r, read, compiled, rfl, rfl, finds rfl rfl⟩

example : (Tree.read layered.body).bind (·.find layered.anchors ['e', 'a', 'b', 'c', 'd', 'a', 'e']) =
    some ⟨1, ['a', 'b', 'c', 'd', 'a', 'e'], [['a', 'b', 'c', 'd', 'a'], ['b']]⟩ := by decide

end Regex

end PatternMachine
