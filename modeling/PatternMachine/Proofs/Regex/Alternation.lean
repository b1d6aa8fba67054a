import Mathlib
import PatternMachine.Proofs.Construction.Tags
import PatternMachine.Proofs.Regex.Acceptance
import PatternMachine.Proofs.Search.Either

namespace PatternMachine

def Sheaf.beside (front back : Sheaf) : Sheaf := ⟨front.edges ++ back.edges, front.stops ++ back.stops, back.next⟩

theorem Item.layAny_append (captures : List Nat) (fork next : StateId) (body later : List (List Item)) :
    layAny captures fork next (body ++ later) =
      (layAny captures fork next body).beside (layAny captures fork (layAny captures fork next body).next later) := by
  induction body generalizing next with
  | nil => rfl
  | cons branch body ih => simp [layAny, Sheaf.cons, Sheaf.beside, ih]

structure Beside (whole left right : Automaton) (front back : Sheaf) (p : Placement) : Prop where
  front_within : front.Within 0 1
  back_within : back.Within 0 1
  states : p.states + 1 = front.next
  left : left.Laid front
  right : right.Laid back
  whole : whole.Laid (front.beside (p.sheaf back))

namespace Beside

variable {whole left right : Automaton} {front back : Sheaf} {p : Placement}

theorem state_ge (beside : Beside whole left right front back p) {id : StateId} (positive : 0 < id) :
    front.next ≤ p.state id := by
  rw [p.state_of_pos positive, ← beside.states, Nat.add_comm id]
  exact Nat.add_le_add_left positive _

theorem state_apart (beside : Beside whole left right front back p) {id other : StateId} (positive : 0 < other)
    (below : other < front.next) : other ≠ p.state id := by
  rcases Nat.eq_zero_or_pos id with rfl | beyond
  · exact Nat.ne_of_gt positive
  · exact Nat.ne_of_lt (Nat.lt_of_lt_of_le below (beside.state_ge beyond))

theorem edge?_eq (beside : Beside whole left right front back p) {edge : Nat} {e : Edge}
    (at_edge : whole.edge? edge = some e) : left.edge? edge = some e ∨
      ∃ edge' e', right.edge? edge' = some e' ∧ edge = edge' + left.edges.length ∧ e = p.edge e' := by
  unfold Automaton.edge? at *
  rw [beside.whole.edges, Sheaf.beside, List.getElem?_append, ← beside.left.edges] at at_edge
  split at at_edge
  · exact .inl at_edge
  · rename_i beyond
    rw [Placement.sheaf, ← beside.right.edges, List.getElem?_map] at at_edge
    obtain ⟨e', at_edge', rfl⟩ := Option.map_eq_some_iff.mp at_edge
    exact .inr ⟨_, e', at_edge', (Nat.sub_add_cancel (Nat.le_of_not_lt beyond)).symm, rfl⟩

theorem part_left (beside : Beside whole left right front back p) (sealed : whole.Sealed) (sealed' : left.Sealed)
    (anchors : whole.anchors = left.anchors) : Search.Part whole left .here 0 := by
  have inside : ∀ e ∈ left.edges, 0 < e.destination ∧ e.destination < front.next := by
    intro e member
    exact (beside.front_within.edges e (beside.left.edges ▸ member)).2
  refine ⟨sealed, sealed', anchors, ?_, ?_, ?_, ?_⟩
  · rw [beside.whole.start, beside.left.start, Placement.here_state]
  · intro edge e at_edge
    rw [Placement.here_edge, Automaton.edge?, beside.whole.edges, Sheaf.beside, ← beside.left.edges]
    have bound := (List.getElem?_eq_some_iff.mp at_edge).1
    exact (List.getElem?_append_left bound).trans at_edge
  · intro entry entered edge e at_edge origin
    rw [Placement.here_state] at origin
    rcases beside.edge?_eq at_edge with at_left | ⟨_, e', _, _, rfl⟩
    · exact ⟨edge, e, at_left, rfl, (Placement.here_edge e).symm⟩
    · obtain ⟨positive, below⟩ := inside entry entered
      exact (beside.state_apart positive below origin.symm).elim
  · intro entry entered
    obtain ⟨positive, below⟩ := inside entry entered
    rw [Placement.here_state, Bool.eq_iff_iff, beside.whole.terminal, beside.left.terminal, Sheaf.beside, List.mem_append]
    refine or_iff_left fun placed => ?_
    obtain ⟨id, _, same⟩ := List.mem_map.mp placed
    exact beside.state_apart positive below same.symm

theorem part_right (beside : Beside whole left right front back p) (sealed : whole.Sealed) (sealed' : right.Sealed)
    (anchors : whole.anchors = right.anchors) : Search.Part whole right p left.edges.length := by
  have beyond : ∀ e ∈ right.edges, front.next ≤ p.state e.destination := by
    intro e member
    exact beside.state_ge (beside.back_within.edges e (beside.right.edges ▸ member)).2.1
  refine ⟨sealed, sealed', anchors, ?_, ?_, ?_, ?_⟩
  · rw [beside.whole.start, beside.right.start]
    rfl
  · intro edge e at_edge
    rw [Automaton.edge?, beside.whole.edges, Sheaf.beside, ← beside.left.edges, Placement.sheaf, ← beside.right.edges,
      List.getElem?_append_right (Nat.le_add_left _ _), Nat.add_sub_cancel, List.getElem?_map]
    exact congrArg (Option.map p.edge) at_edge
  · intro entry entered edge e at_edge origin
    rcases beside.edge?_eq at_edge with at_left | copied
    · have listed : e ∈ front.edges := beside.left.edges ▸ List.mem_of_getElem? at_left
      have below := beside.front_within.origin_lt e listed
      rw [origin] at below
      exact (Nat.not_lt.mpr (beyond entry entered) below).elim
    · exact copied
  · intro entry entered
    rw [Bool.eq_iff_iff, beside.whole.terminal, beside.right.terminal, Sheaf.beside, List.mem_append, Placement.sheaf,
      List.mem_map_of_injective p.state_injective]
    refine or_iff_right fun stop => ?_
    exact Nat.not_lt.mpr (beyond entry entered) (beside.front_within.stop_lt _ stop)

theorem right_start (beside : Beside whole left right front back p) (unaccepted : left.isTerminal left.start = false) :
    whole.isTerminal whole.start = right.isTerminal right.start := by
  have apart : 0 ∉ front.stops := by
    intro stop
    have accepted := (beside.left.terminal 0).mpr stop
    rw [← beside.left.start, unaccepted] at accepted
    cases accepted
  rw [Bool.eq_iff_iff, beside.whole.start, beside.right.start, beside.whole.terminal, beside.right.terminal, Sheaf.beside,
    List.mem_append, or_iff_right apart]
  exact List.mem_map_of_injective p.state_injective (a := 0)

end Beside

theorem Search.Named.of_tree {a : Automaton} {body : Text} {tree : Tree} (read : Tree.read body = some tree)
    (laid : a.Laid (Item.layAny [] 0 1 tree.body)) (count : a.groupCount = tree.captures) : Search.Named a := by
  intro e member index named
  rw [laid.edges] at member
  have listed := (Item.layAny_tagged [] 0 1 tree.body e member).2.subset named
  rw [List.nil_append, Tree.read_indices read] at listed
  rw [count]
  exact List.mem_range.mp listed

theorem Tree.lay_alternatives (tree later : Tree) : ∃ p : Placement, p.around = [] ∧ p.captures = tree.captures ∧
    p.states + 1 = (Item.layAny [] 0 1 tree.body).next ∧
    Item.layAny [] 0 1 (tree.body ++ Item.shiftAny tree.captures later.body) =
      (Item.layAny [] 0 1 tree.body).beside (p.sheaf (Item.layAny [] 0 1 later.body)) := by
  have within : (Item.layAny [] 0 1 tree.body).Within 0 1 := Item.layAny_within Nat.zero_lt_one tree.body
  obtain ⟨states, next⟩ := Nat.exists_eq_add_of_le' within.next_ge
  let p : Placement := ⟨states, [], tree.captures⟩
  have placed : p.sheaf (Item.layAny [] 0 1 later.body) = Item.layAny [] 0 (1 + states) (Item.shiftAny tree.captures later.body) :=
    Item.layAny_placed p Nat.zero_lt_one later.body
  refine ⟨p, rfl, rfl, next.symm, ?_⟩
  rw [Item.layAny_append, placed, Nat.add_comm 1, ← next]

theorem Pattern.Plain.compiled {body : Text} (plain : Plain body) (settled : body.endsEscaping = false) (anchors : Anchors) :
    ∃ tree r, Tree.read body = some tree ∧ Regex.ofPattern (wrap anchors body) = .ok r ∧ r.automaton.Sealed ∧
      r.automaton.Laid (Item.layAny [] 0 1 tree.body) ∧ r.automaton.anchors = anchors ∧
      r.automaton.groupCount = (CaptureTable.ofText body).length ∧ tree.captures = (CaptureTable.ofText body).length := by
  have parsed : Pattern.parse (wrap anchors body) = .ok ⟨wrap anchors body, body, anchors⟩ := parse_wrap plain fun _ => settled
  obtain ⟨tree, r, read, compiled, sealed, laid, anchored, count, _⟩ := Regex.ofPattern_laid parsed
  obtain ⟨tree', read', _, captures⟩ := Tree.read_spelled plain.balanced
  cases read.symm.trans read'
  exact ⟨tree, r, read, compiled, sealed, laid, anchored, count.trans captures, captures⟩

namespace Regex

-- Of two alternatives the one that matches first is found, and the first one where both match from
-- the same start, as long as that one cannot accept without taking an edge.
theorem find_either {body other : Text} (plain : Pattern.Plain body) (plain' : Pattern.Plain other)
    (settled : body.endsEscaping = false) (settled' : other.endsEscaping = false) (anchors : Anchors) :
    ∃ left right both, Regex.ofPattern (Pattern.wrap anchors body) = .ok left ∧
      Regex.ofPattern (Pattern.wrap anchors other) = .ok right ∧
      Regex.ofPattern (Pattern.wrap anchors (body ++ '|' :: other)) = .ok both ∧
      (left.automaton.isTerminal left.automaton.start = false → ∀ input, both.find input =
        Match.either (CaptureTable.ofText body).length (CaptureTable.ofText other).length
          (left.find input) (right.find input)) := by
  obtain ⟨tree, left, read, compiled, sealed, laid, anchored, count, captures⟩ := plain.compiled settled anchors
  obtain ⟨tree', right, read', compiled', sealed', laid', anchored', count', captures'⟩ := plain'.compiled settled' anchors
  have settled_both : (body ++ '|' :: other).endsEscaping = false := (Text.endsEscaping_bar settled other).trans settled'
  obtain ⟨joint, both, read_both, compiled_both, sealed_both, laid_both, anchored_both, count_both, captures_both⟩ :=
    (plain.alternative settled plain').compiled settled_both anchors
  refine ⟨left, right, both, compiled, compiled', compiled_both, fun unaccepted input => ?_⟩
  obtain ⟨p, around, before, states, lay⟩ := Tree.lay_alternatives tree tree'
  cases read_both.symm.trans (Tree.read_alternatives settled read read')
  rw [lay] at laid_both
  have beside : Beside both.automaton left.automaton right.automaton _ _ p :=
    ⟨Item.layAny_within Nat.zero_lt_one tree.body, Item.layAny_within Nat.zero_lt_one tree'.body, states, laid, laid', laid_both⟩
  have either : Search.Either both.automaton left.automaton right.automaton p := {
    inLeft := beside.part_left sealed_both sealed (anchored_both.trans anchored.symm)
    inRight := beside.part_right sealed_both sealed' (anchored_both.trans anchored'.symm)
    edges := fun _ _ at_edge => beside.edge?_eq at_edge
    left_start := unaccepted
    right_start := beside.right_start unaccepted
    around := around
    captures := before.trans (captures.trans count.symm)
    count := by
      rw [count_both, ← captures_both, count, count', captures, captures', Nat.add_comm]
    left_named := .of_tree read laid (count.trans captures.symm)
    right_named := .of_tree read' laid' (count'.trans captures'.symm) }
  rw [← count, ← count']
  exact (Search.findFrom_found sealed_both input 0).unique
    (either.found (Search.findFrom_found sealed input 0) (Search.findFrom_found sealed' input 0))

-- `(a)*b$` and `(a|b)c$`
def looping : Text := ['(', 'a', ')', '*', 'b']
def branching : Text := ['(', 'a', '|', 'b', ')', 'c']

theorem find_either_ending :
    Pattern.Plain looping ∧ Pattern.Plain branching ∧ looping.endsEscaping = false ∧ branching.endsEscaping = false ∧
      ∃ left right both, Regex.ofPattern (Pattern.wrap ⟨false, true⟩ looping) = .ok left ∧
        Regex.ofPattern (Pattern.wrap ⟨false, true⟩ branching) = .ok right ∧
        Regex.ofPattern (Pattern.wrap ⟨false, true⟩ (looping ++ '|' :: branching)) = .ok both ∧
        left.automaton.isTerminal left.automaton.start = false ∧
        (∀ input, both.find input = Match.either 1 1 (left.find input) (right.find input)) ∧
        both.find ['b', 'c'] = some ⟨0, ['b', 'c'], [[], ['b']]⟩ := by
  have plain : Pattern.Plain looping := ⟨rfl, by decide⟩
  have plain' : Pattern.Plain branching := ⟨rfl, by decide⟩
  obtain ⟨left, right, both, compiled, compiled', compiled_both, finds⟩ := find_either plain plain' rfl rfl ⟨false, true⟩
  have built : Regex.ofPattern (Pattern.wrap ⟨false, true⟩ looping) = .ok ⟨Pattern.wrap ⟨false, true⟩ looping,
      [⟨0, false⟩, ⟨1, false⟩, ⟨2, true⟩], [⟨0, 1, [], []⟩, ⟨1, 1, ['a'], [0]⟩, ⟨1, 2, ['b'], []⟩],
      0, ⟨false, true⟩, 1⟩ := by cbv
  have built' : Regex.ofPattern (Pattern.wrap ⟨false, true⟩ branching) = .ok ⟨Pattern.wrap ⟨false, true⟩ branching,
      [⟨0, false⟩, ⟨1, false⟩, ⟨2, false⟩, ⟨3, false⟩, ⟨4, true⟩], [⟨0, 1, ['a'], [0]⟩, ⟨0, 2, ['b'], [0]⟩,
        ⟨1, 3, [], [0]⟩, ⟨2, 3, [], [0]⟩, ⟨3, 4, ['c'], []⟩], 0, ⟨false, true⟩, 1⟩ := rfl
  have unaccepted : left.automaton.isTerminal left.automaton.start = false := by
    cases compiled.symm.trans built
    rfl
  have missed : left.find ['b', 'c'] = none := by
    cases compiled.symm.trans built
    cbv
  have found : right.find ['b', 'c'] = some ⟨0, ['b', 'c'], [['b']]⟩ := by
    cases compiled'.symm.trans built'
    cbv
  have either : ∀ input, both.find input = Match.either 1 1 (left.find input) (right.find input) := finds unaccepted
  refine ⟨plain, plain', rfl, rfl, left, right, both, compiled, compiled', compiled_both, unaccepted, either, ?_⟩
  rw [either, missed, found]
  rfl

end Regex
end PatternMachine
