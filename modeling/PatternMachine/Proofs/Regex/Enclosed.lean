import PatternMachine.Proofs.Regex.Alternation
import PatternMachine.Proofs.Search.Enclosed

namespace PatternMachine

namespace Sheaf

theorem joined_only {sheaf : Sheaf} {only : StateId} (single : sheaf.stops = [only]) (captures : List Nat) :
    sheaf.joined captures = ⟨sheaf.edges, only, sheaf.next, []⟩ := by
  simp [joined, single]

def enclosed (capturing : Bool) (sheaf : Sheaf) : Strand :=
  ((Placement.inside capturing).sheaf sheaf).joined (Pattern.ownCapture capturing).toList

theorem enclosed_only {sheaf : Sheaf} {only : StateId} (single : sheaf.stops = [only]) (capturing : Bool) :
    sheaf.enclosed capturing = ⟨sheaf.edges.map (Placement.inside capturing).edge, only, sheaf.next, []⟩ := by
  have single' : ((Placement.inside capturing).sheaf sheaf).stops = [only] := by
    simp [Placement.sheaf, single, Placement.inside_state]
  exact joined_only single' _

theorem enclosed_several {sheaf : Sheaf} (several : ∀ only, sheaf.stops ≠ [only]) (capturing : Bool) :
    sheaf.enclosed capturing = ⟨sheaf.edges.map (Placement.inside capturing).edge ++
      sheaf.stops.map (Edge.joining sheaf.next (Pattern.ownCapture capturing).toList), sheaf.next, sheaf.next + 1, []⟩ := by
  have stops : ((Placement.inside capturing).sheaf sheaf).stops = sheaf.stops :=
    List.map_id'' (Placement.inside_state capturing) sheaf.stops
  refine (joined_several (fun only single => several only (stops.symm.trans single)) _).trans ?_
  rw [stops]
  rfl

end Sheaf

theorem Item.layAny_enclosed (capturing : Bool) (body : List (List Item)) :
    Item.layAny [] 0 1 [[.group (Pattern.ownCapture capturing) (Item.shiftAny capturing.toNat body) false]] =
      .cons ((Item.layAny [] 0 1 body).enclosed capturing) (.empty ((Item.layAny [] 0 1 body).enclosed capturing).next) := by
  have placed : (Placement.inside capturing).sheaf (Item.layAny [] 0 1 body) = Item.layAny _ 0 1 _ :=
    Item.layAny_placed (Placement.inside capturing) Nat.zero_lt_one body
  have around : (Placement.inside capturing).groups [] = (Pattern.ownCapture capturing).toList := List.append_nil _
  have flushed : ((Item.layAny [] 0 1 body).enclosed capturing).pending = [] := Sheaf.joined_pending _ _
  rw [around] at placed
  have laid : Item.layAll [] 0 (.start 0 1) [.group (Pattern.ownCapture capturing) (Item.shiftAny capturing.toNat body) false] =
      (Item.layAny [] 0 1 body).enclosed capturing := by
    unfold Sheaf.enclosed
    rw [placed]
    rfl
  rw [Item.layAny, laid, Strand.flush, if_pos flushed]
  rfl

theorem Automaton.find_laid_enclosed {whole part : Automaton} {sheaf : Sheaf} {capturing : Bool}
    (sealed : whole.Sealed) (sealed' : part.Sealed) (anchors : whole.anchors = part.anchors)
    (count : whole.groupCount = part.groupCount + capturing.toNat) (within : sheaf.Within 0 1) (laid : part.Laid sheaf)
    (enclosed : whole.Laid (.cons (sheaf.enclosed capturing) (.empty (sheaf.enclosed capturing).next))) (input : Text) :
    whole.find input = (part.find input).map (Match.enclosed capturing) := by
  have start : whole.start = part.start := enclosed.start.trans laid.start.symm
  have edges : whole.edges = (sheaf.enclosed capturing).edges := enclosed.edges.trans (List.append_nil _)
  have terminal : ∀ id, whole.isTerminal id = true ↔ id = (sheaf.enclosed capturing).stop := by
    intro id
    rw [enclosed.terminal]
    exact List.mem_singleton
  by_cases single : ∃ only, sheaf.stops = [only]
  · obtain ⟨only, single⟩ := single
    rw [Sheaf.enclosed_only single, ← laid.edges] at edges
    rw [Sheaf.enclosed_only single] at terminal
    have added : Search.Enclosed whole part capturing [] :=
      ⟨sealed, sealed', anchors, start, edges.trans (List.append_nil _).symm, by simp, count⟩
    refine added.find (added.mirrors_single fun id => ?_)
    rw [Bool.eq_iff_iff, terminal, laid.terminal, single]
    exact List.mem_singleton.symm
  · have several : ∀ only, sheaf.stops ≠ [only] := fun only same => single ⟨only, same⟩
    rw [Sheaf.enclosed_several several, ← laid.edges] at edges
    rw [Sheaf.enclosed_several several] at terminal
    have silent : ∀ e ∈ sheaf.stops.map (Edge.joining sheaf.next (Pattern.ownCapture capturing).toList), e.text = [] := by
      intro e member
      obtain ⟨id, _, rfl⟩ := List.mem_map.mp member
      rfl
    have gathered : Search.Gathered whole part capturing sheaf.next (Pattern.ownCapture capturing).toList sheaf.stops := {
      enclosed := ⟨sealed, sealed', anchors, start, edges, silent, count⟩
      apart := by
        intro e member
        rw [laid.edges] at member
        exact ⟨Nat.ne_of_lt (within.origin_lt e member), Nat.ne_of_lt (within.edges e member).2.2⟩
      start := by
        rw [laid.start]
        exact Nat.ne_of_lt within.fork_lt_next
      ended := laid.terminal
      other := fun member => Nat.lt_irrefl _ (within.stop_lt _ member)
      terminal := terminal }
    exact gathered.enclosed.find gathered.mirrors

namespace Regex

theorem find_inside {body : Text} {bare : Regex} (plain : Pattern.Plain body) (settled : body.endsEscaping = false)
    {anchors : Anchors} (compiled : Regex.ofPattern (Pattern.wrap anchors body) = .ok bare) {capturing : Bool}
    (unmarked : capturing = true → CaptureTable.plainMark.isPrefixOf body = false) :
    ∃ r, Regex.ofPattern (Pattern.wrap anchors (Pattern.enclose capturing body)) = .ok r ∧
      ∀ input, r.find input = (bare.find input).map (Match.enclosed capturing) := by
  obtain ⟨tree, bare', read, compiled', sealed, laid, anchored, count, captures⟩ := plain.compiled settled anchors
  cases compiled.symm.trans compiled'
  obtain ⟨tree', r, read', compiled', sealed', laid', anchored', count', captures'⟩ :=
    (plain.enclosed settled capturing).compiled (Pattern.Plain.enclosed_settled capturing body) anchors
  cases read'.symm.trans (Tree.read_enclose settled unmarked read)
  refine ⟨r, compiled', fun input => ?_⟩
  have within : (Item.layAny [] 0 1 tree.body).Within 0 1 := Item.layAny_within Nat.zero_lt_one tree.body
  rw [Item.layAny_enclosed] at laid'
  refine Automaton.find_laid_enclosed sealed' sealed (anchored'.trans anchored.symm) ?_ within laid laid' input
  rw [count', ← captures', count, ← captures]

-- A group that captures nothing changes nothing. One that captures adds what it matched, which is all of the
-- match, before the captures of the body.
theorem find_enclosed {body : Text} (plain : Pattern.Plain body) (settled : body.endsEscaping = false) (anchors : Anchors) :
    ∃ bare grouped, Regex.ofPattern (Pattern.wrap anchors body) = .ok bare ∧
      Regex.ofPattern (Pattern.wrap anchors (Pattern.enclose false body)) = .ok grouped ∧
      (∀ input, grouped.find input = bare.find input) ∧
      (CaptureTable.plainMark.isPrefixOf body = false → ∃ captured,
        Regex.ofPattern (Pattern.wrap anchors (Pattern.enclose true body)) = .ok captured ∧
        ∀ input, captured.find input = (bare.find input).map fun m => ⟨m.start, m.text, m.text :: m.groups⟩) := by
  obtain ⟨_, bare, _, compiled, _⟩ := plain.compiled settled anchors
  have silent : false = true → CaptureTable.plainMark.isPrefixOf body = false := fun never => nomatch never
  obtain ⟨grouped, compiled', finds⟩ := find_inside plain settled compiled silent
  refine ⟨bare, grouped, compiled, compiled', fun input => ?_, fun unmarked => ?_⟩
  · rw [finds]
    exact Option.map_id_apply
  · exact find_inside plain settled compiled fun _ => unmarked

-- `a|(b)*|`, which has an end at its start, one on a loop and one after an edge.
def threefold : Text := ['a', '|', '(', 'b', ')', '*', '|']

theorem find_enclosed_threefold :
    Pattern.Plain threefold ∧ threefold.endsEscaping = false ∧ CaptureTable.plainMark.isPrefixOf threefold = false ∧
      ∃ bare grouped captured, Regex.ofPattern (Pattern.wrap ⟨false, true⟩ threefold) = .ok bare ∧
        Regex.ofPattern ['(', '?', ':', 'a', '|', '(', 'b', ')', '*', '|', ')', '$'] = .ok grouped ∧
        Regex.ofPattern ['(', 'a', '|', '(', 'b', ')', '*', '|', ')', '$'] = .ok captured ∧
        (∀ input, grouped.find input = bare.find input) ∧
        (∀ input, captured.find input = (bare.find input).map fun m => ⟨m.start, m.text, m.text :: m.groups⟩) ∧
        captured.find ['c', 'b', 'b'] = some ⟨1, ['b', 'b'], [['b', 'b'], ['b', 'b']]⟩ := by
  have plain : Pattern.Plain threefold := ⟨rfl, by decide⟩
  have unmarked : CaptureTable.plainMark.isPrefixOf threefold = false := rfl
  obtain ⟨bare, grouped, compiled, compiled', same, capturing⟩ := find_enclosed plain rfl ⟨false, true⟩
  obtain ⟨captured, compiled'', adds⟩ := capturing unmarked
  have built : Regex.ofPattern (Pattern.wrap ⟨false, true⟩ threefold) = .ok ⟨Pattern.wrap ⟨false, true⟩ threefold,
      [⟨0, true⟩, ⟨1, true⟩, ⟨2, true⟩], [⟨0, 1, ['a'], []⟩, ⟨0, 2, [], []⟩, ⟨2, 2, ['b'], [0]⟩], 0, ⟨false, true⟩, 1⟩ := by
    cbv
  have found : bare.find ['c', 'b', 'b'] = some ⟨1, ['b', 'b'], [['b', 'b']]⟩ := by
    cases compiled.symm.trans built
    cbv
  refine ⟨plain, rfl, unmarked, bare, grouped, captured, compiled, compiled', compiled'', same, adds, ?_⟩
  rw [adds, found]
  rfl

end Regex
end PatternMachine
