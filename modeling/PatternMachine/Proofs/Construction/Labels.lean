import Mathlib
import PatternMachine.Proofs.Construction.Standing
import PatternMachine.Proofs.Pattern.Enclosing

namespace PatternMachine.Builder

-- The edges hold every literal once and in order, and each names captures of the table in their order. Under its own
-- table a body in which every group is closed has each literal on an edge that names just the captures around it.
-- Every table is read off some text (the empty one off the empty text), so `other` stands for any table there is.
theorem finish_literals {body other : Text} {b : Builder} (scanned : scan (.ofText other) body = .ok b) (anchors : Anchors) :
    ∃ a, b.finish (.ofText other) anchors = .ok a ∧
      a.edges.flatMap (·.text) = body.literals.map (·.char) ∧
      (∀ e ∈ a.edges, e.groups.Pairwise (· < ·) ∧ ∀ index ∈ e.groups, index < a.groupCount) ∧
      (groupFault? body = none → CaptureTable.ofText other = CaptureTable.ofText body →
        a.edges.flatMap Edge.consumed = (body.literals.map fun p => (p.char, (CaptureTable.ofText body).enclosing p.offset)) ∧
        a.groupCount = body.cursors.countP Cursor.opensCapture) := by
  obtain ⟨a, finished, edges, count⟩ := (scan_stands scanned).finish (.ofText other) anchors
  obtain ⟨consumed, groups⟩ := scan_writes scanned
  rw [Token.consumed_body] at consumed
  rw [← edges] at consumed groups
  refine ⟨a, finished, ?_, ?_, fun balanced own => ⟨?_, ?_⟩⟩
  · have texts : a.edges.flatMap (·.text) = (a.edges.flatMap Edge.consumed).map (·.1) := by
      simp [List.map_flatMap, Edge.consumed, Function.comp_def]
    rw [texts, consumed, Cursor.consumed_chars]
    rfl
  · have sorted := CaptureTable.ofCursors_ascending (Text.cursorsFrom_ascending other 0 false).2
    have together : Together (CaptureTable.ofText other) [] body.cursors := ⟨List.Pairwise.nil, fun _ none => nomatch none⟩
    intro e member
    rw [count]
    exact Token.held_listed sorted 0 together (Text.cursorsFrom_ascending body 0 false).2 e.groups (groups e member)
  · rw [own] at consumed
    exact consumed.trans (Cursor.consumed_enclosing .bar (.of_balanced balanced))
  · rw [count, own]
    exact CaptureTable.ofCursors_length balanced

-- `a(b|(?:c)*)(*)`
def layeredBody : Text := ['a', '(', 'b', '|', '(', '?', ':', 'c', ')', '*', ')', '(', '*', ')']

theorem finish_literals_layered :
    groupFault? layeredBody = none ∧ ∃ b a, scan (.ofText layeredBody) layeredBody = .ok b ∧
      b.finish (.ofText layeredBody) ⟨false, false⟩ = .ok a ∧ a.groupCount = 2 ∧
      a.edges.flatMap Edge.consumed = [('a', []), ('b', [0]), ('c', [0]), ('*', [1])] := by
  have scanned : scan (.ofText layeredBody) layeredBody = .ok ⟨Arena.blank 6 [⟨0, 1, ['a'], []⟩, ⟨1, 2, ['b'], [0]⟩,
      ⟨1, 3, [], [0]⟩, ⟨3, 3, ['c'], [0]⟩, ⟨2, 4, [], [0]⟩, ⟨3, 4, [], [0]⟩, ⟨4, 5, ['*'], [1]⟩],
      0, ⟨0, [], 5⟩, [], [], []⟩ := by
    cbv
  obtain ⟨a, finished, _, _, own⟩ := finish_literals scanned ⟨false, false⟩
  have balanced : groupFault? layeredBody = none := by decide
  obtain ⟨consumed, count⟩ := own balanced rfl
  exact ⟨balanced, _, a, scanned, finished, count, consumed⟩

end PatternMachine.Builder
