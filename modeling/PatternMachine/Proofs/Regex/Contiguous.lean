import Mathlib
import PatternMachine.Proofs.Construction.Contiguous
import PatternMachine.Proofs.Regex.Acceptance
import PatternMachine.Proofs.Search.Answers

namespace PatternMachine

theorem Search.Route.walk {a : Automaton} {input : Text} {c last : Search.Configuration} {edges : List Nat}
    {passed : List Search.Configuration} (sealed : a.Sealed) (route : Search.Route a input c edges passed last) :
    Walk a.edges c.state (edges.filterMap a.edge?) last.state := by
  induction route with
  | stop => exact .stay
  | @go c edge d edges passed last leads _ ih =>
    obtain ⟨e, leaving, _, rfl⟩ := Search.leads_iff.mp leads
    obtain ⟨member, origin⟩ := (Automaton.mem_leaving_iff sealed).mp ⟨edge, leaving⟩
    rw [List.filterMap_cons, (Automaton.mem_leaving.mp leaving).2, ← origin]
    exact .step member ih

def Idle (index : Nat) (edges : List Edge) : Prop := ∀ e ∈ edges, index ∈ e.groups → e.text = []

theorem Idle.cons {index : Nat} {e : Edge} {edges : List Edge} (first : index ∈ e.groups → e.text = [])
    (rest : Idle index edges) : Idle index (e :: edges) := by
  intro e' member
  rcases List.mem_cons.mp member with rfl | later
  · exact first
  · exact rest e' later

namespace Passed

variable {index : Nat} {first next start stop : StateId} {edges path : List Edge} {held past : StateId → Prop}

theorem walk_past (passed : Passed index first next edges held past) (walk : Walk edges start path stop) (place : past start) :
    Idle index path := by
  induction walk with
  | stay =>
    intro e member
    cases member
  | step member _ ih =>
    obtain ⟨past', silent⟩ := passed.closed _ member place
    exact (ih past').cons silent

theorem walk_held (passed : Passed index first next edges held past) (walk : Walk edges start path stop) (place : held start) :
    ∃ block back, path = block ++ back ∧ (∀ e ∈ block, index ∈ e.groups ∨ e.text = []) ∧ Idle index back := by
  induction walk with
  | stay => exact ⟨[], [], rfl, by simp, by simp [Idle]⟩
  | @step path stop e member rest ih =>
    rcases passed.leaves e member place with ⟨further, inside⟩ | gone
    · obtain ⟨block, back, rfl, within, idle⟩ := ih further
      exact ⟨e :: block, back, rfl, List.forall_mem_cons.mpr ⟨inside, within⟩, idle⟩
    · have idle := passed.walk_past rest gone
      by_cases named : index ∈ e.groups
      · exact ⟨[e], path, rfl, by simp [named], idle⟩
      · exact ⟨[], e :: path, rfl, by simp, idle.cons fun impossible => (named impossible).elim⟩

theorem walk_block (passed : Passed index first next edges held past) (walk : Walk edges start path stop) :
    ∃ front block back, path = front ++ block ++ back ∧ Idle index front ∧
      (∀ e ∈ block, index ∈ e.groups ∨ e.text = []) ∧ Idle index back := by
  induction walk with
  | stay => exact ⟨[], [], [], rfl, by simp [Idle], by simp, by simp [Idle]⟩
  | @step path stop e member rest ih =>
    by_cases reads : index ∈ e.groups ∧ e.text ≠ []
    · obtain ⟨block, back, rfl, inside, idle⟩ := passed.walk_held rest (passed.enters e member reads.1 reads.2)
      exact ⟨[], e :: block, back, rfl, by simp [Idle], List.forall_mem_cons.mpr ⟨.inl reads.1, inside⟩, idle⟩
    · obtain ⟨front, block, back, rfl, before, inside, after⟩ := ih
      refine ⟨e :: front, block, back, rfl, before.cons fun named => ?_, inside, after⟩
      simpa [named] using reads

end Passed

theorem Sheaf.Once.walk_block {index : Nat} {first start stop : StateId} {sheaf : Sheaf} {path : List Edge}
    (once : sheaf.Once index first) (walk : Walk sheaf.edges start path stop) :
    ∃ front block back, path = front ++ block ++ back ∧ Idle index front ∧
      (∀ e ∈ block, index ∈ e.groups ∨ e.text = []) ∧ Idle index back := by
  rcases once with none | ⟨held, past, passed⟩
  · refine ⟨path, [], [], by simp, fun e member named => ?_, by simp, by simp [Idle]⟩
    exact (none e (walk.subset member) named).elim
  · exact passed.walk_block walk

theorem Edge.collected_named {e : Edge} {index : Nat} (once : e.groups.Nodup) (named : index ∈ e.groups) :
    e.collected index = e.text := by
  have alone : e.groups.filter (· == index) = [index] := by
    rw [List.filter_beq, once.count, if_pos named]
    rfl
  simp [Edge.collected, alone]

theorem Edge.collected_silent {e : Edge} (silent : e.text = []) (index : Nat) : e.collected index = [] := by
  simp [Edge.collected, silent]

theorem Edge.collected_block {index : Nat} {block : List Edge} (once : ∀ e ∈ block, e.groups.Nodup)
    (inside : ∀ e ∈ block, index ∈ e.groups ∨ e.text = []) : block.flatMap (·.collected index) = block.flatMap (·.text) := by
  refine List.flatMap_congr fun e member => ?_
  rcases inside e member with named | silent
  · exact collected_named (once e member) named
  · rw [collected_silent silent, silent]

theorem Edge.collected_idle {index : Nat} {edges : List Edge} (idle : Idle index edges) :
    edges.flatMap (·.collected index) = [] := by
  rw [List.flatMap_eq_nil_iff]
  intro e member
  by_cases named : index ∈ e.groups
  · exact collected_silent (idle e member named) index
  · exact collected_unnamed named

namespace Regex

theorem find_contiguous {source : Text} {p : Pattern} (parsed : Pattern.parse source = .ok p) :
    ∃ tree r, Tree.read p.body = some tree ∧ Regex.ofPattern source = .ok r ∧
      ∀ index, index < tree.captures → index ∉ Item.loopedAny tree.body → Item.clearEach index tree.body = true →
        ∀ input m, r.find input = some m → ∃ text, m.group? index = some text ∧ text <:+: m.text := by
  obtain ⟨tree, r, read, compiled, sealed, laid, _, count, _⟩ := Regex.ofPattern_laid parsed
  refine ⟨tree, r, read, compiled, ?_⟩
  intro index inside unlooped clear input m found
  have numbered := Tree.read_indices read
  have distinct : (Item.indicesAny tree.body).Nodup := numbered ▸ List.nodup_range
  have own : index ∈ Item.indicesAny tree.body := numbered ▸ List.mem_range.mpr inside
  have once : (Item.layAny [] 0 1 tree.body).Once index 1 :=
    Item.layAny_once List.not_mem_nil Nat.zero_lt_one tree.body distinct own unlooped clear
  have tagged := Item.layAny_tagged [] 0 1 tree.body
  have answered : Search.Found r.automaton input 0 (some m) := found ▸ Search.findFrom_found sealed input 0
  cases answered with
  | @leftmost start edges last text candidate _ first sliced =>
    obtain ⟨passed, route, _, _⟩ := first.accepting
    obtain ⟨rest, listed⟩ := candidate.listed
    cases sliced.symm.trans (route.sliced (Search.mem_candidates.mp listed).2)
    have walk := route.walk sealed
    rw [laid.edges] at walk
    obtain ⟨front, block, back, whole, before, carried, after⟩ := once.walk_block walk
    refine ⟨block.flatMap (·.text), ?_, ?_⟩
    · have once : ∀ e ∈ block, e.groups.Nodup := by
        intro e member
        have present : e ∈ (Item.layAny [] 0 1 tree.body).edges := walk.subset (by simp [whole, member])
        exact (tagged e present).2.nodup distinct
      have collected : (front ++ block ++ back).flatMap (·.collected index) = block.flatMap (·.text) := by
        simp [Edge.collected_idle before, Edge.collected_block once carried, Edge.collected_idle after]
      rw [← collected, ← whole]
      simp [Match.group?, collectGroups, count, inside]
    · rw [whole, List.flatMap_append, List.flatMap_append]
      exact List.infix_append _ _ _

-- `(a*)()*(b()*)c*`
def passing : Pattern :=
  let body := ['(', 'a', '*', ')', '(', ')', '*', '(', 'b', '(', ')', '*', ')', 'c', '*']
  ⟨body, body, ⟨false, false⟩⟩

theorem find_contiguous_passing :
    Pattern.parse passing.source = .ok passing ∧ ∃ tree r m, Tree.read passing.body = some tree ∧
      Regex.ofPattern passing.source = .ok r ∧ r.find ['a', 'a', 'b', 'c'] = some m ∧
      ∀ index ∈ [0, 2], index < tree.captures ∧ index ∉ Item.loopedAny tree.body ∧ Item.clearEach index tree.body = true ∧
        ∃ text, m.group? index = some text ∧ text <:+: m.text := by
  have parsed : Pattern.parse passing.source = .ok passing := rfl
  obtain ⟨tree, r, read, compiled, pieces⟩ := find_contiguous parsed
  have shape : Tree.read passing.body =
      some ⟨[[.group (some 0) [[.char 'a' true]] false, .group (some 1) [[]] true,
        .group (some 2) [[.char 'b' false, .group (some 3) [[]] true]] false, .char 'c' true]], 4⟩ := rfl
  have built : Regex.ofPattern passing.source = .ok ⟨passing.source, [⟨0, false⟩, ⟨1, false⟩, ⟨2, true⟩],
      [⟨0, 1, [], [0]⟩, ⟨1, 1, ['a'], [0]⟩, ⟨1, 2, ['b'], [2]⟩, ⟨2, 2, ['c'], []⟩], 0, ⟨false, false⟩, 4⟩ := by cbv
  have found : r.find ['a', 'a', 'b', 'c'] = some ⟨0, ['a', 'a', 'b', 'c'], [['a', 'a'], [], ['b'], []]⟩ := by
    cases compiled.symm.trans built
    cbv
  have clear : ∀ index ∈ [0, 2], index < tree.captures ∧ index ∉ Item.loopedAny tree.body ∧
      Item.clearEach index tree.body = true := by
    cases read.symm.trans shape
    decide
  refine ⟨parsed, tree, r, _, read, compiled, found, fun index listed => ?_⟩
  obtain ⟨inside, unlooped, clear⟩ := clear index listed
  exact ⟨inside, unlooped, clear, pieces index inside unlooped clear _ _ found⟩

-- `(a*)b*`
def adjacent : Pattern := ⟨['(', 'a', '*', ')', 'b', '*'], ['(', 'a', '*', ')', 'b', '*'], ⟨false, false⟩⟩

-- Both loops lie on one state, so the second one does not close the capture for good.
theorem find_adjacent :
    ∃ tree r m, Pattern.parse adjacent.source = .ok adjacent ∧ Tree.read adjacent.body = some tree ∧
      0 < tree.captures ∧ 0 ∉ Item.loopedAny tree.body ∧ Regex.ofPattern adjacent.source = .ok r ∧
      r.find ['a', 'b', 'a'] = some m ∧ m.group? 0 = some ['a', 'a'] ∧ ¬ ['a', 'a'] <:+: m.text := by
  have parsed : Pattern.parse adjacent.source = .ok adjacent := rfl
  have shape : Tree.read adjacent.body = some ⟨[[.group (some 0) [[.char 'a' true]] false, .char 'b' true]], 1⟩ := rfl
  have built : Regex.ofPattern adjacent.source = .ok ⟨adjacent.source, [⟨0, false⟩, ⟨1, true⟩],
      [⟨0, 1, [], [0]⟩, ⟨1, 1, ['a'], [0]⟩, ⟨1, 1, ['b'], []⟩], 0, ⟨false, false⟩, 1⟩ := rfl
  refine ⟨_, _, ⟨0, ['a', 'b', 'a'], [['a', 'a']]⟩, parsed, shape, Nat.zero_lt_one, by decide, built, ?_, rfl, by decide⟩
  cbv

end Regex
end PatternMachine
