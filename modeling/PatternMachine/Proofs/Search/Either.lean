import PatternMachine.Proofs.Search.Parts

namespace PatternMachine

namespace Placement

variable (p : Placement) {path : List Edge}

theorem collected_of (around : p.around = []) (e : Edge) (index : Nat) :
    (p.edge e).collected (p.captures + index) = e.collected index := by
  have named : (p.edge e).groups = e.groups.map (· + p.captures) := by simp [edge, groups, around]
  have same : ((· == p.captures + index) ∘ (· + p.captures) : Nat → Bool) = (· == index) := by
    funext other
    rw [Bool.eq_iff_iff, Function.comp, beq_iff_eq, beq_iff_eq]
    omega
  unfold Edge.collected
  rw [named, List.filter_map, same, List.flatMap_map]
  rfl

theorem collected_before (around : p.around = []) (e : Edge) {index : Nat} (before : index < p.captures) :
    (p.edge e).collected index = [] := by
  apply Edge.collected_unnamed
  simp only [edge, groups, around, List.nil_append, List.mem_map]
  rintro ⟨other, _, rfl⟩
  omega

theorem collectGroups_placed (around : p.around = []) {count : Nat}
    (named : ∀ e ∈ path, ∀ index ∈ e.groups, index < count) (later : Nat) :
    collectGroups (p.captures + (count + later)) (path.map p.edge) =
      List.replicate p.captures [] ++ collectGroups count path ++ List.replicate later [] := by
  have before : ∀ index ∈ List.range p.captures, (path.map p.edge).flatMap (·.collected index) = [] := by
    intro index member
    rw [List.flatMap_map, List.flatMap_eq_nil_iff]
    exact fun e _ => p.collected_before around e (List.mem_range.mp member)
  have own : ∀ index ∈ List.range count,
      (path.map p.edge).flatMap (·.collected (p.captures + index)) = path.flatMap (·.collected index) := by
    intro index _
    rw [List.flatMap_map]
    exact List.flatMap_congr fun e _ => p.collected_of around e index
  have after : ∀ index ∈ List.range later,
      (path.map p.edge).flatMap (·.collected (p.captures + (count + index))) = [] := by
    intro index _
    rw [List.flatMap_map, List.flatMap_eq_nil_iff]
    intro e member
    rw [p.collected_of around]
    refine Edge.collected_unnamed fun inside => ?_
    have bound := named e member _ inside
    omega
  unfold collectGroups
  simp only [List.range_add, List.map_append, List.map_map, Function.comp_def]
  rw [List.map_congr_left before, List.map_congr_left own, List.map_congr_left after, List.map_const', List.map_const',
    List.length_range, List.length_range, List.append_assoc]

end Placement

namespace Match

def padded (before after : Nat) (m : Match) : Match :=
  { m with groups := List.replicate before [] ++ m.groups ++ List.replicate after [] }

-- Of what two alternatives match the one that starts first, and the first one's where both start
-- together; with the captures of both, `count` of the first alternative and `count'` of the second.
def either (count count' : Nat) : Option Match → Option Match → Option Match
  | some m, some n => if m.start ≤ n.start then some (m.padded 0 count') else some (n.padded count 0)
  | some m, none => some (m.padded 0 count')
  | none, some n => some (n.padded count 0)
  | none, none => none

variable {count count' : Nat} {m n : Match}

theorem either_of_le (le : m.start ≤ n.start) : either count count' (some m) (some n) = some (m.padded 0 count') := if_pos le

theorem either_of_lt (lt : n.start < m.start) : either count count' (some m) (some n) = some (n.padded count 0) :=
  if_neg (Nat.not_le_of_lt lt)

end Match

namespace Search

theorem Before.shifted {edges others : List Nat} (before : Before edges others) (offset : Nat) :
    Before (edges.map (· + offset)) (others.map (· + offset)) := by
  induction before with
  | longer => exact .longer
  | earlier less => exact .earlier (Nat.add_lt_add_right less offset)
  | later _ ih => exact .later ih

def Named (a : Automaton) : Prop := ∀ e ∈ a.edges, ∀ index ∈ e.groups, index < a.groupCount

-- Two copies that have only the start in common, all edges of the first before those of the second.
-- The first has to read something before it accepts.
structure Either (whole left right : Automaton) (p : Placement) : Prop where
  inLeft : Part whole left .here 0
  inRight : Part whole right p left.edges.length
  edges : ∀ edge e, whole.edge? edge = some e → left.edge? edge = some e ∨
    ∃ edge' e', right.edge? edge' = some e' ∧ edge = edge' + left.edges.length ∧ e = p.edge e'
  left_start : left.isTerminal left.start = false
  right_start : whole.isTerminal whole.start = right.isTerminal right.start
  around : p.around = []
  captures : p.captures = left.groupCount
  count : whole.groupCount = left.groupCount + right.groupCount
  left_named : Named left
  right_named : Named right

namespace Either

variable {whole left right : Automaton} {p : Placement} {input : Text} {position : Nat} {last : Configuration}
  {edges : List Nat} {passed : List Configuration}

theorem anchors (either : Either whole left right p) : left.anchors = right.anchors :=
  either.inLeft.anchors.symm.trans either.inRight.anchors

theorem start_left (either : Either whole left right p) (position : Nat) :
    (⟨whole.start, position⟩ : Configuration) = Placement.here.configuration ⟨left.start, position⟩ :=
  congrArg (Configuration.mk · position) either.inLeft.start

theorem start_right (either : Either whole left right p) (position : Nat) :
    (⟨whole.start, position⟩ : Configuration) = p.configuration ⟨right.start, position⟩ :=
  congrArg (Configuration.mk · position) either.inRight.start

theorem left_begins (either : Either whole left right p)
    (arrives : Arrives left input ⟨left.start, position⟩ edges passed last) : edges ≠ [] := by
  obtain ⟨route, accepts⟩ := arrives
  rintro rfl
  cases route
  exact Bool.false_ne_true (either.left_start.symm.trans accepts.1)

theorem arrives_left (either : Either whole left right p)
    (arrives : Arrives left input ⟨left.start, position⟩ edges passed last) :
    Arrives whole input ⟨whole.start, position⟩ (edges.map (· + 0)) (passed.map Placement.here.configuration)
      (Placement.here.configuration last) := by
  rw [either.start_left]
  exact either.inLeft.arrives arrives fun empty => (either.left_begins arrives empty).elim

theorem arrives_right (either : Either whole left right p)
    (arrives : Arrives right input ⟨right.start, position⟩ edges passed last) :
    Arrives whole input ⟨whole.start, position⟩ (edges.map (· + left.edges.length)) (passed.map p.configuration)
      (p.configuration last) := by
  rw [either.start_right]
  refine either.inRight.arrives arrives fun _ => ?_
  rw [← either.right_start, either.inRight.start]

theorem arrives (either : Either whole left right p)
    (arrives : Arrives whole input ⟨whole.start, position⟩ edges passed last) :
    ArrivesIn left .here 0 input ⟨left.start, position⟩ edges passed last ∨
      ArrivesIn right p left.edges.length input ⟨right.start, position⟩ edges passed last := by
  obtain ⟨route, accepts⟩ := arrives
  cases route with
  | stop =>
    refine .inr ⟨[], _, _, ⟨.stop, ?_⟩, rfl, congrArg ([·]) (either.start_right position), either.start_right position⟩
    rw [either.start_right] at accepts
    refine (either.inRight.accepts ?_).mp accepts
    rw [← either.right_start, either.inRight.start]
  | @go _ edge d edges passed _ first rest =>
    obtain ⟨e, at_edge, _⟩ := (leads_iff_edge either.inLeft.whole_sealed).mp first
    rcases either.edges edge e at_edge with at_left | ⟨edge', e', at_right, rfl, rfl⟩
    · rw [either.start_left] at first ⊢
      refine .inl (either.inLeft.arrives_cons at_left first fun same => ?_)
      subst same
      exact either.inLeft.arrives_back (List.mem_of_getElem? at_left) rfl ⟨rest, accepts⟩
    · rw [either.start_right] at first ⊢
      refine .inr (either.inRight.arrives_cons at_right first fun same => ?_)
      subst same
      exact either.inRight.arrives_back (List.mem_of_getElem? at_right) rfl ⟨rest, accepts⟩

theorem reaches (either : Either whole left right p) : Reaches whole input ⟨whole.start, position⟩ ↔
    Reaches left input ⟨left.start, position⟩ ∨ Reaches right input ⟨right.start, position⟩ := by
  constructor
  · intro reaches
    obtain ⟨edges, passed, last, arrives⟩ := reaches
    rcases either.arrives arrives with ⟨_, _, _, arrives', _⟩ | ⟨_, _, _, arrives', _⟩
    · exact .inl ⟨_, _, _, arrives'⟩
    · exact .inr ⟨_, _, _, arrives'⟩
  · intro reaches
    rcases reaches with ⟨edges, passed, last, arrives⟩ | ⟨edges, passed, last, arrives⟩
    · exact ⟨_, _, _, either.arrives_left arrives⟩
    · exact ⟨_, _, _, either.arrives_right arrives⟩

theorem accepting (either : Either whole left right p)
    (accepting : Accepting whole input ⟨whole.start, position⟩ edges last) :
    (∃ edges' last', Accepting left input ⟨left.start, position⟩ edges' last' ∧ edges = edges'.map (· + 0)) ∨
      ∃ edges' last', Accepting right input ⟨right.start, position⟩ edges' last' ∧
        edges = edges'.map (· + left.edges.length) := by
  obtain ⟨passed, distinct, arrives⟩ := accepting_iff.mp accepting
  rcases either.arrives arrives with ⟨edges', passed', last', arrives', rfl, rfl, rfl⟩ |
    ⟨edges', passed', last', arrives', rfl, rfl, rfl⟩
  · exact .inl ⟨edges', last', accepting_iff.mpr ⟨passed', distinct.of_map, arrives'⟩, rfl⟩
  · exact .inr ⟨edges', last', accepting_iff.mpr ⟨passed', distinct.of_map, arrives'⟩, rfl⟩

theorem first_left (either : Either whole left right p) (first : First left input ⟨left.start, position⟩ edges last) :
    First whole input ⟨whole.start, position⟩ (edges.map (· + 0)) (Placement.here.configuration last) := by
  obtain ⟨passed, distinct, arrives⟩ := accepting_iff.mp first.accepting
  refine ⟨accepting_iff.mpr ⟨_, distinct.map Placement.here.configuration_injective, either.arrives_left arrives⟩, ?_⟩
  intro others stop accepting
  rcases either.accepting accepting with ⟨others', stop', accepting', rfl⟩ | ⟨others', stop', accepting', rfl⟩
  · rcases first.least others' stop' accepting' with rfl | before
    · exact .inl rfl
    · exact .inr (before.shifted 0)
  · apply Or.inr
    have begins := either.left_begins arrives
    obtain ⟨route, _⟩ := arrives
    cases route with
    | stop => exact (begins rfl).elim
    | @go _ edge _ edges _ _ leads _ =>
      obtain ⟨e, at_edge, _⟩ := (leads_iff_edge either.inLeft.part_sealed).mp leads
      have inside : edge < left.edges.length := (List.getElem?_eq_some_iff.mp at_edge).1
      cases others' with
      | nil => exact .longer
      | cons other others' => exact .earlier (Nat.lt_of_lt_of_le inside (Nat.le_add_left _ _))

theorem first_right (either : Either whole left right p) (unreachable : ¬ Reaches left input ⟨left.start, position⟩)
    (first : First right input ⟨right.start, position⟩ edges last) :
    First whole input ⟨whole.start, position⟩ (edges.map (· + left.edges.length)) (p.configuration last) := by
  obtain ⟨passed, distinct, arrives⟩ := accepting_iff.mp first.accepting
  refine ⟨accepting_iff.mpr ⟨_, distinct.map p.configuration_injective, either.arrives_right arrives⟩, ?_⟩
  intro others stop accepting
  rcases either.accepting accepting with ⟨others', stop', accepting', rfl⟩ | ⟨others', stop', accepting', rfl⟩
  · obtain ⟨_, _, arrives'⟩ := accepting_iff.mp accepting'
    exact (unreachable ⟨_, _, _, arrives'⟩).elim
  · rcases first.least others' stop' accepting' with rfl | before
    · exact .inl rfl
    · exact .inr (before.shifted _)

end Either

variable {whole left right part : Automaton} {p : Placement} {input text : Text} {offset start : Nat} {last : Configuration}
  {edges : List Nat}

theorem Part.found {shift later : Nat} (copy : Part whole part p shift) (around : p.around = []) (named : Named part)
    (count : whole.groupCount = p.captures + (part.groupCount + later))
    (candidate : Candidate part.anchors input offset start) (before : NoneBefore whole input offset start)
    (one : First part input ⟨part.start, start⟩ edges last)
    (first : First whole input ⟨whole.start, start⟩ (edges.map (· + shift)) (p.configuration last))
    (sliced : Text.slice? input start last.position = some text) :
    Found whole input offset
      (some (Match.padded p.captures later ⟨start, text, collectGroups part.groupCount (edges.filterMap part.edge?)⟩)) := by
  have names : ∀ e ∈ edges.filterMap part.edge?, ∀ index ∈ e.groups, index < part.groupCount := by
    intro e member
    obtain ⟨edge, _, at_edge⟩ := List.mem_filterMap.mp member
    exact named e (List.mem_of_getElem? at_edge)
  obtain ⟨passed, route, _⟩ := one.accepting
  have groups := p.collectGroups_placed around names later
  rw [← count, ← copy.path route] at groups
  rw [← copy.anchors] at candidate
  unfold Match.padded
  rw [← groups]
  exact .leftmost candidate before first sliced

namespace Either

theorem noneBefore (either : Either whole left right p) (before : NoneBefore left input offset start)
    (before' : NoneBefore right input offset start) : NoneBefore whole input offset start := by
  intro earlier less candidate reaches
  rcases either.reaches.mp reaches with reaches | reaches
  · exact before earlier less (either.inLeft.anchors ▸ candidate) reaches
  · exact before' earlier less (either.inRight.anchors ▸ candidate) reaches

theorem found_left (either : Either whole left right p) (candidate : Candidate left.anchors input offset start)
    (before : NoneBefore left input offset start) (before' : NoneBefore right input offset start)
    (first : First left input ⟨left.start, start⟩ edges last)
    (sliced : Text.slice? input start last.position = some text) :
    Found whole input offset
      (some (Match.padded 0 right.groupCount ⟨start, text, collectGroups left.groupCount (edges.filterMap left.edge?)⟩)) := by
  have count : whole.groupCount = 0 + (left.groupCount + right.groupCount) := by
    rw [either.count, Nat.zero_add]
  exact either.inLeft.found rfl either.left_named count candidate (either.noneBefore before before') first
    (either.first_left first) sliced

theorem found_right (either : Either whole left right p) (candidate : Candidate right.anchors input offset start)
    (before : NoneBefore left input offset start) (before' : NoneBefore right input offset start)
    (unreachable : ¬ Reaches left input ⟨left.start, start⟩) (first : First right input ⟨right.start, start⟩ edges last)
    (sliced : Text.slice? input start last.position = some text) :
    Found whole input offset
      (some (Match.padded left.groupCount 0 ⟨start, text, collectGroups right.groupCount (edges.filterMap right.edge?)⟩)) := by
  have count : whole.groupCount = p.captures + (right.groupCount + 0) := by
    rw [either.count, either.captures, Nat.add_zero]
  rw [← either.captures]
  exact either.inRight.found either.around either.right_named count candidate (either.noneBefore before before') first
    (either.first_right unreachable first) sliced

theorem found (either : Either whole left right p) {m n : Option Match} (found : Found left input offset m)
    (found' : Found right input offset n) :
    Found whole input offset (Match.either left.groupCount right.groupCount m n) := by
  cases found with
  | nothing unreachable =>
    cases found' with
    | nothing unreachable' =>
      refine .nothing fun start candidate reaches => ?_
      rcases either.reaches.mp reaches with reaches | reaches
      · exact unreachable start (either.inLeft.anchors ▸ candidate) reaches
      · exact unreachable' start (either.inRight.anchors ▸ candidate) reaches
    | @leftmost start _ _ _ candidate before first sliced =>
      exact either.found_right candidate (fun earlier _ => unreachable earlier) before
        (unreachable start (either.anchors ▸ candidate)) first sliced
  | @leftmost start _ _ _ candidate before first sliced =>
    cases found' with
    | nothing unreachable => exact either.found_left candidate before (fun earlier _ => unreachable earlier) first sliced
    | @leftmost start' _ _ _ candidate' before' first' sliced' =>
      rcases Nat.lt_or_ge start' start with less | le
      · rw [Match.either_of_lt less]
        exact either.found_right candidate' (fun earlier less' => before earlier (Nat.lt_trans less' less)) before'
          (before start' less (either.anchors ▸ candidate')) first' sliced'
      · rw [Match.either_of_le le]
        exact either.found_left candidate before
          (fun earlier less => before' earlier (Nat.lt_of_lt_of_le less le)) first sliced

end Either
end Search
end PatternMachine
