import PatternMachine.Proofs.Automaton.Tries
import PatternMachine.Proofs.Search.Unguarded

namespace PatternMachine

theorem Automaton.outgoing_eq {a : Automaton} {state : StateId} (live : state < a.states.length) :
    a.outgoing state = Edge.leaving a.edges state := by
  simp [Automaton.outgoing, Automaton.has, Edge.leaving, live]

theorem Edge.collected_unnamed {e : Edge} {index : Nat} (unnamed : index ∉ e.groups) : e.collected index = [] := by
  have none : e.groups.filter (· == index) = [] :=
    List.filter_eq_nil_iff.mpr fun other named same => unnamed (beq_iff_eq.mp same ▸ named)
  unfold Edge.collected
  rw [none]
  rfl

theorem Edge.collected_eq {e : Edge} (distinct : ∀ p ∈ e.consumed, p.2.Nodup) (index : Nat) :
    e.collected index = Consumed.group e.consumed index := by
  cases empty : e.text with
  | nil => simp [Edge.collected, Edge.consumed, Consumed.group, empty]
  | cons c text =>
    have once : e.groups.Nodup := distinct (c, e.groups) (by simp [Edge.consumed, empty])
    have named : (e.groups.filter (· == index)) = if index ∈ e.groups then [index] else [] := by
      rw [List.filter_beq, once.count]
      split <;> rfl
    unfold Edge.collected Edge.consumed Consumed.group
    rw [named]
    split <;> rename_i inside <;> simp [List.filter_map, Function.comp_def, inside]

namespace Search

variable {a : Automaton} {input : Text}

def NoneBefore (a : Automaton) (input : Text) (offset start : Nat) : Prop :=
  ∀ earlier < start, Candidate a.anchors input offset earlier → ¬ Reaches a input ⟨a.start, earlier⟩

-- What a search may answer: nothing where no candidate start reaches acceptance, and otherwise the
-- route that comes first from the least one that does.
inductive Found (a : Automaton) (input : Text) (offset : Nat) : Option Match → Prop where
  | nothing : (∀ start, Candidate a.anchors input offset start → ¬ Reaches a input ⟨a.start, start⟩) →
      Found a input offset none
  | leftmost : Candidate a.anchors input offset start → NoneBefore a input offset start →
      First a input ⟨a.start, start⟩ edges last → Text.slice? input start last.position = some text →
      Found a input offset (some ⟨start, text, collectGroups a.groupCount (edges.filterMap a.edge?)⟩)

theorem findFrom_found (sealed : a.Sealed) (input : Text) (offset : Nat) :
    Found a input offset (a.findFrom input offset) := by
  have listed : ∀ p ∈ candidates a.anchors input offset, Text.from? input p.1 = some p.2 :=
    fun p member => (mem_candidates.mp member).2
  rcases firstMatch_leftmost sealed (fun () _ => ()) () _ listed with
    ⟨failed, unreachable⟩ | ⟨sooner, start, rest, later, edges, last, text, split, before, first, sliced, found⟩
  · have answer : a.findFrom input offset = none := failed
    rw [answer]
    refine .nothing fun start candidate => ?_
    obtain ⟨rest, member⟩ := candidate.listed
    exact unreachable _ member
  · have answer : a.findFrom input offset = some _ := found
    rw [answer]
    have here : (start, rest) ∈ candidates a.anchors input offset := by
      rw [split]
      simp
    refine .leftmost (mem_candidates.mp here).1 ?_ first sliced
    intro earlier less candidate
    obtain ⟨rest', member⟩ := candidate.listed
    have ascending : (candidates a.anchors input offset).Pairwise fun p q => p.1 < q.1 :=
      (Text.suffixes_ascending input 0).filter _
    rw [split] at member ascending
    rcases List.mem_append.mp member with front | back
    · exact before _ front
    · have beyond : start ≤ earlier := by
        rcases List.mem_cons.mp back with same | back
        · exact Nat.le_of_eq (congrArg Prod.fst same).symm
        · exact Nat.le_of_lt ((List.pairwise_cons.mp (List.pairwise_append.mp ascending).2.1).1 _ back)
      exact (Nat.not_lt.mpr beyond less).elim

theorem Found.unique {offset : Nat} {one other : Option Match} (found : Found a input offset one)
    (found' : Found a input offset other) : one = other := by
  cases found with
  | nothing unreachable =>
    cases found' with
    | nothing => rfl
    | leftmost candidate _ first _ => exact (unreachable _ candidate first.reaches).elim
  | @leftmost start edges last text candidate before first sliced =>
    cases found' with
    | nothing unreachable => exact (unreachable _ candidate first.reaches).elim
    | @leftmost start' edges' last' text' candidate' before' first' sliced' =>
      rcases Nat.lt_trichotomy start start' with less | rfl | more
      · exact (before' start less candidate first.reaches).elim
      · cases first.unique first'
        obtain ⟨rest, member⟩ := candidate.listed
        obtain ⟨_, route, _, _⟩ := first.accepting
        obtain ⟨_, route', _, _⟩ := first'.accepting
        have here := (mem_candidates.mp member).2
        cases sliced.symm.trans (route.sliced here)
        cases sliced'.symm.trans (route'.sliced here)
        rfl
      · exact (before start' more candidate' first'.reaches).elim

theorem unguarded_of_tries (sealed : a.Sealed) {exit : StateId → Text → Option Consumed → Prop}
    (ends : ∀ state position rest result, Text.from? input position = some rest → exit state rest result →
      result = some [] ∧ Accepts a input ⟨state, position⟩ ∨ result = none ∧ ¬ Accepts a input ⟨state, position⟩)
    {state : StateId} {untried : List Edge} {rest : Text} {result : Option Consumed}
    (tries : Tries a.edges exit state untried rest result) (listed : untried ⊆ a.edges) {position : Nat}
    (here : Text.from? input position = some rest) :
    ∃ taken : Option (List Edge), Unguarded a input ⟨state, position⟩ untried taken ∧
      result = taken.map fun path => path.flatMap Edge.consumed := by
  have leads : ∀ {e : Edge}, e ∈ a.edges → a.outgoing e.destination = Edge.leaving a.edges e.destination :=
    fun member => Automaton.outgoing_eq (sealed.edges_live _ member).2
  have occurs : ∀ {e : Edge} {position after}, Text.from? input position = some (e.text ++ after) →
      Text.occursAt input position e.text = true := fun here => (Text.occursAt_iff here).mpr ⟨_, rfl⟩
  induction tries generalizing position with
  | spent left =>
    rcases ends _ _ _ _ here left with ⟨rfl, accepts⟩ | ⟨rfl, rejects⟩
    · exact ⟨some [], .accept accepts, rfl⟩
    · exact ⟨none, .fail rejects, rfl⟩
  | @miss rest state later result e misses _ ih =>
    obtain ⟨taken, ran, same⟩ := ih (List.subset_of_cons_subset listed) here
    refine ⟨taken, .reject ?_ ran, same⟩
    apply Bool.eq_false_iff.mpr
    intro present
    obtain ⟨after, whole⟩ := (Text.occursAt_iff here).mp present
    exact misses after whole
  | @hit after more state e later _ ih =>
    obtain ⟨taken, ran, same⟩ := ih List.filter_sublist.subset (Text.from?_advance here)
    cases taken with
    | none => cases same
    | some path =>
      rw [← leads (listed List.mem_cons_self)] at ran
      refine ⟨some (e :: path), .found (occurs here) ran, ?_⟩
      cases same
      rfl
  | @lost after state later result e _ _ ih later_ih =>
    obtain ⟨taken, ran, same⟩ := ih List.filter_sublist.subset (Text.from?_advance here)
    obtain ⟨taken', ran', same'⟩ := later_ih (List.subset_of_cons_subset listed) here
    cases taken with
    | some path => cases same
    | none =>
      rw [← leads (listed List.mem_cons_self)] at ran
      exact ⟨taken', .lost (occurs here) ran ran', same'⟩

end Search

open Search

theorem Automaton.findFrom_first {a : Automaton} {input : Text} {offset : Nat} (sealed : a.Sealed)
    {answer : Nat × Text → Option Match}
    (ran : ∀ p ∈ candidates a.anchors input offset, ∃ taken : Option (List Edge),
      Unguarded a input ⟨a.start, p.1⟩ (a.outgoing a.start) taken ∧
        answer p = taken.map fun path => ⟨p.1, path.flatMap (·.text), collectGroups a.groupCount path⟩) :
    a.findFrom input offset = (candidates a.anchors input offset).findSome? answer := by
  have listed : ∀ p ∈ candidates a.anchors input offset, Text.from? input p.1 = some p.2 :=
    fun p member => (mem_candidates.mp member).2
  have fails : ∀ p ∈ candidates a.anchors input offset, ¬ Reaches a input ⟨a.start, p.1⟩ → answer p = none := by
    intro p member unreachable
    obtain ⟨taken, ran, same⟩ := ran p member
    cases taken with
    | none => exact same
    | some path =>
      obtain ⟨edges, last, first, _⟩ := ran.first
      exact (unreachable first.reaches).elim
  rcases firstMatch_leftmost sealed (fun () _ => ()) () _ listed with
    ⟨failed, unreachable⟩ | ⟨earlier, start, rest, later, edges, last, text, split, before, first, sliced, found⟩
  · have none_found : a.findFrom input offset = none := failed
    rw [none_found]
    exact (List.findSome?_eq_none_iff.mpr fun p member => fails p member (unreachable p member)).symm
  · have answered : a.findFrom input offset = some _ := found
    have here : (start, rest) ∈ candidates a.anchors input offset := by rw [split]; simp
    obtain ⟨taken, ran, same⟩ := ran _ here
    have skipped : earlier.findSome? answer = none := by
      refine List.findSome?_eq_none_iff.mpr fun p member => fails p ?_ (before p member)
      rw [split]
      exact List.mem_append_left _ member
    rw [answered, split, List.findSome?_append, skipped, List.findSome?_cons, same]
    cases taken with
    | none => exact (ran.not_reaches first.reaches).elim
    | some path =>
      obtain ⟨edges', last', other, named⟩ := ran.first
      cases first.unique other
      obtain ⟨passed, route, _, _⟩ := first.accepting
      have whole := route.sliced (listed _ here)
      rw [edges_of_named named] at whole ⊢
      cases sliced.symm.trans whole
      rfl

end PatternMachine
