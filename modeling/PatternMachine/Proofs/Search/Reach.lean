import PatternMachine.Proofs.Automaton.Path
import PatternMachine.Proofs.Search.Leftmost

namespace PatternMachine

theorem Automaton.mem_leaving_iff {a : Automaton} (sealed : a.Sealed) {state : StateId} {e : Edge} :
    (∃ edge, (e, edge) ∈ a.leaving state) ↔ e ∈ a.edges ∧ e.origin = state := by
  unfold Automaton.leaving Automaton.has
  constructor
  · intro listed
    obtain ⟨edge, member⟩ := listed
    split at member
    · obtain ⟨inside, origin⟩ := List.mem_filter.mp member
      exact ⟨List.mem_of_getElem? (List.mk_mem_zipIdx_iff_getElem?.mp inside), beq_iff_eq.mp origin⟩
    · cases member
  · intro leaves
    obtain ⟨member, rfl⟩ := leaves
    obtain ⟨edge, at_edge⟩ := List.mem_iff_getElem?.mp member
    have live := (sealed.edges_live e member).1
    refine ⟨edge, ?_⟩
    rw [if_pos (decide_eq_true live)]
    exact List.mem_filter.mpr ⟨List.mk_mem_zipIdx_iff_getElem?.mpr at_edge, beq_self_eq_true _⟩

namespace Search

variable {a : Automaton} {input rest : Text}

theorem route_of_path (sealed : a.Sealed) {state stop : StateId} {text : Text} (path : Path a.edges state text stop)
    {start : Nat} {after : Text} (here : Text.from? input start = some (text ++ after)) :
    ∃ edges passed, Route a input ⟨state, start⟩ edges passed ⟨stop, start + Text.size text⟩ := by
  induction path generalizing start with
  | stay => exact ⟨[], _, .stop⟩
  | @step text stop e member _ ih =>
    rw [List.append_assoc] at here
    obtain ⟨edges, passed, route⟩ := ih (Text.from?_advance here)
    obtain ⟨edge, leaving⟩ := (Automaton.mem_leaving_iff sealed).mpr ⟨member, rfl⟩
    have occurs := (Text.occursAt_iff here).mpr ⟨_, rfl⟩
    have leads : Leads a input ⟨e.origin, start⟩ edge ⟨e.destination, start + Text.size e.text⟩ :=
      leads_iff.mpr ⟨e, leaving, occurs, rfl⟩
    rw [Text.size_append, ← Nat.add_assoc]
    exact ⟨edge :: edges, _, .go leads route⟩

theorem path_of_route (sealed : a.Sealed) {c last : Configuration} {edges : List Nat} {passed : List Configuration}
    (route : Route a input c edges passed last) (here : Text.from? input c.position = some rest) :
    ∃ text after, rest = text ++ after ∧ Path a.edges c.state text last.state ∧
      last.position = c.position + Text.size text := by
  induction route generalizing rest with
  | stop => exact ⟨[], rest, rfl, .stay, rfl⟩
  | @go c edge d edges passed last leads _ ih =>
    obtain ⟨e, leaving, occurs, rfl⟩ := leads_iff.mp leads
    obtain ⟨later, rfl⟩ := (Text.occursAt_iff here).mp occurs
    obtain ⟨text, after, rfl, path, position⟩ := ih (Text.from?_advance here)
    obtain ⟨member, origin⟩ := (Automaton.mem_leaving_iff sealed).mp ⟨edge, leaving⟩
    refine ⟨e.text ++ text, after, by simp, origin ▸ .step member path, ?_⟩
    simp only [position, Configuration.after, Text.size_append, Nat.add_assoc]

theorem reaches_iff_path (sealed : a.Sealed) {state : StateId} {start : Nat}
    (here : Text.from? input start = some rest) :
    Reaches a input ⟨state, start⟩ ↔ ∃ text after stop, rest = text ++ after ∧ Path a.edges state text stop ∧
      a.isTerminal stop = true ∧ (a.anchors.fixedEnd = true → after = []) := by
  have whole := Text.from?_size here
  constructor
  · intro reaches
    obtain ⟨edges, passed, last, route, terminal, ends⟩ := reaches
    obtain ⟨text, after, rfl, path, position⟩ := path_of_route sealed route here
    refine ⟨text, after, last.state, rfl, path, terminal, fun fixed => Text.size_eq_zero.mp ?_⟩
    have at_end := ends fixed
    simp only [Text.size_append] at whole
    have stops : last.position = start + Text.size text := position
    omega
  · intro reads
    obtain ⟨text, after, stop, rfl, path, terminal, ends⟩ := reads
    obtain ⟨edges, passed, route⟩ := route_of_path sealed path here
    refine ⟨edges, passed, _, route, terminal, fun fixed => ?_⟩
    have nothing := ends fixed
    subst nothing
    simpa using whole

theorem isMatch_iff_reaches (sealed : a.Sealed) :
    a.isMatch input = true ↔ ∃ start, Candidate a.anchors input 0 start ∧ Reaches a input ⟨a.start, start⟩ := by
  have listed : ∀ p ∈ candidates a.anchors input 0, Text.from? input p.1 = some p.2 :=
    fun p member => (mem_candidates.mp member).2
  rcases firstMatch_leftmost sealed (fun () _ => ()) () _ listed with
    ⟨failed, unreachable⟩ | ⟨earlier, start, rest, later, edges, last, text, split, _, first, _, found⟩
  · have answer : a.find input = none := failed
    constructor
    · intro matched
      simp [Automaton.isMatch, answer] at matched
    · intro reached
      obtain ⟨start, candidate, reaches⟩ := reached
      obtain ⟨rest, member⟩ := candidate.listed
      exact (unreachable _ member reaches).elim
  · have answer : a.find input = some _ := found
    have here : (start, rest) ∈ candidates a.anchors input 0 := by rw [split]; simp
    constructor
    · intro _
      exact ⟨start, (mem_candidates.mp here).1, first.reaches⟩
    · intro _
      simp [Automaton.isMatch, answer]

end Search
end PatternMachine
