import PatternMachine.Proofs.Search.Exploration

namespace PatternMachine.Search

variable {a : Automaton} {input : Text} {origin : Configuration}

theorem Trail.accepting (trail : Trail a input origin (top :: lower) edges tried untried)
    (accepts : Accepts a input top.here) : Accepting a input origin edges top.here := by
  obtain ⟨_, _, same, whole⟩ := trail.route
  cases same
  have route := whole [] [top.here] top.here .stop
  rw [List.append_nil] at route
  refine ⟨_, route, ?_, accepts⟩
  have backwards : ((top :: lower).map Frame.here).reverse.Nodup :=
    List.pairwise_reverse.mpr (trail.nodup.imp Ne.symm)
  simpa using backwards

-- An accepting route either begins with the whole stack or comes after everything that does.
theorem Trail.compare (trail : Trail a input origin stack edges tried untried)
    (route : Route a input origin others passed last) (distinct : passed.Nodup) (accepts : Accepts a input last) :
    (∃ top lower more rest, stack = top :: lower ∧ others = edges ++ more ∧
      passed = (lower.map Frame.here).reverse ++ rest ∧ Route a input top.here more rest last) ∨
      ∀ more, Before (edges ++ more) others := by
  induction trail with
  | origin standing here =>
    subst here
    exact .inl ⟨_, [], others, passed, rfl, rfl, rfl, route⟩
  | @push parent lower edges tried e edge later frame tried' untried' under left occurs here via fresh standing spent ih =>
    rcases ih with ⟨_, _, more, rest, same, rfl, rfl, onward⟩ | after
    · cases same
      cases onward with
      | stop =>
        apply Or.inr
        intro more
        have longer : Before (edges ++ edge :: more) (edges ++ []) := Before.append edges .longer
        simpa using longer
      | @go _ other d more rest _ leads onward =>
        obtain ⟨e', member, occurs', rfl⟩ := leads_iff.mp leads
        rw [Frame.here, under.standing.leaving] at member
        rcases List.mem_append.mp member with earlier | present
        · -- An edge tried before: its route comes back to the stack, which the route has passed.
          obtain ⟨x, passes, held⟩ := under.spent _ earlier occurs' _ _ _ onward accepts
          have again : x ∈ (lower.map Frame.here).reverse ∨ x = parent.here := by
            rcases List.mem_cons.mp held with rfl | below
            · exact .inr rfl
            · exact .inl (List.mem_reverse.mpr below)
          rcases again with below | rfl
          · have apart := (List.nodup_append.mp distinct).2.2 x below x (List.mem_cons_of_mem _ passes)
            exact (apart rfl).elim
          · have once := (List.nodup_append.mp distinct).2.1
            exact ((List.nodup_cons.mp once).1 passes).elim
        · rcases List.mem_cons.mp present with same | beyond
          · cases same
            refine .inl ⟨frame, parent :: lower, more, rest, rfl, by simp, by simp, ?_⟩
            rw [here]
            exact onward
          · have ascending := Automaton.leaving_ascending a parent.state
            rw [under.standing.leaving] at ascending
            have less := (List.pairwise_cons.mp (List.pairwise_append.mp ascending).2.1).1 _ beyond
            apply Or.inr
            intro others
            have before : Before (edges ++ edge :: others) (edges ++ other :: more) :=
              Before.append edges (.earlier less)
            simpa using before
    · apply Or.inr
      intro more
      have before := after (edge :: more)
      simpa using before

theorem Trail.first (trail : Trail a input origin (top :: lower) edges tried [])
    (accepts : Accepts a input top.here) : First a input origin edges top.here := by
  refine ⟨trail.accepting accepts, ?_⟩
  intro others stop other
  obtain ⟨passed, route, distinct, accepting⟩ := other
  rcases trail.compare route distinct accepting with ⟨_, _, more, rest, same, rfl, rfl, onward⟩ | after
  · cases same
    cases onward with
    | stop => exact .inl (by simp)
    | @go _ other d more rest _ leads onward =>
      obtain ⟨e, member, occurs, rfl⟩ := leads_iff.mp leads
      have spent : (e, other) ∈ tried := by
        have listed : (e, other) ∈ tried ++ [] := trail.standing.leaving ▸ member
        simpa using listed
      obtain ⟨x, passes, held⟩ := trail.spent _ spent occurs _ _ _ onward accepting
      rcases List.mem_cons.mp held with rfl | below
      · have once := (List.nodup_append.mp distinct).2.1
        exact ((List.nodup_cons.mp once).1 passes).elim
      · have apart := (List.nodup_append.mp distinct).2.2 x (List.mem_reverse.mpr below) x
          (List.mem_cons_of_mem _ passes)
        exact (apart rfl).elim
  · have before := after []
    rw [List.append_nil] at before
    exact .inr before

theorem mem_candidates {anchors : Anchors} {offset start : Nat} {rest : Text} :
    (start, rest) ∈ candidates anchors input offset ↔
      Candidate anchors input offset start ∧ Text.from? input start = some rest := by
  have suffix : (start, rest) ∈ Text.suffixes 0 input ↔ Text.from? input start = some rest := by
    rw [Text.mem_suffixes, Text.from?_eq_some]
    simp [eq_comm]
  have allowed : (decide (offset ≤ start) && (!anchors.fixedStart || start == 0)) = true ↔
      offset ≤ start ∧ (anchors.fixedStart = true → start = 0) := by
    cases anchors.fixedStart <;> simp
  unfold candidates
  rw [List.mem_filter, suffix, allowed]
  constructor
  · intro listed
    obtain ⟨from_start, notBelow, fixed⟩ := listed
    obtain ⟨before, cut⟩ := Text.from?_eq_some.mp from_start
    exact ⟨⟨Text.isBoundary_iff.mpr ⟨before, rest, cut⟩, notBelow, fixed⟩, from_start⟩
  · intro allowed
    obtain ⟨candidate, from_start⟩ := allowed
    exact ⟨from_start, candidate.notBelow, candidate.fixed⟩

theorem Candidate.listed (candidate : Candidate anchors input offset start) :
    ∃ rest, (start, rest) ∈ candidates anchors input offset := by
  obtain ⟨before, rest, cut⟩ := Text.isBoundary_iff.mp candidate.boundary
  exact ⟨rest, mem_candidates.mpr ⟨candidate, Text.from?_eq_some.mpr ⟨before, cut⟩⟩⟩

theorem matched_of_path (from_start : Text.from? input start = some rest)
    (trail : Trail a input ⟨a.start, start⟩ (top :: lower) edges tried []) (accepts : Accepts a input top.here) :
    matched a start rest (top :: lower) =
      ⟨start, (path (top :: lower)).flatMap (·.text), collectGroups a.groupCount (path (top :: lower))⟩ := by
  obtain ⟨passed, route, _, _⟩ := trail.accepting accepts
  obtain ⟨after, whole, ends⟩ := route.consumes from_start
  rw [edges_of_named trail.path_edges] at whole ends
  have width : top.position - start = Text.size ((path (top :: lower)).flatMap (·.text)) := by
    have stop : top.position = start + _ := ends
    omega
  have taken : Text.takeBytes (top.position - start) rest = (path (top :: lower)).flatMap (·.text) := by
    rw [width, whole]
    exact Text.takeBytes_of_append _ _
  show Match.mk start (Text.takeBytes (top.position - start) rest) _ = _
  rw [taken]

theorem matched_of_trail (from_start : Text.from? input start = some rest)
    (trail : Trail a input ⟨a.start, start⟩ (top :: lower) edges tried []) (accepts : Accepts a input top.here) :
    ∃ text, Text.slice? input start top.position = some text ∧
      matched a start rest (top :: lower) = ⟨start, text, collectGroups a.groupCount (edges.filterMap a.edge?)⟩ := by
  obtain ⟨passed, route, _, _⟩ := trail.accepting accepts
  refine ⟨_, route.sliced from_start, ?_⟩
  rw [matched_of_path from_start trail accepts, edges_of_named trail.path_edges]

theorem firstMatch_leftmost (sealed : a.Sealed) (observe : σ → Event → σ) (seen : σ)
    (starts : List (Nat × Text)) (listed : ∀ p ∈ starts, Text.from? input p.1 = some p.2) :
    (((Setting.of a input).firstMatch observe seen starts).2 = none ∧
        ∀ p ∈ starts, ¬ Reaches a input ⟨a.start, p.1⟩) ∨
      ∃ earlier start rest later edges last text, starts = earlier ++ (start, rest) :: later ∧
        (∀ p ∈ earlier, ¬ Reaches a input ⟨a.start, p.1⟩) ∧
        First a input ⟨a.start, start⟩ edges last ∧ Text.slice? input start last.position = some text ∧
        ((Setting.of a input).firstMatch observe seen starts).2 =
          some ⟨start, text, collectGroups a.groupCount (edges.filterMap a.edge?)⟩ := by
  induction starts generalizing seen with
  | nil =>
    refine .inl ⟨rfl, ?_⟩
    intro p member
    cases member
  | cons p later ih =>
    obtain ⟨start, rest⟩ := p
    have from_start := listed _ List.mem_cons_self
    have began := begin_valid sealed from_start
    have explored := explore_valid sealed observe (observe seen (.start start)) began
    unfold Setting.firstMatch
    rcases hand : (Setting.of a input).explore observe (observe seen (.start start))
      ((Setting.of a input).begin start rest) with ⟨after, answer⟩
    rw [hand] at explored
    rcases explored with ⟨failed, unreachable⟩ | ⟨top, lower, edges, tried, accepted, trail, accepts⟩
    · cases failed
      rcases ih after (fun p member => listed p (List.mem_cons_of_mem _ member)) with
        ⟨none_found, all⟩ | ⟨earlier, start', rest', later', edges, last, text, rfl, before, first, sliced, found⟩
      · refine .inl ⟨none_found, ?_⟩
        intro p member
        rcases List.mem_cons.mp member with rfl | member
        · exact unreachable
        · exact all p member
      · refine .inr ⟨(start, rest) :: earlier, start', rest', later', edges, last, text, rfl, ?_, first, sliced, found⟩
        intro p member
        rcases List.mem_cons.mp member with rfl | member
        · exact unreachable
        · exact before p member
    · cases accepted
      obtain ⟨text, sliced, same⟩ := matched_of_trail from_start trail accepts
      refine .inr ⟨[], start, rest, later, edges, top.here, text, rfl, ?_, trail.first accepts, sliced, ?_⟩
      · intro p member
        cases member
      · exact congrArg some same

theorem First.reaches (first : First a input c edges last) : Reaches a input c := by
  obtain ⟨passed, route, _, accepts⟩ := first.accepting
  exact ⟨edges, passed, last, route, accepts⟩

end PatternMachine.Search

namespace PatternMachine.Automaton

open Search

-- A search from a valid offset fails exactly where no candidate start reaches acceptance. Otherwise
-- its match begins at the least start that does, and covers the route that comes first from there.
theorem findAt_leftmost_first {a : Automaton} {input : Text} {offset : Nat} (sealed : a.Sealed)
    (valid : checkOffset input offset = .ok ()) :
    ∃ found, a.findAt input offset = .ok found ∧
      (found = none ↔ ∀ start, Candidate a.anchors input offset start → ¬ Reaches a input ⟨a.start, start⟩) ∧
      ∀ m, found = some m →
        Candidate a.anchors input offset m.start ∧
        (∀ start, Candidate a.anchors input offset start → Reaches a input ⟨a.start, start⟩ → m.start ≤ start) ∧
        ∃ edges last, First a input ⟨a.start, m.start⟩ edges last ∧
          Text.slice? input m.start last.position = some m.text ∧
          m.groups = collectGroups a.groupCount (edges.filterMap a.edge?) := by
  refine ⟨a.findFrom input offset, by simp [findAt, valid, bind, Except.bind, pure, Except.pure], ?_⟩
  have listed : ∀ p ∈ candidates a.anchors input offset, Text.from? input p.1 = some p.2 :=
    fun p member => (mem_candidates.mp member).2
  rcases firstMatch_leftmost sealed (fun () _ => ()) () _ listed with
    ⟨failed, unreachable⟩ | ⟨earlier, start, rest, later, edges, last, text, split, before, first, sliced, found⟩
  · have answer : a.findFrom input offset = none := failed
    rw [answer]
    refine ⟨⟨fun _ start candidate => ?_, fun _ => rfl⟩, fun m impossible => by cases impossible⟩
    obtain ⟨rest, member⟩ := candidate.listed
    exact unreachable _ member
  · have answer : a.findFrom input offset = some _ := found
    rw [answer]
    have here : (start, rest) ∈ candidates a.anchors input offset := by rw [split]; simp
    have candidate := (mem_candidates.mp here).1
    refine ⟨⟨fun impossible => (nomatch impossible), fun none_reach => ?_⟩, ?_⟩
    · exact (none_reach start candidate first.reaches).elim
    · rintro m same
      cases same
      refine ⟨candidate, ?_, edges, last, first, sliced, rfl⟩
      intro other other_candidate reaches
      obtain ⟨other_rest, member⟩ := other_candidate.listed
      have ascending : (candidates a.anchors input offset).Pairwise fun p q => p.1 < q.1 :=
        (Text.suffixes_ascending input 0).filter _
      rw [split] at member ascending
      rcases List.mem_append.mp member with sooner | present
      · exact (before _ sooner reaches).elim
      · rcases List.mem_cons.mp present with same | beyond
        · exact Nat.le_of_eq (congrArg Prod.fst same).symm
        · exact Nat.le_of_lt ((List.pairwise_cons.mp (List.pairwise_append.mp ascending).2.1).1 _ beyond)

-- Two states in a cycle of empty edges, the second with a loop of its own, sealed from an arena.
def cyclic : Automaton :=
  ⟨[⟨0, false⟩, ⟨1, true⟩], [⟨0, 1, [], []⟩, ⟨1, 0, [], []⟩, ⟨1, 1, ['a'], [0]⟩], 0, ⟨false, true⟩, 1⟩

theorem cyclic_sealed : cyclic.Sealed :=
  ⟨⟨cyclic.states, cyclic.edges⟩, 0, ⟨false, true⟩, 1,
    Arena.Grown.empty.performAll [.addState, .addState, .addEdge ⟨0, 1, [], []⟩,
      .addEdge ⟨1, 0, [], []⟩, .addEdge ⟨1, 1, ['a'], [0]⟩, .markTerminal 1] rfl, rfl⟩

theorem findAt_cyclic :
    cyclic.Sealed ∧ checkOffset ['b', 'a'] 0 = .ok () ∧
    ∃ found, cyclic.findAt ['b', 'a'] 0 = .ok found ∧
      (found = none ↔ ∀ start, Candidate cyclic.anchors ['b', 'a'] 0 start →
        ¬ Reaches cyclic ['b', 'a'] ⟨cyclic.start, start⟩) ∧
      ∀ m, found = some m →
        Candidate cyclic.anchors ['b', 'a'] 0 m.start ∧
        (∀ start, Candidate cyclic.anchors ['b', 'a'] 0 start →
          Reaches cyclic ['b', 'a'] ⟨cyclic.start, start⟩ → m.start ≤ start) ∧
        ∃ edges last, First cyclic ['b', 'a'] ⟨cyclic.start, m.start⟩ edges last ∧
          Text.slice? ['b', 'a'] m.start last.position = some m.text ∧
          m.groups = collectGroups cyclic.groupCount (edges.filterMap cyclic.edge?) :=
  ⟨cyclic_sealed, rfl, findAt_leftmost_first cyclic_sealed rfl⟩

example : cyclic.findAt ['b', 'a'] 0 = .ok (some ⟨1, ['a'], [['a']]⟩) := by cbv

end PatternMachine.Automaton
