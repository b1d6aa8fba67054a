import PatternMachine.Proofs.Search.Leftmost

namespace PatternMachine.Search

variable {a : Automaton} {input : Text}

-- From a configuration with some of its edges still to try, to the path of the first success or to
-- failure. A run that does not end has no result.
inductive Unguarded (a : Automaton) (input : Text) : Configuration → List Edge → Option (List Edge) → Prop where
  | reject {e : Edge} : Text.occursAt input c.position e.text = false → Unguarded a input c later result →
      Unguarded a input c (e :: later) result
  | found {e : Edge} {taken : List Edge} : Text.occursAt input c.position e.text = true →
      Unguarded a input (c.after e) (a.outgoing e.destination) (some taken) →
      Unguarded a input c (e :: later) (some (e :: taken))
  | lost {e : Edge} : Text.occursAt input c.position e.text = true →
      Unguarded a input (c.after e) (a.outgoing e.destination) none →
      Unguarded a input c later result → Unguarded a input c (e :: later) result
  | accept : Accepts a input c → Unguarded a input c [] (some [])
  | fail : ¬ Accepts a input c → Unguarded a input c [] none

theorem Unguarded.deterministic (one : Unguarded a input c edges result) (other : Unguarded a input c edges result') :
    result = result' := by
  induction one generalizing result' with
  | reject rejects _ ih =>
    cases other with
    | reject _ other => exact ih other
    | found occurs _ => rw [rejects] at occurs; cases occurs
    | lost occurs _ _ => rw [rejects] at occurs; cases occurs
  | found occurs _ ih =>
    cases other with
    | reject rejects _ => rw [occurs] at rejects; cases rejects
    | found _ other => cases ih other; rfl
    | lost _ other _ => cases ih other
  | lost occurs _ _ ih later_ih =>
    cases other with
    | reject rejects _ => rw [occurs] at rejects; cases rejects
    | found _ other => cases ih other
    | lost _ _ other => exact later_ih other
  | accept accepts =>
    cases other with
    | accept _ => rfl
    | fail rejects => exact (rejects accepts).elim
  | fail rejects =>
    cases other with
    | accept accepts => exact (rejects accepts).elim
    | fail _ => rfl

def BeginsIn (pairs : List (Edge × Nat)) (others : List Nat) : Prop :=
  ∀ edge more, others = edge :: more → ∃ e, (e, edge) ∈ pairs

theorem BeginsIn.all (route : Route a input c others passed stop) : BeginsIn (a.leaving c.state) others := by
  intro edge more same
  subst same
  cases route with
  | go leads _ =>
    obtain ⟨e, member, _, _⟩ := leads_iff.mp leads
    exact ⟨e, member⟩

theorem leads_at {c d : Configuration} {e : Edge} {edge : Nat} (member : (e, edge) ∈ a.leaving c.state)
    (leads : Leads a input c edge d) : Text.occursAt input c.position e.text = true ∧ d = c.after e := by
  obtain ⟨e', member', occurs, rfl⟩ := leads_iff.mp leads
  have at_edge := (Automaton.mem_leaving.mp member).2
  have at_edge' := (Automaton.mem_leaving.mp member').2
  cases at_edge.symm.trans at_edge'
  exact ⟨occurs, rfl⟩

theorem BeginsIn.tail (begins : BeginsIn (p :: pairs) others)
    (spent : ∀ more, others ≠ p.2 :: more) : BeginsIn pairs others := by
  intro edge more same
  subst same
  obtain ⟨e, member⟩ := begins edge more rfl
  rcases List.mem_cons.mp member with rfl | member
  · exact (spent more rfl).elim
  · exact ⟨e, member⟩

structure Listed (a : Automaton) (c : Configuration) (tried pairs : List (Edge × Nat)) (untried : List Edge) :
    Prop where
  leaving : a.leaving c.state = tried ++ pairs
  untried : untried = pairs.map (·.1)

theorem Listed.all (a : Automaton) (c : Configuration) :
    Listed a c [] (a.leaving c.state) (a.outgoing c.state) :=
  ⟨rfl, (Automaton.leaving_edges a c.state).symm⟩

theorem Listed.uncons (listed : Listed a c tried pairs (e :: later)) :
    ∃ edge rest, pairs = (e, edge) :: rest ∧ (e, edge) ∈ a.leaving c.state ∧
      Listed a c (tried ++ [(e, edge)]) rest later := by
  obtain ⟨leaving, untried⟩ := listed
  cases pairs with
  | nil => cases untried
  | cons p rest =>
    cases untried
    exact ⟨p.2, rest, rfl, by rw [leaving]; simp, by simp [leaving], rfl⟩

theorem Unguarded.none_accepts (ran : Unguarded a input c untried none) (listed : Listed a c tried pairs untried)
    (begins : BeginsIn pairs others) (route : Route a input c others passed stop) : ¬ Accepts a input stop := by
  generalize failed : none = result at ran
  induction ran generalizing tried pairs others passed with
  | @reject c later result e rejects _ ih =>
    obtain ⟨edge, rest, rfl, member, listed⟩ := listed.uncons
    refine ih listed (begins.tail ?_) route failed
    intro more same
    subst same
    cases route with
    | go leads _ =>
      have occurs := (leads_at member leads).1
      rw [rejects] at occurs
      cases occurs
  | found _ _ _ => cases failed
  | @lost c later result e _ _ _ ih later_ih =>
    obtain ⟨edge, rest, rfl, member, listed⟩ := listed.uncons
    by_cases first : ∃ more, others = edge :: more
    · obtain ⟨more, rfl⟩ := first
      cases route with
      | go leads onward =>
        obtain ⟨_, rfl⟩ := leads_at member leads
        exact ih (Listed.all a (c.after e)) (BeginsIn.all onward) onward rfl
    · exact later_ih listed (begins.tail fun more same => first ⟨more, same⟩) route failed
  | accept _ => cases failed
  | fail rejects =>
    cases route with
    | stop => exact rejects
    | go _ _ =>
      obtain ⟨e, member⟩ := begins _ _ rfl
      cases listed with
      | mk _ untried =>
        have empty := List.map_eq_nil_iff.mp untried.symm
        rw [empty] at member
        cases member

-- A success is a route that comes before every other accepting one. What it passes after its
-- beginning has a shorter success of its own, so that nothing is passed twice.
theorem Unguarded.some_first (ran : Unguarded a input c untried (some taken))
    (listed : Listed a c tried pairs untried) :
    ∃ edges passed last, Route a input c edges (c :: passed) last ∧ Accepts a input last ∧
      edges.map a.edge? = taken.map some ∧ passed.Nodup ∧
      (∀ x ∈ passed, ∃ shorter, Unguarded a input x (a.outgoing x.state) (some shorter) ∧
        shorter.length < taken.length) ∧
      ∀ others passed' stop, BeginsIn pairs others → Route a input c others passed' stop →
        Accepts a input stop → others = edges ∨ Before edges others := by
  generalize same : some taken = result at ran
  induction ran generalizing tried pairs taken with
  | @reject c later result e rejects _ ih =>
    obtain ⟨edge, rest, rfl, member, listed⟩ := listed.uncons
    obtain ⟨edges, passed, last, route, accepts, named, distinct, shorter, least⟩ := ih listed same
    refine ⟨edges, passed, last, route, accepts, named, distinct, shorter, ?_⟩
    intro others passed' stop begins other accepting
    refine least others passed' stop (begins.tail ?_) other accepting
    intro more same
    subst same
    cases other with
    | go leads _ =>
      have occurs := (leads_at member leads).1
      rw [rejects] at occurs
      cases occurs
  | @found c later e taken occurs inner ih =>
    cases same
    obtain ⟨edge, rest, rfl, member, listed⟩ := listed.uncons
    obtain ⟨edges, passed, last, route, accepts, named, distinct, shorter, least⟩ :=
      ih (Listed.all a (c.after e)) rfl
    have leads : Leads a input c edge (c.after e) := leads_iff.mpr ⟨e, member, occurs, rfl⟩
    refine ⟨edge :: edges, _, last, .go leads route, accepts, ?_, List.nodup_cons.mpr ⟨?_, distinct⟩, ?_, ?_⟩
    · simp [named, (Automaton.mem_leaving.mp member).2]
    · intro again
      obtain ⟨short, ran, less⟩ := shorter _ again
      cases inner.deterministic ran
      exact Nat.lt_irrefl _ less
    · intro x present
      rcases List.mem_cons.mp present with rfl | present
      · exact ⟨taken, inner, by simp⟩
      · obtain ⟨short, ran, less⟩ := shorter x present
        exact ⟨short, ran, Nat.lt_succ_of_lt less⟩
    · intro others passed' stop begins other accepting
      cases other with
      | stop => exact .inr .longer
      | @go _ other d more _ _ leads' onward =>
        obtain ⟨e', member'⟩ := begins _ _ rfl
        rcases List.mem_cons.mp member' with equal | beyond
        · cases equal
          obtain ⟨_, rfl⟩ := leads_at member leads'
          rcases least _ _ _ (BeginsIn.all onward) onward accepting with rfl | before
          · exact .inl rfl
          · exact .inr (.later before)
        · have ascending := Automaton.leaving_ascending a c.state
          rw [listed.leaving, List.append_assoc] at ascending
          have less := (List.pairwise_cons.mp (List.pairwise_append.mp ascending).2.1).1 _ beyond
          exact .inr (.earlier less)
  | @lost c later result e _ inner _ ih later_ih =>
    obtain ⟨edge, rest, rfl, member, listed⟩ := listed.uncons
    obtain ⟨edges, passed, last, route, accepts, named, distinct, shorter, least⟩ := later_ih listed same
    refine ⟨edges, passed, last, route, accepts, named, distinct, shorter, ?_⟩
    intro others passed' stop begins other accepting
    refine least others passed' stop (begins.tail ?_) other accepting
    intro more same
    subst same
    cases other with
    | go leads onward =>
      obtain ⟨_, rfl⟩ := leads_at member leads
      exact inner.none_accepts (Listed.all a (c.after e)) (BeginsIn.all onward) onward accepting
  | accept accepts =>
    cases same
    refine ⟨[], [], _, .stop, accepts, rfl, List.nodup_nil, fun x member => (nomatch member), ?_⟩
    intro others passed' stop begins other accepting
    cases other with
    | stop => exact .inl rfl
    | go _ _ =>
      obtain ⟨e, member⟩ := begins _ _ rfl
      have empty := List.map_eq_nil_iff.mp listed.untried.symm
      rw [empty] at member
      cases member
  | fail _ => cases same

theorem Unguarded.not_reaches (ran : Unguarded a input c (a.outgoing c.state) none) : ¬ Reaches a input c := by
  intro reaches
  obtain ⟨edges, passed, last, route, accepts⟩ := reaches
  exact ran.none_accepts (Listed.all a c) (BeginsIn.all route) route accepts

theorem Unguarded.first (ran : Unguarded a input c (a.outgoing c.state) (some taken)) :
    ∃ edges last, First a input c edges last ∧ edges.map a.edge? = taken.map some := by
  obtain ⟨edges, passed, last, route, accepts, named, distinct, shorter, least⟩ := ran.some_first (Listed.all a c)
  refine ⟨edges, last, ⟨⟨_, route, List.nodup_cons.mpr ⟨?_, distinct⟩, accepts⟩, ?_⟩, named⟩
  · intro again
    obtain ⟨short, other, less⟩ := shorter c again
    cases ran.deterministic other
    exact Nat.lt_irrefl _ less
  · intro others stop accepting_other
    obtain ⟨passed', other, _, accepting⟩ := accepting_other
    exact least others passed' stop (BeginsIn.all other) other accepting

-- From a candidate start where the plain recursion comes to an end, the search with its table gives
-- the same answer: it fails where the recursion does, and otherwise takes the same edges.
theorem explore_eq_unguarded (sealed : a.Sealed) (candidate : (start, rest) ∈ candidates a.anchors input offset)
    (ran : Unguarded a input ⟨a.start, start⟩ (a.outgoing a.start) result) (observe : σ → Event → σ) (seen : σ) :
    let answer := ((Setting.of a input).explore observe seen ((Setting.of a input).begin start rest)).2
    answer.map path = result ∧
      answer.map (matched a start rest) =
        result.map fun taken => ⟨start, taken.flatMap (·.text), collectGroups a.groupCount taken⟩ := by
  have from_start := (mem_candidates.mp candidate).2
  have explored := explore_valid sealed observe seen (begin_valid sealed from_start)
  rcases explored with ⟨failed, unreachable⟩ | ⟨top, lower, edges, tried, accepted, trail, accepts⟩
  · cases result with
    | none => simp [failed]
    | some taken =>
      obtain ⟨edges, last, first, _⟩ := ran.first
      exact (unreachable first.reaches).elim
  · have first := trail.first accepts
    cases result with
    | none => exact (ran.not_reaches first.reaches).elim
    | some taken =>
      obtain ⟨edges', last, other, named⟩ := ran.first
      cases first.unique other
      have same : path (top :: lower) = taken := by
        rw [← edges_of_named trail.path_edges, edges_of_named named]
      rw [accepted]
      refine ⟨congrArg some same, congrArg some ?_⟩
      rw [matched_of_path from_start trail accepts, same]

-- Two ways into a state that leads nowhere: the second one is cut off by the table.
def diamond : Automaton :=
  ⟨[⟨0, false⟩, ⟨1, false⟩, ⟨2, false⟩, ⟨3, false⟩, ⟨4, true⟩],
    [⟨0, 1, [], []⟩, ⟨0, 2, [], []⟩, ⟨1, 3, ['a'], []⟩, ⟨2, 3, ['a'], []⟩, ⟨2, 4, ['a'], [0]⟩], 0, ⟨false, false⟩, 1⟩

theorem diamond_sealed : diamond.Sealed :=
  ⟨⟨diamond.states, diamond.edges⟩, 0, ⟨false, false⟩, 1,
    Arena.Grown.empty.performAll [.addState, .addState, .addState, .addState, .addState,
      .addEdge ⟨0, 1, [], []⟩, .addEdge ⟨0, 2, [], []⟩, .addEdge ⟨1, 3, ['a'], []⟩, .addEdge ⟨2, 3, ['a'], []⟩,
      .addEdge ⟨2, 4, ['a'], [0]⟩, .markTerminal 4] rfl, rfl⟩

theorem diamond_unguarded :
    Unguarded diamond ['a'] ⟨0, 0⟩ (diamond.outgoing 0) (some [⟨0, 2, [], []⟩, ⟨2, 4, ['a'], [0]⟩]) := by
  have stuck : Unguarded diamond ['a'] ⟨3, 1⟩ (diamond.outgoing 3) none := .fail (by simp [Accepts, diamond, Automaton.isTerminal])
  have first : Unguarded diamond ['a'] ⟨1, 0⟩ (diamond.outgoing 1) none :=
    .lost rfl stuck (.fail (by simp [Accepts, diamond, Automaton.isTerminal]))
  have second : Unguarded diamond ['a'] ⟨2, 0⟩ (diamond.outgoing 2) (some [⟨2, 4, ['a'], [0]⟩]) :=
    .lost rfl stuck (.found rfl (.accept (by simp [Accepts, diamond, Automaton.isTerminal, Configuration.after])))
  exact .lost rfl first (.found rfl second)

theorem explore_diamond :
    diamond.Sealed ∧ (0, ['a']) ∈ candidates diamond.anchors ['a'] 0 ∧
    Unguarded diamond ['a'] ⟨0, 0⟩ (diamond.outgoing 0) (some [⟨0, 2, [], []⟩, ⟨2, 4, ['a'], [0]⟩]) ∧
    ((((Setting.of diamond ['a']).explore (fun () _ => ()) () ((Setting.of diamond ['a']).begin 0 ['a'])).2.map path =
        some [⟨0, 2, [], []⟩, ⟨2, 4, ['a'], [0]⟩]) ∧
      ((Setting.of diamond ['a']).explore (fun () _ => ()) () ((Setting.of diamond ['a']).begin 0 ['a'])).2.map
        (matched diamond 0 ['a']) = some ⟨0, ['a'], [['a']]⟩) :=
  ⟨diamond_sealed, by decide, diamond_unguarded,
    explore_eq_unguarded diamond_sealed (show (0, ['a']) ∈ candidates diamond.anchors ['a'] 0 by decide)
      diamond_unguarded (fun () _ => ()) ()⟩

end PatternMachine.Search
