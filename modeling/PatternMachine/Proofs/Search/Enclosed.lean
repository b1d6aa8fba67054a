import PatternMachine.Proofs.Search.Parts

namespace PatternMachine

namespace Placement

def inside (capturing : Bool) : Placement := ⟨0, (Pattern.ownCapture capturing).toList, capturing.toNat⟩

theorem inside_state (capturing : Bool) (id : StateId) : (inside capturing).state id = id := here_state id

theorem collectGroups_inside (capturing : Bool) (count : Nat) (path : List Edge) :
    collectGroups (count + capturing.toNat) (path.map (inside capturing).edge) =
      (if capturing then [path.flatMap (·.text)] else []) ++ collectGroups count path := by
  cases capturing with
  | false =>
    have same : path.map (inside false).edge = path := List.map_id'' here_edge path
    rw [same]
    rfl
  | true =>
    have own : ∀ e : Edge, ((inside true).edge e).collected 0 = e.text := by
      intro e
      simp [Edge.collected, edge, groups, inside, Pattern.ownCapture]
    have other : ∀ (index : Nat) (e : Edge), ((inside true).edge e).collected (index + 1) = e.collected index := by
      intro index e
      have apart : ((· == index + 1) ∘ (· + 1) : Nat → Bool) = (· == index) := by
        funext other
        simp
      simp [Edge.collected, edge, groups, inside, Pattern.ownCapture, List.filter_map, apart, List.flatMap_map]
    unfold collectGroups
    rw [Bool.toNat_true, List.range_succ_eq_map, List.map_cons, List.map_map, List.flatMap_map]
    simp only [Function.comp_def, List.flatMap_map, own, other]
    rfl

end Placement

theorem collectGroups_silent (count : Nat) (path : List Edge) {later : List Edge} (silent : ∀ e ∈ later, e.text = []) :
    collectGroups count (path ++ later) = collectGroups count path := by
  refine List.map_congr_left fun index _ => ?_
  rw [List.flatMap_append, List.append_right_eq_self, List.flatMap_eq_nil_iff]
  intro e member
  simp [Edge.collected, silent e member]

def Match.enclosed (capturing : Bool) (m : Match) : Match :=
  { m with groups := (if capturing then [m.text] else []) ++ m.groups }

namespace Search

variable {a : Automaton} {input : Text} {c d last stop : Configuration} {edge : Nat} {edges others more tail : List Nat}
  {passed passed' : List Configuration}

theorem Before.trans (before : Before edges others) (further : Before others more) : Before edges more := by
  induction before generalizing more with
  | longer => cases further
  | earlier less =>
    cases further with
    | longer => exact .longer
    | earlier less' => exact .earlier (Nat.lt_trans less less')
    | later _ => exact .earlier less
  | later _ ih =>
    cases further with
    | longer => exact .longer
    | earlier less => exact .earlier less
    | later further => exact .later (ih further)

theorem Before.extend (before : Before edges others) (beyond : ∀ edge ∈ edges, ∀ k ∈ tail, edge < k) (more : List Nat) :
    Before (edges ++ more) (others ++ tail) := by
  induction before with
  | longer =>
    cases tail with
    | nil => exact .longer
    | cons k tail => exact .earlier (beyond _ List.mem_cons_self k List.mem_cons_self)
  | earlier less => exact .earlier less
  | later _ ih => exact .later (ih fun edge member => beyond edge (List.mem_cons_of_mem _ member))

theorem Route.deterministic (one : Route a input c edges passed last) (other : Route a input c edges passed' stop) :
    last = stop := by
  induction one generalizing passed' with
  | stop =>
    cases other
    rfl
  | go leads _ ih =>
    cases other with
    | go leads' other =>
      cases leads with
      | along _ at_edge _ =>
        cases leads' with
        | along _ at_edge' _ =>
          cases at_edge.symm.trans at_edge'
          exact ih other

theorem Route.inside (sealed : a.Sealed) (route : Route a input c edges passed last) : ∀ edge ∈ edges, edge < a.edges.length := by
  induction route with
  | stop => simp
  | go leads _ ih =>
    intro edge member
    rcases List.mem_cons.mp member with rfl | later
    · obtain ⟨_, at_edge, _⟩ := (leads_iff_edge sealed).mp leads
      exact (List.getElem?_eq_some_iff.mp at_edge).1
    · exact ih edge later

-- From the start, the accepting routes of the one are those of the other, gone on with from where they end.
-- Those of the whole that go on in another way are preferred less.
structure Mirrors (whole part : Automaton) (input : Text) (tail : StateId → List Nat) : Prop where
  whole_sealed : whole.Sealed
  part_sealed : part.Sealed
  anchors : whole.anchors = part.anchors
  start : whole.start = part.start
  forth : ∀ {position rest edges last}, Text.from? input position = some rest →
    Accepting part input ⟨part.start, position⟩ edges last →
      ∃ stop, Accepting whole input ⟨part.start, position⟩ (edges ++ tail last.state) stop ∧ stop.position = last.position
  back : ∀ {position others stop}, Accepting whole input ⟨part.start, position⟩ others stop →
    ∃ edges last, Accepting part input ⟨part.start, position⟩ edges last ∧
      (others = edges ++ tail last.state ∨ Before (edges ++ tail last.state) others)
  reaches : ∀ {position}, Reaches whole input ⟨part.start, position⟩ → Reaches part input ⟨part.start, position⟩
  beyond : ∀ state, ∀ k ∈ tail state, part.edges.length ≤ k

namespace Mirrors

variable {whole part : Automaton} {tail : StateId → List Nat} {position : Nat}

theorem first (mirrors : Mirrors whole part input tail) {rest : Text} (here : Text.from? input position = some rest)
    (first : First part input ⟨part.start, position⟩ edges last) :
    ∃ stop, First whole input ⟨whole.start, position⟩ (edges ++ tail last.state) stop ∧ stop.position = last.position := by
  obtain ⟨stop, accepting, ends⟩ := mirrors.forth here first.accepting
  rw [mirrors.start]
  refine ⟨stop, ⟨accepting, fun others stop' other => ?_⟩, ends⟩
  obtain ⟨edges', last', accepting', onward⟩ := mirrors.back other
  have compared : edges' ++ tail last'.state = edges ++ tail last.state ∨
      Before (edges ++ tail last.state) (edges' ++ tail last'.state) := by
    obtain ⟨_, route, _⟩ := first.accepting
    rcases first.least edges' last' accepting' with rfl | before
    · obtain ⟨_, route', _⟩ := accepting'
      rw [route.deterministic route']
      exact .inl rfl
    · refine .inr (before.extend (fun edge member k held => ?_) _)
      exact Nat.lt_of_lt_of_le (route.inside mirrors.part_sealed edge member) (mirrors.beyond _ k held)
  rcases onward with same | before
  · rw [same]
    exact compared
  · right
    rcases compared with equal | earlier
    · rwa [equal] at before
    · exact earlier.trans before

theorem find (mirrors : Mirrors whole part input tail) {rename : Match → Match}
    (renamed : ∀ {start rest edges last text}, Text.from? input start = some rest →
      First part input ⟨part.start, start⟩ edges last → Text.slice? input start last.position = some text →
      (⟨start, text, collectGroups whole.groupCount ((edges ++ tail last.state).filterMap whole.edge?)⟩ : Match) =
        rename ⟨start, text, collectGroups part.groupCount (edges.filterMap part.edge?)⟩) :
    whole.find input = (part.find input).map rename := by
  have unreachable : ∀ {position}, ¬ Reaches part input ⟨part.start, position⟩ →
      ¬ Reaches whole input ⟨whole.start, position⟩ :=
    fun none_part reaches => none_part (mirrors.reaches (mirrors.start ▸ reaches))
  refine (findFrom_found mirrors.whole_sealed input 0 : Found whole input 0 (whole.find input)).unique ?_
  have found : Found part input 0 (part.find input) := findFrom_found mirrors.part_sealed input 0
  generalize part.find input = answer at found
  cases found with
  | nothing none_reach => exact .nothing fun start candidate => unreachable (none_reach start (mirrors.anchors ▸ candidate))
  | leftmost candidate before first sliced =>
    obtain ⟨_, listed⟩ := candidate.listed
    have here := (mem_candidates.mp listed).2
    obtain ⟨stop, first', ends⟩ := mirrors.first here first
    rw [Option.map_some, ← renamed here first sliced]
    refine .leftmost (mirrors.anchors ▸ candidate) ?_ first' (ends ▸ sliced)
    exact fun earlier less candidate' => unreachable (before earlier less (mirrors.anchors ▸ candidate'))

end Mirrors

-- The edges of an automaton inside a group, and after them edges that read nothing.
structure Enclosed (whole part : Automaton) (capturing : Bool) (joins : List Edge) : Prop where
  whole_sealed : whole.Sealed
  part_sealed : part.Sealed
  anchors : whole.anchors = part.anchors
  start : whole.start = part.start
  edges : whole.edges = part.edges.map (Placement.inside capturing).edge ++ joins
  silent : ∀ e ∈ joins, e.text = []
  count : whole.groupCount = part.groupCount + capturing.toNat

namespace Enclosed

variable {whole part : Automaton} {capturing : Bool} {joins : List Edge} {position : Nat}

theorem edge?_inside (enclosed : Enclosed whole part capturing joins) {e : Edge} (at_edge : part.edge? edge = some e) :
    whole.edge? edge = some ((Placement.inside capturing).edge e) := by
  have bound : edge < (part.edges.map (Placement.inside capturing).edge).length := by
    rw [List.length_map]
    exact (List.getElem?_eq_some_iff.mp at_edge).1
  rw [Automaton.edge?, enclosed.edges, List.getElem?_append_left bound, List.getElem?_map]
  exact congrArg (Option.map _) at_edge

theorem edge?_join (enclosed : Enclosed whole part capturing joins) (k : Nat) :
    whole.edge? (part.edges.length + k) = joins[k]? := by
  rw [Automaton.edge?, enclosed.edges, List.getElem?_append_right (by simp), List.length_map, Nat.add_sub_cancel_left]

theorem leads (enclosed : Enclosed whole part capturing joins) (leads : Leads part input c edge d) :
    Leads whole input c edge d := by
  obtain ⟨e, at_edge, origin, occurs, rfl⟩ := (leads_iff_edge enclosed.part_sealed).mp leads
  refine (leads_iff_edge enclosed.whole_sealed).mpr ⟨_, enclosed.edge?_inside at_edge, ?_, occurs, ?_⟩
  · exact (Placement.inside_state capturing _).trans origin
  · exact congrArg (Configuration.mk · _) (Placement.inside_state capturing _).symm

theorem leads_back (enclosed : Enclosed whole part capturing joins) (leads : Leads whole input c edge d) :
    Leads part input c edge d ∨
      ∃ k e, edge = part.edges.length + k ∧ joins[k]? = some e ∧ e.origin = c.state ∧ d = ⟨e.destination, c.position⟩ := by
  obtain ⟨e, at_edge, origin, occurs, rfl⟩ := (leads_iff_edge enclosed.whole_sealed).mp leads
  rcases Nat.lt_or_ge edge part.edges.length with inside | beyond
  · have at_edge' : part.edge? edge = some part.edges[edge] := List.getElem?_eq_getElem inside
    cases at_edge.symm.trans (enclosed.edge?_inside at_edge')
    refine .inl ((leads_iff_edge enclosed.part_sealed).mpr ⟨_, at_edge', ?_, occurs, ?_⟩)
    · exact (Placement.inside_state capturing _).symm.trans origin
    · exact congrArg (Configuration.mk · _) (Placement.inside_state capturing _)
  · obtain ⟨k, rfl⟩ := Nat.exists_eq_add_of_le beyond
    rw [enclosed.edge?_join] at at_edge
    have empty : e.text = [] := enclosed.silent e (List.mem_of_getElem? at_edge)
    exact .inr ⟨k, e, rfl, at_edge, origin, by simp [Configuration.after, empty]⟩

theorem route (enclosed : Enclosed whole part capturing joins) (route : Route part input c edges passed last) :
    Route whole input c edges passed last := by
  induction route with
  | stop => exact .stop
  | go first _ ih => exact .go (enclosed.leads first) ih

theorem path (enclosed : Enclosed whole part capturing joins) (route : Route part input c edges passed last) :
    edges.filterMap whole.edge? = (edges.filterMap part.edge?).map (Placement.inside capturing).edge := by
  induction route with
  | stop => rfl
  | @go c edge d edges passed last first _ ih =>
    obtain ⟨e, at_edge, _⟩ := (leads_iff_edge enclosed.part_sealed).mp first
    rw [List.filterMap_cons, List.filterMap_cons, at_edge, enclosed.edge?_inside at_edge, ih]
    rfl

theorem tail_silent (enclosed : Enclosed whole part capturing joins) {tail : List Nat}
    (beyond : ∀ k ∈ tail, part.edges.length ≤ k) : ∀ e ∈ tail.filterMap whole.edge?, e.text = [] := by
  intro e member
  obtain ⟨k, listed, at_edge⟩ := List.mem_filterMap.mp member
  obtain ⟨k, rfl⟩ := Nat.exists_eq_add_of_le (beyond k listed)
  rw [enclosed.edge?_join] at at_edge
  exact enclosed.silent e (List.mem_of_getElem? at_edge)

theorem find {tail : StateId → List Nat} (enclosed : Enclosed whole part capturing joins)
    (mirrors : Mirrors whole part input tail) : whole.find input = (part.find input).map (Match.enclosed capturing) := by
  refine mirrors.find fun {start rest edges last text} here first sliced => ?_
  obtain ⟨passed, route, _⟩ := first.accepting
  have covered : text = (edges.filterMap part.edge?).flatMap (·.text) := Option.some.inj (sliced.symm.trans (route.sliced here))
  rw [List.filterMap_append, collectGroups_silent _ _ (enclosed.tail_silent (mirrors.beyond last.state)), enclosed.path route,
    enclosed.count, Placement.collectGroups_inside, ← covered]
  rfl

section Single

-- With no edge added, every end stays one.
variable (enclosed : Enclosed whole part capturing []) (terminal : ∀ id, whole.isTerminal id = part.isTerminal id)

include enclosed in
theorem route_back (route : Route whole input c edges passed last) : Route part input c edges passed last := by
  induction route with
  | stop => exact .stop
  | go first _ ih =>
    rcases enclosed.leads_back first with leads | ⟨_, _, _, none_joins, _⟩
    · exact .go leads ih
    · cases none_joins

include enclosed terminal in
theorem accepts : Accepts whole input c ↔ Accepts part input c := by
  unfold Accepts
  rw [enclosed.anchors, terminal]

include terminal in
theorem mirrors_single (enclosed : Enclosed whole part capturing []) : Mirrors whole part input fun _ => [] where
  whole_sealed := enclosed.whole_sealed
  part_sealed := enclosed.part_sealed
  anchors := enclosed.anchors
  start := enclosed.start
  forth := by
    intro position rest edges last _ accepting
    obtain ⟨passed, route, distinct, accepts⟩ := accepting
    rw [List.append_nil]
    exact ⟨last, ⟨passed, enclosed.route route, distinct, (enclosed.accepts terminal).mpr accepts⟩, rfl⟩
  back := by
    intro position others stop accepting
    obtain ⟨passed, route, distinct, accepts⟩ := accepting
    exact ⟨others, stop, ⟨passed, enclosed.route_back route, distinct, (enclosed.accepts terminal).mp accepts⟩,
      .inl (List.append_nil _).symm⟩
  reaches := by
    rintro position ⟨edges, passed, last, route, accepts⟩
    exact ⟨edges, passed, last, enclosed.route_back route, (enclosed.accepts terminal).mp accepts⟩
  beyond := by simp

end Single

end Enclosed

-- With the ends of the part joined in a new state, which accepts in their place.
structure Gathered (whole part : Automaton) (capturing : Bool) (target : StateId) (captures : List Nat)
    (ends : List StateId) : Prop where
  enclosed : Enclosed whole part capturing (ends.map (Edge.joining target captures))
  apart : ∀ e ∈ part.edges, e.origin ≠ target ∧ e.destination ≠ target
  start : part.start ≠ target
  ended : ∀ id, part.isTerminal id = true ↔ id ∈ ends
  other : target ∉ ends
  terminal : ∀ id, whole.isTerminal id = true ↔ id = target

theorem getElem?_joining {target : StateId} {captures : List Nat} {ends : List StateId} {k : Nat} {e : Edge}
    (listed : (ends.map (Edge.joining target captures))[k]? = some e) : ends[k]? = some e.origin ∧ e.destination = target := by
  rw [List.getElem?_map] at listed
  obtain ⟨id, member, rfl⟩ := Option.map_eq_some_iff.mp listed
  exact ⟨member, rfl⟩

theorem idxOf_le {ends : List StateId} {k : Nat} {id : StateId} (listed : ends[k]? = some id) : ends.idxOf id ≤ k := by
  obtain ⟨bound, rfl⟩ := List.getElem?_eq_some_iff.mp listed
  refine Nat.le_of_not_lt fun less => ?_
  exact absurd (List.not_of_lt_findIdx less) (by simp)

namespace Gathered

variable {whole part : Automaton} {capturing : Bool} {target : StateId} {captures : List Nat} {ends : List StateId}
  {position : Nat} {rest : Text}

theorem leads_join (gathered : Gathered whole part capturing target captures ends) (here : Text.from? input c.position = some rest)
    {k : Nat} (listed : ends[k]? = some c.state) : Leads whole input c (part.edges.length + k) ⟨target, c.position⟩ := by
  refine (leads_iff_edge gathered.enclosed.whole_sealed).mpr ⟨Edge.joining target captures c.state, ?_, rfl, ?_, rfl⟩
  · rw [gathered.enclosed.edge?_join, List.getElem?_map, listed]
    rfl
  · exact (Text.occursAt_iff here).mpr ⟨rest, rfl⟩

theorem stuck (gathered : Gathered whole part capturing target captures ends) {position : Nat} :
    ¬ Leads whole input ⟨target, position⟩ edge d := by
  intro leads
  rcases gathered.enclosed.leads_back leads with inside | ⟨k, e, _, listed, origin, _⟩
  · obtain ⟨e, at_edge, origin, _⟩ := (leads_iff_edge gathered.enclosed.part_sealed).mp inside
    exact (gathered.apart e (List.mem_of_getElem? at_edge)).1 origin
  · have member := List.mem_of_getElem? (getElem?_joining listed).1
    rw [origin] at member
    exact gathered.other member

theorem leads_apart (gathered : Gathered whole part capturing target captures ends) (leads : Leads part input c edge d) :
    d.state ≠ target := by
  obtain ⟨e, at_edge, _, _, rfl⟩ := (leads_iff_edge gathered.enclosed.part_sealed).mp leads
  exact (gathered.apart e (List.mem_of_getElem? at_edge)).2

theorem passed_apart (gathered : Gathered whole part capturing target captures ends) (off : c.state ≠ target)
    (route : Route part input c edges passed last) : ∀ d ∈ passed, d.state ≠ target := by
  induction route with
  | stop =>
    intro d member
    cases List.mem_singleton.mp member
    exact off
  | go leads _ ih =>
    intro d member
    rcases List.mem_cons.mp member with rfl | later
    · exact off
    · exact ih (gathered.leads_apart leads) d later

theorem route_on (gathered : Gathered whole part capturing target captures ends)
    (route : Route part input c edges passed last) (here : Text.from? input last.position = some rest) {k : Nat}
    (listed : ends[k]? = some last.state) : Route whole input c (edges ++ [part.edges.length + k])
      (passed ++ [⟨target, last.position⟩]) ⟨target, last.position⟩ := by
  induction route with
  | stop => exact .go (gathered.leads_join here listed) .stop
  | go leads _ ih => exact .go (gathered.enclosed.leads leads) (ih here listed)

theorem arrives_back (gathered : Gathered whole part capturing target captures ends) (off : c.state ≠ target)
    (route : Route whole input c others passed stop) (accepts : Accepts whole input stop) :
    ∃ edges passed' last k, Arrives part input c edges passed' last ∧ ends[k]? = some last.state ∧
      others = edges ++ [part.edges.length + k] ∧ passed = passed' ++ [⟨target, last.position⟩] := by
  induction route with
  | stop => exact (off ((gathered.terminal _).mp accepts.1)).elim
  | @go c edge d others passed stop leads later ih =>
    rcases gathered.enclosed.leads_back leads with inside | ⟨k, e, rfl, listed, origin, rfl⟩
    · obtain ⟨edges, passed', last, k, ⟨route, ends⟩, listed, rfl, rfl⟩ := ih (gathered.leads_apart inside) accepts
      exact ⟨edge :: edges, c :: passed', last, k, ⟨.go inside route, ends⟩, listed, rfl, rfl⟩
    · obtain ⟨listed, entered⟩ := getElem?_joining listed
      rw [entered] at later
      cases later with
      | go onward _ => exact (gathered.stuck onward).elim
      | stop =>
        rw [origin] at listed
        have terminal := (gathered.ended c.state).mpr (List.mem_of_getElem? listed)
        refine ⟨[], [c], c, k, ⟨.stop, terminal, ?_⟩, listed, rfl, rfl⟩
        rw [← gathered.enclosed.anchors]
        exact accepts.2

theorem off_start (gathered : Gathered whole part capturing target captures ends) (position : Nat) :
    (⟨part.start, position⟩ : Configuration).state ≠ target := gathered.start

theorem mirrors (gathered : Gathered whole part capturing target captures ends) :
    Mirrors whole part input fun state => [part.edges.length + ends.idxOf state] where
  whole_sealed := gathered.enclosed.whole_sealed
  part_sealed := gathered.enclosed.part_sealed
  anchors := gathered.enclosed.anchors
  start := gathered.enclosed.start
  forth := by
    intro position rest edges last here accepting
    obtain ⟨passed, route, distinct, terminal, whole_input⟩ := accepting
    obtain ⟨after, rfl, position_eq⟩ := route.consumes here
    have there := Text.from?_advance here
    rw [← position_eq] at there
    have listed : ends[ends.idxOf last.state]? = some last.state :=
      List.getElem?_idxOf ((gathered.ended _).mp terminal)
    refine ⟨⟨target, last.position⟩, ⟨_, gathered.route_on route there listed, ?_, ?_⟩, rfl⟩
    · refine List.nodup_append.mpr ⟨distinct, List.nodup_singleton _, fun d member d' single => ?_⟩
      cases List.mem_singleton.mp single
      exact fun same => gathered.passed_apart (gathered.off_start position) route d member (congrArg Configuration.state same)
    · exact ⟨(gathered.terminal target).mpr rfl, gathered.enclosed.anchors ▸ whole_input⟩
  back := by
    intro position others stop accepting
    obtain ⟨passed, route, distinct, accepts⟩ := accepting
    obtain ⟨edges, passed', last, k, ⟨route', accepts'⟩, listed, rfl, rfl⟩ :=
      gathered.arrives_back (gathered.off_start position) route accepts
    refine ⟨edges, last, ⟨passed', route', (List.nodup_append.mp distinct).1, accepts'⟩, ?_⟩
    rcases Nat.lt_or_ge (ends.idxOf last.state) k with sooner | later
    · exact .inr (Before.append edges (.earlier (Nat.add_lt_add_left sooner _)))
    · rw [Nat.le_antisymm later (idxOf_le listed)]
      exact .inl rfl
  reaches := by
    rintro position ⟨others, passed, stop, route, accepts⟩
    obtain ⟨edges, passed', last, k, ⟨route', accepts'⟩, _⟩ :=
      gathered.arrives_back (gathered.off_start position) route accepts
    exact ⟨edges, passed', last, route', accepts'⟩
  beyond := by simp

end Gathered

end Search
end PatternMachine
