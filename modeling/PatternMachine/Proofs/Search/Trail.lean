import PatternMachine.Proofs.Search.Setting

namespace PatternMachine.Search

variable {a : Automaton} {input : Text} {origin : Configuration}

def Frame.here (f : Frame) : Configuration := ⟨f.state, f.position⟩

def Blocked (a : Automaton) (input : Text) (held : List Configuration) (c : Configuration) : Prop :=
  ∀ edges passed last, Route a input c edges passed last → Accepts a input last → ∃ x ∈ passed, x ∈ held

theorem Route.passes_first (route : Route a input c edges passed last) : c ∈ passed := by
  cases route <;> exact List.mem_cons_self

theorem Blocked.of_mem (member : c ∈ held) : Blocked a input held c :=
  fun _ _ _ route _ => ⟨c, route.passes_first, member⟩

theorem Blocked.mono (blocked : Blocked a input held c) (more : ∀ x ∈ held, x ∈ wider) :
    Blocked a input wider c := by
  intro edges passed last route accepts
  obtain ⟨x, passes, member⟩ := blocked edges passed last route accepts
  exact ⟨x, passes, more x member⟩

theorem Blocked.discharge (blocked : Blocked a input (d :: held) c) (gone : Blocked a input held d) :
    Blocked a input held c := by
  intro edges passed last route accepts
  obtain ⟨x, passes, member⟩ := blocked edges passed last route accepts
  rcases List.mem_cons.mp member with rfl | member
  · obtain ⟨front, back, edges', rfl, rest⟩ := route.cut passes
    obtain ⟨y, inside, member⟩ := gone edges' back last rest accepts
    exact ⟨y, List.mem_append_right _ inside, member⟩
  · exact ⟨x, passes, member⟩

-- A configuration does not accept and all it leads to is blocked, if need be by itself. A route
-- that comes back to it is shorter from there on.
theorem Blocked.of_leads (rejects : ¬ Accepts a input c)
    (leads : ∀ edge d, Leads a input c edge d → Blocked a input (c :: held) d) : Blocked a input held c := by
  intro edges passed last route accepts
  induction bound : passed.length using Nat.strongRecOn generalizing edges passed with
  | ind n ih =>
    cases route with
    | stop => exact (rejects accepts).elim
    | go step rest =>
      obtain ⟨x, passes, member⟩ := leads _ _ step _ _ _ rest accepts
      rcases List.mem_cons.mp member with rfl | member
      · obtain ⟨front, back, edges', rfl, again⟩ := rest.cut passes
        have shorter : back.length < n := by
          simp only [List.length_cons, List.length_append] at bound
          omega
        obtain ⟨y, inside, member⟩ := ih _ shorter edges' back again rfl
        exact ⟨y, List.mem_cons_of_mem _ (List.mem_append_right _ inside), member⟩
      · exact ⟨x, List.mem_cons_of_mem _ passes, member⟩

theorem not_reaches_of_blocked (blocked : Blocked a input [] c) : ¬ Reaches a input c := by
  intro reaches
  obtain ⟨edges, passed, last, route, accepts⟩ := reaches
  obtain ⟨x, _, member⟩ := blocked edges passed last route accepts
  cases member

def Spent (a : Automaton) (input : Text) (held : List Configuration) (c : Configuration)
    (tried : List (Edge × Nat)) : Prop :=
  ∀ p ∈ tried, Text.occursAt input c.position p.1.text = true → Blocked a input held (c.after p.1)

structure Standing (a : Automaton) (input : Text) (frame : Frame) (tried untried : List (Edge × Nat)) : Prop where
  leaving : a.leaving frame.state = tried ++ untried
  rest : Text.from? input frame.position = some frame.rest
  live : frame.state < a.states.length

-- A stack, latest frame first, with the edges of the route that it makes and with the edges of its
-- top frame, tried and untried. The edge that a frame was left by is neither.
inductive Trail (a : Automaton) (input : Text) (origin : Configuration) :
    List Frame → List Nat → List (Edge × Nat) → List (Edge × Nat) → Prop where
  | origin : Standing a input frame tried untried → frame.here = origin → frame.via = none →
      Spent a input [origin] origin tried → Trail a input origin [frame] [] tried untried
  | push : Trail a input origin (parent :: lower) edges tried ((e, edge) :: later) →
      parent.untried = later.map (·.1) →
      Text.occursAt input parent.position e.text = true →
      frame.here = parent.here.after e → frame.via = some e →
      frame.here ∉ (parent :: lower).map Frame.here →
      Standing a input frame tried' untried' →
      Spent a input ((frame :: parent :: lower).map Frame.here) frame.here tried' →
      Trail a input origin (frame :: parent :: lower) (edges ++ [edge]) tried' untried'

namespace Trail

theorem standing (trail : Trail a input origin (top :: lower) edges tried untried) :
    Standing a input top tried untried := by
  cases trail <;> assumption

theorem spent (trail : Trail a input origin (top :: lower) edges tried untried) :
    Spent a input ((top :: lower).map Frame.here) top.here tried := by
  cases trail with
  | origin standing here via spent => subst here; exact spent
  | push _ _ _ _ _ _ _ spent => exact spent

theorem Standing.advance {frame : Frame} (standing : Standing a input frame tried (p :: later)) :
    Standing a input frame (tried ++ [p]) later :=
  ⟨by rw [standing.leaving]; simp, standing.rest, standing.live⟩

theorem advance (trail : Trail a input origin (top :: lower) edges tried (p :: later))
    (vain : Text.occursAt input top.position p.1.text = true →
      Blocked a input ((top :: lower).map Frame.here) (top.here.after p.1)) (untried : List Edge) :
    Trail a input origin ({ top with untried } :: lower) edges (tried ++ [p]) later := by
  have spent : Spent a input ((top :: lower).map Frame.here) top.here (tried ++ [p]) := by
    intro q member occurs
    rcases List.mem_append.mp member with old | new
    · exact trail.spent q old occurs
    · cases List.mem_singleton.mp new
      exact vain occurs
  have moved := Standing.advance trail.standing
  cases trail with
  | origin _ here via _ =>
    subst here
    exact .origin ⟨moved.leaving, moved.rest, moved.live⟩ rfl via spent
  | push under left occurs here via fresh _ _ =>
    exact .push under left occurs here via fresh ⟨moved.leaving, moved.rest, moved.live⟩ spent

theorem retry (trail : Trail a input origin (top :: lower) edges tried later) (untried : List Edge) :
    Trail a input origin ({ top with untried } :: lower) edges tried later := by
  cases trail with
  | origin standing here via spent =>
    exact .origin ⟨standing.leaving, standing.rest, standing.live⟩ here via spent
  | push under left occurs here via fresh standing spent =>
    exact .push under left occurs here via fresh ⟨standing.leaving, standing.rest, standing.live⟩ spent

theorem route (trail : Trail a input origin stack edges tried untried) :
    ∃ top lower, stack = top :: lower ∧ ∀ more passed last, Route a input top.here more passed last →
      Route a input origin (edges ++ more) ((lower.map Frame.here).reverse ++ passed) last := by
  induction trail with
  | origin standing here =>
    subst here
    exact ⟨_, [], rfl, fun _ _ _ route => route⟩
  | @push parent lower edges tried e edge later frame tried' untried' under left occurs here _ _ _ _ ih =>
    refine ⟨frame, parent :: lower, rfl, ?_⟩
    intro more passed last route
    obtain ⟨_, _, same, ih⟩ := ih
    cases same
    have leads : Leads a input parent.here edge frame.here :=
      leads_iff.mpr ⟨e, by rw [Frame.here, under.standing.leaving]; simp, occurs, here⟩
    have longer := ih _ _ _ (.go leads route)
    simpa using longer

theorem nodup (trail : Trail a input origin stack edges tried untried) : (stack.map Frame.here).Nodup := by
  induction trail with
  | origin => simp
  | push _ _ _ _ _ fresh _ _ ih => exact List.nodup_cons.mpr ⟨fresh, ih⟩

theorem path_edges (trail : Trail a input origin stack edges tried untried) :
    edges.map a.edge? = (path stack).map some := by
  induction trail with
  | origin _ _ via => simp [path, via]
  | @push parent lower edges tried e edge later frame tried' untried' under _ _ _ via _ _ _ ih =>
    have listed : (e, edge) ∈ a.leaving parent.state := by rw [under.standing.leaving]; simp
    have at_edge := (Automaton.mem_leaving.mp listed).2
    have last : path (frame :: parent :: lower) = path (parent :: lower) ++ [e] := by
      unfold path
      rw [List.reverse_cons, List.filterMap_append]
      simp only [List.filterMap_cons, via, List.filterMap_nil]
    rw [last, List.map_append, List.map_append, ih]
    simp [at_edge]

end Trail

end PatternMachine.Search
