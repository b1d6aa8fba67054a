import PatternMachine.Automaton.Basic

namespace PatternMachine

inductive Path (edges : List Edge) : StateId → Text → StateId → Prop where
  | stay : Path edges here [] here
  | step {e : Edge} : e ∈ edges → Path edges e.destination text stop → Path edges e.origin (e.text ++ text) stop

namespace Path

variable {edges front back : List Edge} {start middle stop fork : StateId} {text later : Text}

theorem mono (path : Path edges start text stop) (more : edges ⊆ back) : Path back start text stop := by
  induction path with
  | stay => exact .stay
  | step member _ ih => exact .step (more member) ih

theorem append (path : Path edges start text middle) (onward : Path edges middle later stop) :
    Path edges start (text ++ later) stop := by
  induction path with
  | stay => exact onward
  | step member _ ih =>
    rw [List.append_assoc]
    exact .step member (ih onward)

theorem single {e : Edge} (member : e ∈ edges) : Path edges e.origin e.text e.destination := by
  have path : Path edges e.origin (e.text ++ []) e.destination := .step member .stay
  rwa [List.append_nil] at path

theorem stuck (path : Path edges start text stop) (none : ∀ e ∈ edges, e.origin ≠ start) : text = [] ∧ start = stop := by
  cases path with
  | stay => exact ⟨rfl, rfl⟩
  | step member _ => exact (none _ member rfl).elim

theorem ends (path : Path edges start text stop) :
    (text = [] ∧ start = stop) ∨ ∃ e ∈ edges, e.destination = stop := by
  induction path with
  | stay => exact .inl ⟨rfl, rfl⟩
  | @step _ _ e member _ ih =>
    rcases ih with ⟨_, same⟩ | entered
    · exact .inr ⟨e, member, same⟩
    · exact .inr entered

-- Edges laid later, all from state `middle` or a new one: once a path has taken one of them it
-- never takes an older edge again.
theorem split {first : StateId} (older : ∀ e ∈ front, e.origin < first ∧ e.destination < first)
    (newer : ∀ e ∈ back, (e.origin = middle ∨ first ≤ e.origin) ∧
      (first ≤ e.destination ∨ e.destination = middle ∧ ∀ e' ∈ front, e'.origin ≠ middle))
    (path : Path (front ++ back) start text stop) :
    ((first ≤ start ∨ start = middle ∧ ∀ e ∈ front, e.origin ≠ middle) → Path back start text stop) ∧
      (start < first → Path front start text stop ∨
        ∃ before after, text = before ++ after ∧ Path front start before middle ∧ Path back middle after stop) := by
  induction path with
  | stay => exact ⟨fun _ => .stay, fun _ => .inl .stay⟩
  | @step text stop e member rest ih =>
    obtain ⟨onward, early⟩ := ih
    rcases List.mem_append.mp member with old | new
    · obtain ⟨origin, destination⟩ := older e old
      refine ⟨?_, fun _ => ?_⟩
      · intro place
        rcases place with beyond | ⟨at_middle, none⟩
        · exact (Nat.not_lt.mpr beyond origin).elim
        · exact (none e old at_middle).elim
      · rcases early destination with path | ⟨before, after, rfl, path, later⟩
        · exact .inl (.step old path)
        · exact .inr ⟨e.text ++ before, after, by simp, .step old path, later⟩
    · obtain ⟨origin, destination⟩ := newer e new
      have path : Path back e.origin (e.text ++ text) stop := .step new (onward destination)
      refine ⟨fun _ => path, fun below => .inr ?_⟩
      have at_middle : e.origin = middle := origin.resolve_right fun beyond => Nat.not_lt.mpr beyond below
      rw [at_middle] at path ⊢
      exact ⟨[], _, rfl, .stay, path⟩

theorem confined {inside : StateId → Prop} (closed : ∀ e ∈ edges, inside e.origin → e ∈ back ∧ inside e.destination)
    (path : Path edges start text stop) (holds : inside start) : Path back start text stop ∧ inside stop := by
  induction path with
  | stay => exact ⟨.stay, holds⟩
  | @step _ _ e member _ ih =>
    obtain ⟨member', holds'⟩ := closed e member holds
    obtain ⟨path, inside⟩ := ih holds'
    exact ⟨.step member' path, inside⟩

-- Two branches of a fork, which no edge enters and which have no other state in common.
theorem branch {first : StateId}
    (older : ∀ e ∈ front, e.origin < first ∧ e.destination ≠ fork ∧ e.destination < first)
    (newer : ∀ e ∈ back, (e.origin = fork ∨ first ≤ e.origin) ∧ first ≤ e.destination)
    (path : Path (front ++ back) start text stop) (at_fork : start = fork) :
    Path front start text stop ∧ (stop = fork ∧ text = [] ∨ stop ≠ fork ∧ stop < first) ∨
      Path back start text stop ∧ first ≤ stop := by
  cases path with
  | stay => exact .inl ⟨.stay, .inl ⟨at_fork, rfl⟩⟩
  | @step text stop e member rest =>
    rcases List.mem_append.mp member with old | new
    · let inside (id : StateId) : Prop := id ≠ fork ∧ id < first
      have closed : ∀ e' ∈ front ++ back, inside e'.origin → e' ∈ front ∧ inside e'.destination := by
        intro e' member place
        obtain ⟨off, below⟩ := place
        rcases List.mem_append.mp member with old | new
        · exact ⟨old, (older e' old).2⟩
        · exact (Nat.not_lt.mpr ((newer e' new).1.resolve_left off) below).elim
      have holds : inside e.destination := (older e old).2
      obtain ⟨path, bounds⟩ := rest.confined closed holds
      exact .inl ⟨.step old path, .inr bounds⟩
    · have closed : ∀ e' ∈ front ++ back, first ≤ e'.origin → e' ∈ back ∧ first ≤ e'.destination := by
        intro e' member beyond
        rcases List.mem_append.mp member with old | new
        · exact (Nat.not_lt.mpr beyond (older e' old).1).elim
        · exact ⟨new, (newer e' new).2⟩
      obtain ⟨path, bound⟩ := rest.confined closed (newer e new).2
      exact .inr ⟨.step new path, bound⟩

theorem into {target : StateId} (apart : ∀ e ∈ front, e.origin ≠ target ∧ e.destination ≠ target)
    (joins : ∀ e ∈ back, e.text = [] ∧ e.origin ≠ target ∧ e.destination = target)
    (path : Path (front ++ back) start text target) (off : start ≠ target) : ∃ e ∈ back, Path front start text e.origin := by
  generalize arrived : target = stop at path
  induction path with
  | stay => exact (off arrived.symm).elim
  | @step text stop e member rest ih =>
    subst arrived
    rcases List.mem_append.mp member with old | new
    · obtain ⟨last, joined, path⟩ := ih (apart e old).2 rfl
      exact ⟨last, joined, .step old path⟩
    · obtain ⟨empty, _, destination⟩ := joins e new
      have none : ∀ e' ∈ front ++ back, e'.origin ≠ e.destination := by
        intro e' member
        rw [destination]
        rcases List.mem_append.mp member with old | new
        · exact (apart e' old).1
        · exact (joins e' new).2.1
      obtain ⟨rfl, _⟩ := rest.stuck none
      exact ⟨e, new, by simpa [empty] using Path.stay⟩

end Path

inductive Walk (edges : List Edge) : StateId → List Edge → StateId → Prop where
  | stay : Walk edges here [] here
  | step {e : Edge} : e ∈ edges → Walk edges e.destination path stop → Walk edges e.origin (e :: path) stop

theorem Walk.subset {edges path : List Edge} {start stop : StateId} (walk : Walk edges start path stop) : path ⊆ edges := by
  induction walk with
  | stay => exact List.nil_subset _
  | step member _ ih => exact List.cons_subset.mpr ⟨member, ih⟩

end PatternMachine
