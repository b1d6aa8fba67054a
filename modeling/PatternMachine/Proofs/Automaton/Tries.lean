import PatternMachine.Automaton.Basic
import PatternMachine.Proofs.Pattern.Reference

namespace PatternMachine

def Edge.consumed (e : Edge) : Consumed := e.text.map fun c => (c, e.groups)

def Edge.leaving (edges : List Edge) (id : StateId) : List Edge := edges.filter (·.origin == id)

def Item.takeAll (captures : List Nat) (text : Text) (onward : Onward) : Onward := text.foldr (Item.take captures) onward

-- From a state with some of its edges still to try, to what the first success consumes or to failure.
-- A state with no edge left gives what `exit` says.
inductive Tries (edges : List Edge) (exit : StateId → Text → Option Consumed → Prop) :
    StateId → List Edge → Text → Option Consumed → Prop where
  | spent : exit state rest result → Tries edges exit state [] rest result
  | miss : (∀ after, rest ≠ e.text ++ after) → Tries edges exit state later rest result →
      Tries edges exit state (e :: later) rest result
  | hit : Tries edges exit e.destination (Edge.leaving edges e.destination) after (some more) →
      Tries edges exit state (e :: later) (e.text ++ after) (some (e.consumed ++ more))
  | lost : Tries edges exit e.destination (Edge.leaving edges e.destination) after none →
      Tries edges exit state later (e.text ++ after) result → Tries edges exit state (e :: later) (e.text ++ after) result

namespace Item

variable {captures : List Nat} {text rest : Text} {onward : Onward}

theorem takeAll_append (after : Text) :
    takeAll captures text onward (text ++ after) = (onward after).map (text.map (fun c => (c, captures)) ++ ·) := by
  induction text with
  | nil => cases found : onward after <;> simp [takeAll, found]
  | cons c text ih =>
    show take captures c (takeAll captures text onward) (c :: (text ++ after)) = _
    rw [take, if_pos rfl, ih]
    simp [Option.map_map, Function.comp_def]

theorem takeAll_none (misses : ∀ after, rest ≠ text ++ after) : takeAll captures text onward rest = none := by
  induction text generalizing rest with
  | nil => exact (misses rest rfl).elim
  | cons c text ih =>
    cases rest with
    | nil => rfl
    | cons d rest =>
      show take captures c (takeAll captures text onward) (d :: rest) = none
      rw [take]
      split
      · rename_i same
        subst same
        rw [ih fun after whole => misses after (by rw [whole]; rfl)]
        rfl
      · rfl

theorem takeAll_snoc (c : Char) :
    takeAll captures (text ++ [c]) onward = takeAll captures text (take captures c onward) := by
  simp [takeAll]

end Item

theorem Edge.leaving_append (edges later : List Edge) (id : StateId) :
    Edge.leaving (edges ++ later) id = Edge.leaving edges id ++ Edge.leaving later id := List.filter_append ..

theorem Edge.leaving_eq_nil {edges : List Edge} {id : StateId} : Edge.leaving edges id = [] ↔ ∀ e ∈ edges, e.origin ≠ id := by
  simp [Edge.leaving]

theorem Edge.leaving_newer {later : List Edge} {first next id : StateId}
    (newer : ∀ e ∈ later, e.origin = first ∨ next ≤ e.origin) (below : id < next) (apart : id ≠ first) :
    Edge.leaving later id = [] := by
  apply Edge.leaving_eq_nil.mpr
  intro e member same
  rcases newer e member with begins | beyond
  · exact apart (same.symm.trans begins)
  · exact Nat.not_lt.mpr beyond (same ▸ below)

namespace Tries

variable {edges older later untried : List Edge} {exit exit' : StateId → Text → Option Consumed → Prop}
  {state : StateId} {e : Edge} {rest : Text} {result other : Option Consumed}

theorem along (onward : Onward)
    (there : ∀ after, rest = e.text ++ after →
      Tries edges exit e.destination (Edge.leaving edges e.destination) after (onward after))
    (here : Tries edges exit state untried rest other) :
    Tries edges exit state (e :: untried) rest (Item.takeAll e.groups e.text onward rest <|> other) := by
  by_cases occurs : ∃ after, rest = e.text ++ after
  · obtain ⟨after, rfl⟩ := occurs
    have inner := there after rfl
    rw [Item.takeAll_append]
    cases found : onward after with
    | none =>
      rw [found] at inner
      exact .lost inner here
    | some more =>
      rw [found] at inner
      exact .hit inner
  · have misses : ∀ after, rest ≠ e.text ++ after := fun after whole => occurs ⟨after, whole⟩
    rw [Item.takeAll_none misses]
    exact .miss misses here

theorem hops (target : StateId) (joins : ∀ e ∈ untried, e.text = [] ∧ e.destination = target) (several : untried ≠ [])
    (there : Tries edges exit target (Edge.leaving edges target) rest result) (here : exit state rest other) :
    Tries edges exit state untried rest (result <|> other) := by
  induction untried with
  | nil => exact (several rfl).elim
  | cons e untried ih =>
    obtain ⟨empty, enters⟩ := joins e List.mem_cons_self
    have first : ∀ after, rest = e.text ++ after →
        Tries edges exit e.destination (Edge.leaving edges e.destination) after result := by
      intro after whole
      rw [empty, List.nil_append] at whole
      rw [enters, ← whole]
      exact there
    have joined : ∀ {other}, Tries edges exit state untried rest other →
        Tries edges exit state (e :: untried) rest (result <|> other) := by
      intro other here
      have whole := along (fun _ => result) first here
      rwa [empty] at whole
    by_cases last : untried = []
    · subst last
      exact joined (.spent here)
    · have onward := joined (ih (fun e member => joins e (List.mem_cons_of_mem _ member)) last)
      cases result <;> exact onward

theorem extended (tries : Tries edges exit state untried rest result)
    (onward : ∀ {id rest result}, exit id rest result →
      Tries (edges ++ later) exit' id (Edge.leaving later id) rest result) :
    Tries (edges ++ later) exit' state (untried ++ Edge.leaving later state) rest result := by
  induction tries with
  | spent left => exact onward left
  | miss misses _ ih => exact .miss misses ih
  | hit _ ih =>
    rw [← Edge.leaving_append] at ih
    exact .hit ih
  | lost _ _ ih later_ih =>
    rw [← Edge.leaving_append] at ih
    exact .lost ih later_ih

theorem behind (tries : Tries edges exit state untried rest result)
    (apart : ∀ e ∈ edges, ∀ e' ∈ older, e'.origin ≠ e.destination) (listed : untried ⊆ edges) :
    Tries (older ++ edges) exit state untried rest result := by
  have same : ∀ e ∈ edges, Edge.leaving (older ++ edges) e.destination = Edge.leaving edges e.destination := by
    intro e member
    rw [Edge.leaving_append, Edge.leaving_eq_nil.mpr (apart e member), List.nil_append]
  induction tries with
  | spent left => exact .spent left
  | miss misses _ ih => exact .miss misses (ih (List.subset_of_cons_subset listed))
  | hit _ ih =>
    refine .hit ?_
    rw [same _ (listed List.mem_cons_self)]
    exact ih List.filter_sublist.subset
  | lost _ _ ih later_ih =>
    refine .lost ?_ (later_ih (List.subset_of_cons_subset listed))
    rw [same _ (listed List.mem_cons_self)]
    exact ih List.filter_sublist.subset

end Tries
end PatternMachine
