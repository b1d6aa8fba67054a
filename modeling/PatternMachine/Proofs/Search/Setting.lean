import PatternMachine.Proofs.Search.Route

namespace PatternMachine

namespace Automaton

def leaving (a : Automaton) (state : StateId) : List (Edge × Nat) :=
  if a.has state then a.edges.zipIdx.filter (·.1.origin == state) else []

theorem leaving_edges (a : Automaton) (state : StateId) : (a.leaving state).map (·.1) = a.outgoing state := by
  unfold leaving outgoing
  split
  · have edges : a.edges.zipIdx.map Prod.fst = a.edges := by simp
    have filtered := List.filter_map (f := Prod.fst) (p := fun e : Edge => e.origin == state) (l := a.edges.zipIdx)
    rw [edges] at filtered
    exact filtered.symm
  · rfl

theorem mem_leaving {a : Automaton} {state : StateId} {e : Edge} {edge : Nat} :
    (e, edge) ∈ a.leaving state ↔ edge ∈ a.outgoingIds state ∧ a.edge? edge = some e := by
  unfold leaving outgoingIds edge?
  split
  · constructor
    · intro member
      obtain ⟨inside, _⟩ := List.mem_filter.mp member
      exact ⟨List.mem_map.mpr ⟨_, member, rfl⟩, List.mk_mem_zipIdx_iff_getElem?.mp inside⟩
    · intro named
      obtain ⟨listed, at_edge⟩ := named
      obtain ⟨⟨e', edge'⟩, member, rfl⟩ := List.mem_map.mp listed
      have same := List.mk_mem_zipIdx_iff_getElem?.mp (List.mem_filter.mp member).1
      cases at_edge.symm.trans same
      exact member
  · simp

theorem leaving_ascending (a : Automaton) (state : StateId) :
    (a.leaving state).Pairwise fun earlier later => earlier.2 < later.2 := by
  unfold leaving
  split
  · refine List.Pairwise.filter _ (List.pairwise_map.mp ?_)
    rw [List.zipIdx_map_snd]
    exact List.pairwise_lt_range'
  · exact List.Pairwise.nil

theorem leaving_live {a : Automaton} (sealed : a.Sealed) {state : StateId} {e : Edge} {edge : Nat}
    (member : (e, edge) ∈ a.leaving state) : e.destination < a.states.length := by
  have at_edge := (mem_leaving.mp member).2
  exact (sealed.edges_live e (List.mem_of_getElem? at_edge)).2

end Automaton

namespace Search

theorem leads_iff {a : Automaton} {input : Text} {c d : Configuration} {edge : Nat} :
    Leads a input c edge d ↔
      ∃ e, (e, edge) ∈ a.leaving c.state ∧ Text.occursAt input c.position e.text = true ∧ d = c.after e := by
  constructor
  · intro leads
    cases leads with
    | along listed at_edge occurs => exact ⟨_, Automaton.mem_leaving.mpr ⟨listed, at_edge⟩, occurs, rfl⟩
  · intro leads
    obtain ⟨e, member, occurs, rfl⟩ := leads
    obtain ⟨listed, at_edge⟩ := Automaton.mem_leaving.mp member
    exact .along listed at_edge occurs

namespace Setting

theorem of_outgoing (a : Automaton) (input : Text) (state : StateId) :
    (Setting.of a input).outgoing state = a.outgoing state := by
  by_cases live : state < a.states.length
  · simp [Setting.of, Setting.outgoing, live]
  · simp [Setting.of, Setting.outgoing, live, Automaton.outgoing, Automaton.has]

theorem of_accepts (a : Automaton) (input : Text) (c : Configuration) :
    (Setting.of a input).accepts c.state c.position = true ↔ Accepts a input c := by
  cases fixed : a.anchors.fixedEnd <;> simp [Setting.of, Setting.accepts, Accepts, fixed]

end Setting
end Search

namespace Visited

structure Fits (v : Visited) (states columns : Nat) : Prop where
  width : v.width = columns
  size : v.marks.size = states * columns

theorem empty_fits (states width : Nat) : (Visited.empty states width).Fits states width :=
  ⟨rfl, by simp [Visited.empty]⟩

theorem insert_fits {v : Visited} {states width : Nat} (fits : v.Fits states width) (state : StateId) (position : Nat) :
    (v.insert state position).Fits states width :=
  ⟨fits.width, by simpa [Visited.insert] using fits.size⟩

theorem slot_lt {states width state position : Nat} (live : state < states) (inside : position < width) :
    state * width + position < states * width :=
  calc state * width + position < state * width + width := Nat.add_lt_add_left inside _
    _ = (state + 1) * width := (Nat.succ_mul state width).symm
    _ ≤ states * width := Nat.mul_le_mul_right width live

theorem slot_inj {width state position state' position' : Nat} (inside : position < width)
    (inside' : position' < width) (same : state * width + position = state' * width + position') :
    state = state' ∧ position = position' := by
  have positive : 0 < width := Nat.lt_of_le_of_lt (Nat.zero_le _) inside
  have rows : ∀ row column, column < width → (row * width + column) / width = row := by
    intro row column short
    rw [Nat.mul_comm, Nat.mul_add_div positive, Nat.div_eq_of_lt short, Nat.add_zero]
  have row : state = state' := by rw [← rows state position inside, same, rows state' position' inside']
  subst row
  exact ⟨rfl, by omega⟩

theorem seen_empty {states width : Nat} {state : StateId} {position : Nat} (live : state < states)
    (inside : position < width) : (Visited.empty states width).seen state position = false := by
  have slot := slot_lt live inside
  simp [Visited.seen, Visited.empty, Visited.slot, inside, slot]

section

variable {v : Visited} {states columns position position' : Nat} {state state' : StateId}

theorem slot_lt_size (fits : v.Fits states columns) (live : state < states) (inside : position < columns) :
    v.slot state position < v.marks.size := by
  rw [fits.size, slot, fits.width]
  exact slot_lt live inside

theorem seen_outside (fits : v.Fits states columns) (outside : ¬ (state < states ∧ position < columns)) :
    v.seen state position = true := by
  unfold seen
  split
  · rename_i inside
    rw [fits.width] at inside
    have dead : states ≤ state := Nat.le_of_not_lt fun live => outside ⟨live, inside⟩
    have beyond : v.marks.size ≤ v.slot state position := by
      rw [fits.size, slot, fits.width]
      exact Nat.le_trans (Nat.mul_le_mul_right columns dead) (Nat.le_add_right _ _)
    rw [Array.getD_eq_getD_getElem?, Array.getElem?_eq_none beyond, Option.getD_none]
  · rfl

theorem inside_of_fresh (fits : v.Fits states columns) (fresh : v.seen state position = false) :
    state < states ∧ position < columns := by
  apply Classical.byContradiction
  intro outside
  rw [seen_outside fits outside] at fresh
  cases fresh

theorem seen_insert_of_seen (state : StateId) (position : Nat) (seen : v.seen state' position' = true) :
    (v.insert state position).seen state' position' = true := by
  have rowed : (v.insert state position).slot state' position' = v.slot state' position' := rfl
  unfold Visited.seen at seen ⊢
  rw [rowed]
  by_cases inside : position' < v.width
  · have wide : position' < (v.insert state position).width := inside
    simp only [inside, wide, if_true, Array.getD_eq_getD_getElem?] at seen ⊢
    simp only [Visited.insert, Array.getElem?_setIfInBounds]
    split
    · split <;> rfl
    · exact seen
  · exact if_neg inside

theorem seen_insert (fits : v.Fits states columns) (inside : position < columns) :
    (v.insert state position).seen state' position' = true ↔
      state' = state ∧ position' = position ∨ v.seen state' position' = true := by
  by_cases within : state' < states ∧ position' < columns
  · have slot' := slot_lt_size fits within.1 within.2
    have rowed : (v.insert state position).slot state' position' = v.slot state' position' := rfl
    have wide : position' < v.width := by rw [fits.width]; exact within.2
    have wide' : position' < (v.insert state position).width := wide
    have marks : (v.insert state position).marks = v.marks.setIfInBounds (v.slot state position) true := rfl
    simp only [Visited.seen, wide, wide', if_true, rowed, marks]
    by_cases same : v.slot state position = v.slot state' position'
    · obtain ⟨rfl, rfl⟩ := slot_inj (by rw [fits.width]; exact inside) wide same
      simp [Array.getD, slot']
    · have apart : ¬ (state' = state ∧ position' = position) := by
        intro same
        obtain ⟨rfl, rfl⟩ := same
        exact same rfl
      simp [Array.getD, slot', apart, same]
  · have known := seen_outside fits within
    exact iff_of_true (seen_insert_of_seen state position known) (.inr known)

theorem seen_insert_self (fits : v.Fits states columns) (inside : position < columns) (state : StateId) :
    (v.insert state position).seen state position = true := (seen_insert fits inside).mpr (.inl ⟨rfl, rfl⟩)

end

end Visited
end PatternMachine
