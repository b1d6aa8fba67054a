import PatternMachine.Proofs.Pattern.Literals

namespace PatternMachine

namespace CaptureTable

def enclosing (table : CaptureTable) (offset : Nat) : List Nat :=
  (List.range table.length).filter fun index => table[index]?.any fun (opening, closing) => opening < offset && offset < closing

theorem mem_enclosing {table : CaptureTable} {offset index : Nat} : index ∈ table.enclosing offset ↔
    ∃ opening closing, table[index]? = some (opening, closing) ∧ opening < offset ∧ offset < closing := by
  constructor
  · intro member
    obtain ⟨_, around⟩ := List.mem_filter.mp member
    obtain ⟨⟨opening, closing⟩, entry, apart⟩ := (Option.any_eq_true _ _).mp around
    exact ⟨opening, closing, entry, by simpa using apart⟩
  · intro around
    obtain ⟨opening, closing, entry, apart⟩ := around
    refine List.mem_filter.mpr ⟨List.mem_range.mpr (List.getElem?_eq_some_iff.mp entry).1, ?_⟩
    simpa [entry] using apart

theorem enclosing_ascending (table : CaptureTable) (offset : Nat) : (table.enclosing offset).Pairwise (· < ·) :=
  List.pairwise_lt_range.filter _

theorem ofCursors_ascending {cursors : List Cursor}
    (ascending : cursors.Pairwise fun earlier later => earlier.offset < later.offset) :
    (CaptureTable.ofCursors cursors).Pairwise fun earlier later => earlier.1 < later.1 := by
  induction cursors with
  | nil => exact List.Pairwise.nil
  | cons p rest ih =>
    obtain ⟨after, ascending⟩ := List.pairwise_cons.mp ascending
    have later := ih ascending
    unfold CaptureTable.ofCursors
    split
    · split
      · refine List.Pairwise.cons (fun entry member => ?_) later
        obtain ⟨q, present, same⟩ := ofCursors_offset member
        exact same ▸ after q present
      · exact later
    · exact later

theorem ofCursors_length {cursors : List Cursor} {opened : List Nat} (balanced : groupFaultFrom opened cursors = none) :
    (CaptureTable.ofCursors cursors).length = cursors.countP Cursor.opensCapture := by
  induction cursors generalizing opened with
  | nil => rfl
  | cons p rest ih =>
    have later : (CaptureTable.ofCursors rest).length = rest.countP Cursor.opensCapture := by
      obtain ⟨next, _, balanced⟩ := groupFaultFrom_cons.mp balanced
      exact ih balanced
    unfold CaptureTable.ofCursors
    split
    · rename_i capturing
      have opens : p.opens = true := (Bool.and_eq_true _ _ ▸ capturing).1
      have inner : groupFaultFrom (p.offset :: opened) rest = none := by simpa [groupFaultFrom, opens] using balanced
      obtain ⟨close, found⟩ := closing?_of_balanced inner 0 (Nat.zero_lt_succ _)
      have counted : (p :: rest).countP Cursor.opensCapture = rest.countP Cursor.opensCapture + 1 :=
        List.countP_cons_of_pos capturing
      rw [found, counted, ← later]
      rfl
    · rename_i silent
      have passed : (p :: rest).countP Cursor.opensCapture = rest.countP Cursor.opensCapture :=
        List.countP_cons_of_neg silent
      rw [passed, later]

end CaptureTable

-- Captures that are open together: in the order of their numbers, and opened before what is still to come.
structure Together (table : CaptureTable) (captures : List Nat) (cursors : List Cursor) : Prop where
  ascending : captures.Pairwise (· < ·)
  before : ∀ index ∈ captures, ∃ entry, table[index]? = some entry ∧ ∀ p ∈ cursors, entry.1 < p.offset

namespace Together

variable {table : CaptureTable} {captures : List Nat} {p : Cursor} {rest : List Cursor}

theorem pass (together : Together table captures (p :: rest)) : Together table captures rest where
  ascending := together.ascending
  before index member := by
    obtain ⟨entry, listed, before⟩ := together.before index member
    exact ⟨entry, listed, fun q later => before q (List.mem_cons_of_mem _ later)⟩

theorem opening (together : Together table captures (p :: rest)) (sorted : table.Pairwise fun one other => one.1 < other.1)
    (after : ∀ q ∈ rest, p.offset < q.offset) : Together table (captures ++ (table.indexOf? p.offset).toList) rest := by
  cases found : table.indexOf? p.offset with
  | none =>
    rw [Option.toList_none, List.append_nil]
    exact together.pass
  | some index =>
    obtain ⟨inside, here, _⟩ := List.findIdx?_eq_some_iff_getElem.mp found
    have own : table[index].1 = p.offset := beq_iff_eq.mp here
    refine ⟨List.pairwise_append.mpr ⟨together.ascending, List.pairwise_singleton _ _, ?_⟩, ?_⟩
    · intro other member index' single
      cases List.mem_singleton.mp single
      obtain ⟨entry, listed, before⟩ := together.before other member
      obtain ⟨inside', rfl⟩ := List.getElem?_eq_some_iff.mp listed
      have less := before p List.mem_cons_self
      by_contra beyond
      rcases Nat.lt_or_eq_of_le (Nat.le_of_not_lt beyond) with later | rfl
      · have order := List.pairwise_iff_getElem.mp sorted index other inside inside' later
        rw [own] at order
        exact Nat.lt_asymm order less
      · exact Nat.ne_of_lt less own
    · intro other member
      rcases List.mem_append.mp member with old | new
      · exact together.pass.before other old
      · cases List.mem_singleton.mp new
        exact ⟨table[index], List.getElem?_eq_getElem inside, fun q later => own ▸ after q later⟩

theorem closing (together : Together table captures (p :: rest)) :
    Together table (if captures.getLast?.any (table.closesAt · p.offset) then captures.dropLast else captures) rest := by
  split
  · exact ⟨together.pass.ascending.sublist (List.dropLast_sublist _),
      fun index member => together.pass.before index (List.mem_of_mem_dropLast member)⟩
  · exact together.pass

theorem listed {cursors : List Cursor} (together : Together table captures cursors) :
    captures.Pairwise (· < ·) ∧ ∀ index ∈ captures, index < table.length := by
  refine ⟨together.ascending, fun index member => ?_⟩
  obtain ⟨_, listed, _⟩ := together.before index member
  exact (List.getElem?_eq_some_iff.mp listed).1

end Together

theorem Token.held_listed {table : CaptureTable} (sorted : table.Pairwise fun one other => one.1 < other.1)
    {cursors : List Cursor} (skip : Nat) {captures : List Nat} (together : Together table captures cursors)
    (ascending : cursors.Pairwise fun earlier later => earlier.offset < later.offset) :
    ∀ names ∈ Token.held table captures (Token.ofCursors skip cursors),
      names.Pairwise (· < ·) ∧ ∀ index ∈ names, index < table.length := by
  fun_induction Token.ofCursors skip cursors generalizing captures with
  | case1 => exact List.forall_mem_cons.mpr ⟨together.listed, fun _ none => nomatch none⟩
  | case2 p rest _ ih => exact ih together.pass ascending.of_cons
  | case3 p rest _ ih => exact List.forall_mem_cons.mpr ⟨together.listed, ih together.pass ascending.of_cons⟩
  | case4 p rest _ _ ih =>
    have after := (List.pairwise_cons.mp ascending).1
    exact List.forall_mem_cons.mpr ⟨together.listed, ih (together.opening sorted after) ascending.of_cons⟩
  | case5 =>
    rename_i ih
    exact List.forall_mem_cons.mpr ⟨together.listed, ih together.closing ascending.of_cons⟩
  | case6 p rest _ _ _ _ ih => exact ih together.pass ascending.of_cons
  | case7 =>
    rename_i ih
    exact List.forall_mem_cons.mpr ⟨together.listed, ih together.pass ascending.of_cons⟩

inductive Nested (table : CaptureTable) : List Cursor → List Nat → Prop where
  | outermost : Nested table [] []
  | plain : Nested table closers captures → Nested table (close :: closers) captures
  | capturing : Nested table closers captures → table[index]? = some (opening, close.offset) →
      (∀ other ∈ captures, other < index) → Nested table (close :: closers) (captures ++ [index])

namespace Nested

variable {table : CaptureTable} {closers : List Cursor} {captures : List Nat} {p : Cursor}

theorem ascending (nested : Nested table closers captures) : captures.Pairwise (· < ·) := by
  induction nested with
  | outermost => exact List.Pairwise.nil
  | plain _ ih => exact ih
  | capturing _ _ later ih =>
    refine List.pairwise_append.mpr ⟨ih, List.pairwise_singleton _ _, fun other member index' single => ?_⟩
    cases List.mem_singleton.mp single
    exact later other member

theorem closer (nested : Nested table closers captures) {index : Nat} (member : index ∈ captures) :
    ∃ close ∈ closers, ∃ opening, table[index]? = some (opening, close.offset) := by
  induction nested with
  | outermost => cases member
  | plain _ ih =>
    obtain ⟨close, present, entry⟩ := ih member
    exact ⟨close, List.mem_cons_of_mem _ present, entry⟩
  | capturing _ own _ ih =>
    rcases List.mem_append.mp member with outside | here
    · obtain ⟨close, present, entry⟩ := ih outside
      exact ⟨close, List.mem_cons_of_mem _ present, entry⟩
    · cases List.mem_singleton.mp here
      exact ⟨_, List.mem_cons_self, _, own⟩

theorem closing {outer : List Cursor} (nested : Nested table (p :: outer) captures)
    (beyond : ∀ close ∈ outer, p.offset < close.offset) :
    ∃ left, Nested table outer left ∧ left.Sublist captures ∧
      (if captures.getLast?.any (table.closesAt · p.offset) then captures.dropLast else captures) = left ∧
      ∀ index ∈ captures, index ∈ left ∨ ∃ opening, table[index]? = some (opening, p.offset) := by
  cases nested with
  | plain nested =>
    refine ⟨captures, nested, List.Sublist.refl _, ?_, fun index member => .inl member⟩
    apply if_neg
    rw [Bool.not_eq_true, Option.any_eq_false]
    intro index last
    obtain ⟨close, present, opening, entry⟩ := nested.closer (List.mem_of_getLast? last)
    have after := beyond close present
    simp [CaptureTable.closesAt, entry]
    omega
  | @capturing _ captures index opening _ nested own later =>
    refine ⟨captures, nested, List.sublist_append_left _ _, ?_, fun other member => ?_⟩
    · simp [CaptureTable.closesAt, own]
    · rcases List.mem_append.mp member with outside | here
      · exact .inl outside
      · cases List.mem_singleton.mp here
        exact .inr ⟨opening, own⟩

end Nested

-- What holds at every cursor of a body in which every group is closed: the captures that are open are those of
-- the groups around it, and of the others that have been opened each is closed before it.
structure Inside (table : CaptureTable) (captures : List Nat) (cursors : List Cursor) : Prop where
  around : ∃ closers count, Ahead table closers count cursors ∧ Nested table closers captures ∧
    (∀ index ∈ captures, index < count) ∧ ∀ index < count, index ∈ captures ∨
      ∃ opening closing, table[index]? = some (opening, closing) ∧ ∀ p ∈ cursors, closing < p.offset

namespace Inside

variable {table : CaptureTable} {captures : List Nat} {p : Cursor} {rest : List Cursor}

theorem next (inside : Inside table captures (p :: rest)) (before : Role) :
    Inside table ((before.next p).around table captures p) rest := by
  obtain ⟨closers, count, ahead, nested, bound, closed⟩ := inside.around
  have behind : ∀ index < count, index ∈ captures ∨
      ∃ opening closing, table[index]? = some (opening, closing) ∧ ∀ q ∈ rest, closing < q.offset := by
    intro index less
    refine (closed index less).imp id fun away => ?_
    obtain ⟨opening, closing, entry, before⟩ := away
    exact ⟨opening, closing, entry, fun q later => before q (List.mem_cons_of_mem _ later)⟩
  by_cases opens : p.opens = true
  · rw [Role.next_opening.mpr opens]
    show Inside table (captures ++ (table.indexOf? p.offset).toList) rest
    cases marked : CaptureTable.plainMark.isPrefixOf p.after with
    | true =>
      have plain : CaptureTable.plainMark.isPrefixOf p.after = !false := marked
      obtain ⟨close, _, ahead', index, _⟩ := ahead.opening opens plain
      have none_opened : table.indexOf? p.offset = none := index
      rw [none_opened, Option.toList_none, List.append_nil]
      exact ⟨close :: closers, count, ahead', .plain nested, bound, behind⟩
    | false =>
      have capturing : CaptureTable.plainMark.isPrefixOf p.after = !true := marked
      obtain ⟨close, _, ahead', index, entry⟩ := ahead.opening opens capturing
      have opened : table.indexOf? p.offset = some count := index
      rw [opened, Option.toList_some]
      refine ⟨close :: closers, count + 1, ahead', .capturing nested (entry rfl) bound, ?_, ?_⟩
      · intro index member
        rcases List.mem_append.mp member with old | new
        · exact Nat.lt_succ_of_lt (bound index old)
        · cases List.mem_singleton.mp new
          exact Nat.lt_succ_self _
      · intro index less
        rcases Nat.lt_succ_iff_lt_or_eq.mp less with old | rfl
        · exact (behind index old).imp_left fun member => List.mem_append_left _ member
        · exact .inl (List.mem_append_right _ (List.mem_singleton.mpr rfl))
  · by_cases closes : p.closes = true
    · rw [Role.next_closing.mpr closes]
      show Inside table (if captures.getLast?.any (table.closesAt · p.offset) then captures.dropLast else captures) rest
      obtain ⟨outer, rfl, ahead', beyond⟩ := ahead.closing closes
      obtain ⟨left, nested', kept, popped, gone⟩ := nested.closing beyond
      rw [popped]
      refine ⟨outer, count, ahead', nested', fun index member => bound index (kept.subset member), fun index less => ?_⟩
      rcases behind index less with member | away
      · refine (gone index member).imp_right fun entry => ?_
        obtain ⟨opening, entry⟩ := entry
        exact ⟨opening, p.offset, entry, (List.pairwise_cons.mp ahead.ascending).1⟩
      · exact .inr away
    · have silent := Bool.eq_false_iff.mpr opens
      have silent' := Bool.eq_false_iff.mpr closes
      rw [Role.around_silent table captures silent silent']
      exact ⟨closers, count, ahead.pass silent silent', nested, bound, behind⟩

theorem silent_enclosing (inside : Inside table captures (p :: rest)) (silent : p.opens = false) (silent' : p.closes = false) :
    captures = table.enclosing p.offset := by
  obtain ⟨closers, count, ahead, nested, bound, closed⟩ := inside.around
  obtain ⟨front, split, length, before⟩ := ahead.listed
  obtain ⟨after, _⟩ := List.pairwise_cons.mp ahead.ascending
  refine nested.ascending.eq_of_mem_iff (table.enclosing_ascending p.offset) fun {index} => ?_
  rw [CaptureTable.mem_enclosing]
  constructor
  · intro member
    obtain ⟨close, present, opening, entry⟩ := nested.closer member
    refine ⟨opening, close.offset, entry, ?_, ?_⟩
    · have less : index < front.length := length ▸ bound index member
      rw [split, List.getElem?_append_left less] at entry
      exact before _ (List.mem_of_getElem? entry) p List.mem_cons_self
    · obtain ⟨depth, inside, rfl⟩ := List.mem_iff_getElem.mp present
      have found := (ahead.pass silent silent').closes depth inside
      exact after _ (closing?_mem found)
  · intro around
    obtain ⟨opening, closing, entry, opened, still⟩ := around
    rcases Nat.lt_or_ge index count with less | beyond
    · rcases closed index less with member | ⟨opening', closing', entry', past⟩
      · exact member
      · cases entry.symm.trans entry'
        exact (Nat.lt_asymm still (past p List.mem_cons_self)).elim
    · rw [split, List.getElem?_append_right (length ▸ beyond)] at entry
      obtain ⟨q, present, same⟩ := CaptureTable.ofCursors_offset (List.mem_of_getElem? entry)
      have same : q.offset = opening := same
      rcases List.mem_cons.mp present with rfl | later
      · exact (Nat.ne_of_lt opened same.symm).elim
      · exact (Nat.lt_asymm opened (same ▸ after q later)).elim

end Inside

-- Where every group is closed, a literal is read under the captures that stand around it.
theorem Cursor.consumed_enclosing {table : CaptureTable} {captures : List Nat} {cursors : List Cursor} (before : Role)
    (inside : Inside table captures cursors) : Cursor.consumed table before captures cursors =
      (literals before cursors).map fun p => (p.char, table.enclosing p.offset) := by
  induction cursors generalizing before captures with
  | nil => rfl
  | cons p rest ih =>
    rw [Cursor.consumed, literals, List.map_append, ih _ (inside.next before)]
    split
    · rename_i literal
      have silent : p.opens = false := Bool.eq_false_iff.mpr fun opens => by
        rw [Role.next_opening.mpr opens] at literal
        cases literal
      have silent' : p.closes = false := Bool.eq_false_iff.mpr fun closes => by
        rw [Role.next_closing.mpr closes] at literal
        cases literal
      rw [List.map_singleton, ← inside.silent_enclosing silent silent']
    · rfl

theorem Inside.of_balanced {body : Text} (balanced : groupFault? body = none) :
    Inside (CaptureTable.ofText body) [] body.cursors where
  around := ⟨[], 0, .of_balanced balanced, .outermost, fun _ none => (nomatch none), fun _ none => (nomatch none)⟩

end PatternMachine
