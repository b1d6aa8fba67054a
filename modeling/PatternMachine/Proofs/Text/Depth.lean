import PatternMachine.Proofs.Text.Occurrences
import Mathlib.Data.List.Perm.Lattice

namespace PatternMachine.Text

def bareCount (s : Text) (c : Char) (limit : Nat) : Nat := (List.range limit).countP fun offset => occursBareAt s offset [c]

variable {s value : Text} {outside : Bool} {offset limit : Nat} {front later cursors : List Cursor}

theorem bareCount_eq (s : Text) (c : Char) (limit : Nat) :
    bareCount s c limit = s.cursors.countP fun p => p.isBare c && p.offset < limit := by
  have once : ((s.cursors.filter fun p => p.isBare c && p.offset < limit).map (·.offset)).Nodup :=
    (List.pairwise_map.mpr (s.cursors_ascending.filter _)).imp Nat.ne_of_lt
  have same : ((List.range limit).filter fun offset => occursBareAt s offset [c]).Perm
      ((s.cursors.filter fun p => p.isBare c && p.offset < limit).map (·.offset)) := by
    refine (List.perm_ext_iff_of_nodup (List.nodup_range.filter _) once).mpr fun offset => ?_
    simp only [List.mem_filter, List.mem_range, List.mem_map, occursBareAt_iff_cursor, Bool.and_eq_true, decide_eq_true_eq]
    constructor
    · rintro ⟨below, p, member, bare, rfl⟩
      exact ⟨p, ⟨member, bare, below⟩, rfl⟩
    · rintro ⟨p, ⟨member, bare, below⟩, rfl⟩
      exact ⟨below, p, member, bare, rfl⟩
  rw [bareCount, List.countP_eq_length_filter, same.length_eq, List.length_map, List.countP_eq_length_filter]

theorem bareCount_cut (split : s.cursors = front ++ later) (before : ∀ p ∈ front, p.offset < limit)
    (beyond : ∀ p ∈ later, limit ≤ p.offset) (c : Char) : bareCount s c limit = front.countP (·.isBare c) := by
  have counted : front.countP (fun p => p.isBare c && p.offset < limit) = front.countP (·.isBare c) :=
    List.countP_congr fun p member => by simp [before p member]
  have none_beyond : later.countP (fun p => p.isBare c && p.offset < limit) = 0 :=
    List.countP_eq_zero.mpr fun p member => by simp [Nat.not_lt.mpr (beyond p member)]
  rw [bareCount_eq, split, List.countP_append, counted, none_beyond, Nat.add_zero]

theorem bareCount_around {p : Cursor} (split : s.cursors = front ++ p :: later) (c : Char) :
    bareCount s c p.offset = front.countP (·.isBare c) ∧
      bareCount s c (p.offset + 1) = (front ++ [p]).countP (·.isBare c) := by
  obtain ⟨before, after⟩ := cursors_around split
  have resplit : s.cursors = (front ++ [p]) ++ later := by simp [split]
  refine ⟨bareCount_cut split before (fun q member => ?_) c, bareCount_cut resplit (fun q member => ?_) after c⟩
  · rcases List.mem_cons.mp member with rfl | behind
    · exact Nat.le_refl _
    · exact Nat.le_of_lt (after q behind)
  · rcases List.mem_append.mp member with earlier | here
    · exact Nat.lt_succ_of_lt (before q earlier)
    · exact List.mem_singleton.mp here ▸ Nat.lt_succ_self _

-- What the walk asks of a character at which it finds a value, given the characters since it had some depth.
structure Found (value : Text) (outside : Bool) (depth : Int) (front : List Cursor) (p : Cursor) : Prop where
  bare : p.escaped = false
  reads : p.reads value = true
  level : outside = true → depth + front.countP Cursor.opens = (front ++ [p]).countP Cursor.closes

theorem found_cons {depth : Int} {p q : Cursor} :
    Found value outside depth (p :: front) q ↔ Found value outside (past depth p) front q := by
  have moved : depth + (p :: front).countP Cursor.opens = (p :: front ++ [q]).countP Cursor.closes ↔
      past depth p + front.countP Cursor.opens = (front ++ [q]).countP Cursor.closes := by
    simp only [past, List.countP_cons, List.countP_append, List.countP_nil, List.cons_append]
    omega
  exact ⟨fun found => ⟨found.bare, found.reads, fun far => moved.mp (found.level far)⟩,
    fun found => ⟨found.bare, found.reads, fun far => moved.mpr (found.level far)⟩⟩

theorem mem_occurrencesFrom_cons {depth : Int} {p : Cursor} : offset ∈ occurrencesFrom value outside depth (p :: cursors) ↔
    (Found value outside depth [] p ∧ p.offset = offset) ∨ offset ∈ occurrencesFrom value outside (past depth p) cursors := by
  have parts : Found value outside depth [] p ↔
      (!p.escaped && p.reads value) = true ∧ (outside = true → depth = [p].countP Cursor.closes) := by
    constructor
    · exact fun found => ⟨by simp [found.bare, found.reads], by simpa using found.level⟩
    · intro test
      obtain ⟨bare, reads⟩ := Bool.and_eq_true _ _ ▸ test.1
      exact ⟨by simpa using bare, reads, by simpa using test.2⟩
  rw [occurrencesFrom_cons, List.mem_append, parts]
  split
  · rename_i found
    rw [List.mem_singleton, and_iff_right found, eq_comm]
  · rename_i absent
    simp only [List.not_mem_nil, absent, false_and]

theorem mem_occurrencesFrom {depth : Int} : offset ∈ occurrencesFrom value outside depth cursors ↔
    ∃ front p later, cursors = front ++ p :: later ∧ Found value outside depth front p ∧ p.offset = offset := by
  induction cursors generalizing depth with
  | nil => simp [occurrencesFrom]
  | cons p rest ih =>
    rw [mem_occurrencesFrom_cons, ih]
    constructor
    · rintro (⟨found, place⟩ | ⟨front, q, later, rfl, found, place⟩)
      · exact ⟨[], p, rest, rfl, found, place⟩
      · exact ⟨p :: front, q, later, rfl, found_cons.mpr found, place⟩
    · rintro ⟨front, q, later, split, found, place⟩
      cases front with
      | nil =>
        obtain ⟨rfl, rfl⟩ := List.cons.inj split
        exact .inl ⟨found, place⟩
      | cons r front =>
        obtain ⟨rfl, behind⟩ := List.cons.inj split
        exact .inr ⟨front, q, later, behind, found_cons.mp found, place⟩

theorem mem_occurrences_counted (some : value ≠ []) : offset ∈ s.occurrences value outside ↔
    occursBareAt s offset value = true ∧ (outside = true → bareCount s '(' offset = bareCount s ')' (offset + 1)) := by
  rw [occurrences, if_neg (by simpa using some), mem_occurrencesFrom, occursBareAt_iff_reads some]
  have levels : ∀ {front p later}, s.cursors = front ++ p :: later →
      ((0 : Int) + front.countP Cursor.opens = (front ++ [p]).countP Cursor.closes ↔
        bareCount s '(' p.offset = bareCount s ')' (p.offset + 1)) := by
    intro front p later split
    have opened : bareCount s '(' p.offset = front.countP Cursor.opens := (bareCount_around split '(').1
    have closed : bareCount s ')' (p.offset + 1) = (front ++ [p]).countP Cursor.closes := (bareCount_around split ')').2
    rw [opened, closed]
    omega
  constructor
  · rintro ⟨front, p, later, split, found, rfl⟩
    exact ⟨⟨p, by simp [split], by simp [found.bare, found.reads], rfl⟩, fun far => (levels split).mp (found.level far)⟩
  · rintro ⟨⟨p, member, reads, rfl⟩, level⟩
    obtain ⟨front, later, split⟩ := List.append_of_mem member
    obtain ⟨bare, reads⟩ := Bool.and_eq_true _ _ ▸ reads
    exact ⟨front, p, later, split, ⟨by simpa using bare, reads, fun far => (levels split).mpr (level far)⟩, rfl⟩

theorem occursBareAt_boundary (some : value ≠ []) (bare : occursBareAt s offset value = true) :
    offset < size s ∧ isBoundary s offset = true := by
  obtain ⟨before, after, rfl, rfl, _⟩ := occursBareAt_iff_split.mp bare
  have positive : 0 < size value := Nat.pos_of_ne_zero fun zero => some (size_eq_zero.mp zero)
  refine ⟨?_, isBoundary_iff.mpr ⟨before, _, rfl, rfl⟩⟩
  simp only [size_append]
  omega

theorem contains_iff : contains s value = true ↔ value = [] ∨ s.occurrences value false ≠ [] := by
  unfold contains
  by_cases empty : value = []
  · simp [empty]
  · have present : s.occurrences value false ≠ [] ↔ ∃ p ∈ s.cursors, (!p.escaped && p.reads value) = true := by
      rw [occurrences_every empty, ne_eq, List.map_eq_nil_iff, List.filter_eq_nil_iff]
      simp
    simp only [present, empty, false_or, Bool.or_eq_true, List.any_eq_true]
    simp [empty]

theorem idxOf_of_filter {keep : Text → Bool} {values : List Text} {one other : Text} (kept : keep one = true)
    (kept' : keep other = true) (before : (values.filter keep).idxOf one < (values.filter keep).idxOf other) :
    values.idxOf one < values.idxOf other := by
  induction values with
  | nil => exact before
  | cons first rest ih =>
    by_cases here : keep first = true
    · rw [List.filter_cons_of_pos here] at before
      by_cases last : first = other
      · rw [last, List.idxOf_cons_self] at before
        exact (Nat.not_lt_zero _ before).elim
      rw [List.idxOf_cons_ne _ last] at before ⊢
      by_cases now : first = one
      · rw [now, List.idxOf_cons_self]
        exact Nat.succ_pos _
      · rw [List.idxOf_cons_ne _ now] at before ⊢
        exact Nat.succ_lt_succ (ih (Nat.lt_of_succ_lt_succ before))
    · rw [List.filter_cons_of_neg here] at before
      have different : first ≠ one := fun same => here (same ▸ kept)
      have different' : first ≠ other := fun same => here (same ▸ kept')
      rw [List.idxOf_cons_ne _ different, List.idxOf_cons_ne _ different']
      exact Nat.succ_lt_succ (ih before)

theorem eraseDups_ordered (values : List Text) :
    values.eraseDups.Pairwise fun value other => values.idxOf value < values.idxOf other := by
  induction length : values.length using Nat.strongRecOn generalizing values with
  | ind n ih =>
    cases values with
    | nil => simp
    | cons first rest =>
      have shorter : (rest.filter fun value => !value == first).length < n := by
        have bound := List.length_filter_le (fun value => !value == first) rest
        rw [List.length_cons] at length
        omega
      have kept : ∀ value ∈ (rest.filter fun value => !value == first).eraseDups, (!value == first) = true :=
        fun value member => (List.mem_filter.mp (List.mem_eraseDups.mp member)).2
      have apart : ∀ value ∈ (rest.filter fun value => !value == first).eraseDups, first ≠ value := by
        intro value member same
        have different := kept value member
        rw [same, beq_self_eq_true] at different
        cases different
      rw [List.eraseDups_cons]
      refine List.Pairwise.cons (fun value member => ?_)
        ((ih _ shorter _ rfl).imp_of_mem fun {value other} member member' before => ?_)
      · rw [List.idxOf_cons_self, List.idxOf_cons_ne _ (apart value member)]
        exact Nat.succ_pos _
      · rw [List.idxOf_cons_ne _ (apart value member), List.idxOf_cons_ne _ (apart other member')]
        exact Nat.succ_lt_succ (idxOf_of_filter (kept value member) (kept other member') before)

theorem occurrencesOf_eq (s : Text) (values : List Text) (outside : Bool) :
    occurrencesOf s values outside = values.eraseDups.map fun value => (value, occurrences s value outside) := by
  induction values using List.reverseRecOn with
  | nil => rfl
  | append_singleton values value ih =>
    unfold occurrencesOf at ih ⊢
    rw [List.foldl_append, List.foldl_cons, List.foldl_nil, ih, List.eraseDups_append]
    by_cases earlier : value ∈ values
    · simp [List.removeAll, earlier]
    · simp [List.removeAll, earlier, List.eraseDups_cons]

theorem mem_occurrencesOf {values : List Text} {places : List Nat} :
    (value, places) ∈ occurrencesOf s values outside ↔ value ∈ values ∧ places = s.occurrences value outside := by
  rw [occurrencesOf_eq, List.mem_map]
  constructor
  · rintro ⟨other, member, same⟩
    cases same
    exact ⟨List.mem_eraseDups.mp member, rfl⟩
  · rintro ⟨member, rfl⟩
    exact ⟨value, List.mem_eraseDups.mpr member, rfl⟩

theorem occurrencesOf_ordered (s : Text) (values : List Text) (outside : Bool) :
    (occurrencesOf s values outside).Pairwise fun entry other => values.idxOf entry.1 < values.idxOf other.1 := by
  rw [occurrencesOf_eq]
  exact List.pairwise_map.mpr (eraseDups_ordered values)

-- A value is found, in order, at exactly the boundaries inside a text where it occurs unescaped, and if that is asked for
-- outside of every group as the parentheses before and up to it are counted. A text contains the empty value and those that
-- are found in it. Several values are looked for once each, in the order of first mention.
theorem occurrences_counted (s : Text) :
    (∀ (value : Text) (outside : Bool), value ≠ [] →
      (s.occurrences value outside).Pairwise (· < ·) ∧
        ∀ offset, offset ∈ s.occurrences value outside ↔
          (offset < size s ∧ isBoundary s offset = true) ∧ occursAt s offset value = true ∧ isEscaped s offset = false ∧
            (outside = true → bareCount s '(' offset = bareCount s ')' (offset + 1))) ∧
    (∀ value, contains s value = true ↔ value = [] ∨ s.occurrences value false ≠ []) ∧
    ∀ (values : List Text) (outside : Bool),
      (occurrencesOf s values outside).Pairwise (fun entry other => values.idxOf entry.1 < values.idxOf other.1) ∧
        ∀ value places, (value, places) ∈ occurrencesOf s values outside ↔
          value ∈ values ∧ places = s.occurrences value outside := by
  refine ⟨fun value outside some => ⟨occurrences_ascending s value outside, fun offset => ?_⟩, fun value => contains_iff,
    fun values outside => ⟨occurrencesOf_ordered s values outside, fun value places => mem_occurrencesOf⟩⟩
  have parts : occursBareAt s offset value = true ↔ occursAt s offset value = true ∧ isEscaped s offset = false := by
    simp [occursBareAt, and_comm]
  rw [mem_occurrences_counted some, ← and_assoc (a := occursAt s offset value = true), ← parts]
  exact ⟨fun found => ⟨occursBareAt_boundary some found.1, found⟩, fun found => found.2⟩

-- `é)(b(b)\(b`, where a stray closing makes up for the first opening but not for the second, and the last one is escaped.
theorem occurrences_counted_unbalanced :
    let s : Text := ['é', ')', '(', 'b', '(', 'b', ')', '\\', '(', 'b']
    s.occurrences ['b'] true = [4, 10] ∧
      ∀ offset, offset ∈ [4, 10] ↔ (offset < size s ∧ isBoundary s offset = true) ∧ occursAt s offset ['b'] = true ∧
        isEscaped s offset = false ∧ bareCount s '(' offset = bareCount s ')' (offset + 1) := by
  intro s
  have answer : s.occurrences ['b'] true = [4, 10] := by decide
  have counted := ((occurrences_counted s).1 ['b'] true (List.cons_ne_nil _ _)).2
  rw [answer] at counted
  simp only [eq_self, true_implies] at counted
  exact ⟨answer, counted⟩

end PatternMachine.Text
