import PatternMachine.Proofs.Pattern.Pairing
import PatternMachine.Proofs.Text.Occurrences
import Mathlib.Order.Bounds.Defs

namespace PatternMachine

open Text

namespace Text

variable {s : Text} {offset : Nat}

-- An unescaped closing with which a prefix of the text closes more than it opens.
def Unopened (s : Text) (offset : Nat) : Prop :=
  ∃ front : Text, front ++ [')'] <+: s ∧ size front = offset ∧ endsEscaping front = false ∧
    (front ++ [')']).cursors.countP Cursor.opens < (front ++ [')']).cursors.countP Cursor.closes

def Unclosed (s : Text) (offset : Nat) : Prop :=
  occursBareAt s offset ['('] = true ∧ ∀ closing, ¬s.Encloses offset closing

theorem cursorsFrom_split {start : Nat} {flag : Bool} {read later : List Cursor} {p : Cursor}
    (split : cursorsFrom start flag s = read ++ p :: later) :
    ∃ front, s = front ++ p.char :: p.after ∧ p.offset = start + size front ∧ p.escaped = escaping flag front ∧
      read.map Cursor.reading = (cursorsFrom start flag front).map Cursor.reading := by
  induction read generalizing s start flag with
  | nil =>
    cases s with
    | nil => cases split
    | cons c rest =>
      obtain ⟨rfl, _⟩ := List.cons.inj split
      exact ⟨[], rfl, rfl, rfl, rfl⟩
  | cons q read ih =>
    cases s with
    | nil => cases split
    | cons c rest =>
      obtain ⟨rfl, behind⟩ := List.cons.inj split
      obtain ⟨front, rfl, place, escaped, same⟩ := ih behind
      refine ⟨c :: front, rfl, by rw [place, size_cons, Nat.add_assoc], escaped, ?_⟩
      rw [List.map_cons, same]
      rfl

theorem countP_closed {front : Text} (settled : endsEscaping front = false) :
    (front ++ [')']).cursors.countP Cursor.opens = front.cursors.countP Cursor.opens ∧
      (front ++ [')']).cursors.countP Cursor.closes = front.cursors.countP Cursor.closes + 1 := by
  have same := cursors_reading_behind settled [')']
  have opens : (front ++ [')']).cursors.countP Cursor.opens = (front.cursors ++ cursors [')']).countP Cursor.opens :=
    Cursor.countP_isBare same '('
  have closes : (front ++ [')']).cursors.countP Cursor.closes = (front.cursors ++ cursors [')']).countP Cursor.closes :=
    Cursor.countP_isBare same ')'
  rw [opens, closes, List.countP_append, List.countP_append]
  exact ⟨rfl, rfl⟩

theorem unopened_iff : s.Unopened offset ↔ ∃ front p later, s.cursors = front ++ p :: later ∧ p.offset = offset ∧
    p.closes = true ∧ front.countP Cursor.opens ≤ front.countP Cursor.closes := by
  constructor
  · rintro ⟨front, ⟨after, rfl⟩, rfl, settled, more⟩
    obtain ⟨read, split, same⟩ := cursorsFrom_front front (')' :: after) 0 false
    have opens : read.countP Cursor.opens = front.cursors.countP Cursor.opens := Cursor.countP_isBare same '('
    have closes : read.countP Cursor.closes = front.cursors.countP Cursor.closes := Cursor.countP_isBare same ')'
    rw [escaping_eq, settled] at split
    rw [(countP_closed settled).1, (countP_closed settled).2, ← opens, ← closes] at more
    rw [List.append_assoc]
    exact ⟨read, ⟨0 + size front, ')', after, false⟩, _, split, Nat.zero_add _, rfl, Nat.le_of_lt_succ more⟩
  · rintro ⟨read, p, later, split, rfl, closing, more⟩
    obtain ⟨front, whole, place, escaped, same⟩ := cursorsFrom_split split
    have opens : read.countP Cursor.opens = front.cursors.countP Cursor.opens := Cursor.countP_isBare same '('
    have closes : read.countP Cursor.closes = front.cursors.countP Cursor.closes := Cursor.countP_isBare same ')'
    simp only [Cursor.closes, Cursor.isBare, Bool.and_eq_true, Bool.not_eq_true', beq_iff_eq] at closing
    have settled : endsEscaping front = false := by rw [← escaping_eq, ← escaped, closing.1]
    refine ⟨front, ⟨p.after, by rw [whole, closing.2]; simp⟩, by rw [place, Nat.zero_add], settled, ?_⟩
    rw [(countP_closed settled).1, (countP_closed settled).2, ← opens, ← closes]
    exact Nat.lt_succ_of_le more

theorem first_unopened {p : Cursor} (found : closing? 0 s.cursors = some p) : IsLeast {offset | s.Unopened offset} p.offset := by
  obtain ⟨inner, later, split, closes, within, counted⟩ := closing?_eq_some.mp found
  rw [Nat.zero_add] at counted
  refine ⟨unopened_iff.mpr ⟨inner, p, later, split, rfl, closes, Nat.le_of_eq counted⟩, fun other unopened => ?_⟩
  obtain ⟨front, q, behind, split', rfl, closes', more⟩ := unopened_iff.mp unopened
  by_contra before
  have reach : front ++ [q] <+: s.cursors := ⟨behind, by simp [split']⟩
  have reach' : inner ++ [p] <+: s.cursors := ⟨later, by simp [split]⟩
  have beyond : ∀ r ∈ front ++ [q], r.offset < p.offset := by
    intro r member
    rcases List.mem_append.mp member with earlier | here
    · have bound := (cursors_around split').1 r earlier
      omega
    · cases List.mem_singleton.mp here
      omega
  have shorter : front ++ [q] <+: inner := by
    rcases List.prefix_or_prefix_of_prefix reach reach' with inside | outside
    · rcases List.prefix_concat_iff.mp inside with same | shorter
      · have member : p ∈ front ++ [q] := by simp [same]
        exact (Nat.lt_irrefl _ (beyond p member)).elim
      · exact shorter
    · exact (Nat.lt_irrefl _ (beyond p (outside.subset (by simp)))).elim
  apply within
  refine ⟨front ++ [q], shorter, ?_⟩
  simp only [List.countP_append, List.countP_singleton, closes', Cursor.closes_silent closes', if_true, Bool.false_eq_true,
    if_false]
  omega

end Text

theorem groupFaultFrom_unopened {opened : List Nat} {cursors : List Cursor} {p : Cursor}
    (found : closing? opened.length cursors = some p) : groupFaultFrom opened cursors = some (.unopened p.offset) := by
  induction cursors generalizing opened with
  | nil => cases found
  | cons q rest ih =>
    unfold closing? at found
    unfold groupFaultFrom
    cases opens : q.opens with
    | true =>
      rw [opens, if_pos rfl] at found
      have deeper : closing? (q.offset :: opened).length rest = some p := found
      exact ih deeper
    | false =>
      cases closes : q.closes with
      | true =>
        simp only [opens, closes, Bool.false_eq_true, if_false, if_true] at found
        cases opened with
        | nil =>
          cases found
          rfl
        | cons _ outer => exact ih found
      | false =>
        simp only [opens, closes, Bool.false_eq_true, if_false] at found
        exact ih found

theorem groupFault?_unopened {s : Text} {p : Cursor} (found : closing? 0 s.cursors = some p) :
    groupFault? s = some (.unopened p.offset) := by
  have outside : closing? ([] : List Nat).length s.cursors = some p := found
  exact groupFaultFrom_unopened outside

theorem first_unclosed {s : Text} (within : closing? 0 s.cursors = none) :
    groupFault? s = none ∧ (∀ offset, ¬s.Unclosed offset) ∨
      ∃ offset, groupFault? s = some (.unclosed offset) ∧ IsLeast {offset | s.Unclosed offset} offset := by
  obtain ⟨left, finished, fault, _⟩ := (Nesting.start s).read (closing?_eq_none.mp within)
  have member : ∀ offset, s.Unclosed offset → offset ∈ left := by
    intro offset unclosed
    rcases finished.ended unclosed.1 with member | ⟨closing, found⟩
    · exact member
    · exact (unclosed.2 closing (groupEnd?_eq_some.mp found)).elim
  have shown : groupFault? s = left.getLast?.map .unclosed := fault
  cases last : left.getLast? with
  | none =>
    rw [last] at shown
    rw [List.getLast?_eq_none_iff.mp last] at member
    exact .inl ⟨shown, fun offset unclosed => nomatch member offset unclosed⟩
  | some outermost =>
    rw [last] at shown
    obtain ⟨inside, rfl⟩ := List.getLast?_eq_some_iff.mp last
    have present : outermost ∈ inside ++ [outermost] := by simp
    refine .inr ⟨outermost, shown, ⟨finished.opens _ present, fun closing encloses => ?_⟩, fun offset unclosed => ?_⟩
    · rw [← groupEnd?_eq_some, finished.unended present] at encloses
      cases encloses
    · rcases List.mem_append.mp (member offset unclosed) with inner | here
      · exact Nat.le_of_lt ((List.pairwise_append.mp finished.inward).2.2 offset inner outermost (List.mem_singleton.mpr rfl))
      · exact Nat.le_of_eq (List.mem_singleton.mp here).symm

namespace Text

def earlyClosing? (s : Text) : Option Nat :=
  let openings := s.occurrences ['('] false
  ((s.occurrences [')'] false).zipIdx.find? fun (closing, rank) => (openings.takeWhile (· < closing)).length ≤ rank).map (·.1)

def unendedOpening? (s : Text) : Option Nat :=
  (s.occurrences ['('] false).find? fun opening => (groupEnd? s opening).isNone

end Text

-- The report by ranks: a closing that comes too early, and failing that an opening without an end.
def rankedFault? (s : Text) : Option GroupFault :=
  s.earlyClosing?.map .unopened <|> s.unendedOpening?.map .unclosed

theorem Text.occurrences_bare (s : Text) (c : Char) :
    s.occurrences [c] false = (s.cursors.filter (·.isBare c)).map (·.offset) := by
  rw [occurrences_every (List.cons_ne_nil c [])]
  simp only [reads_single, Cursor.isBare]

theorem openings_before {s : Text} {front later : List Cursor} {p : Cursor} (split : s.cursors = front ++ p :: later)
    (silent : p.opens = false) :
    (((s.cursors.filter Cursor.opens).map (·.offset)).takeWhile (· < p.offset)).length = front.countP Cursor.opens := by
  obtain ⟨before, after⟩ := cursors_around split
  have low : ∀ offset ∈ (front.filter Cursor.opens).map (·.offset), decide (offset < p.offset) = true := by
    intro offset member
    obtain ⟨q, present, rfl⟩ := List.mem_map.mp member
    exact decide_eq_true (before q (List.mem_filter.mp present).1)
  have high : ((later.filter Cursor.opens).map (·.offset)).takeWhile (· < p.offset) = [] := by
    cases behind : later.filter Cursor.opens with
    | nil => rfl
    | cons q _ =>
      have present : q ∈ later.filter Cursor.opens := behind ▸ List.mem_cons_self
      have bound := after q (List.mem_filter.mp present).1
      rw [List.map_cons, List.takeWhile_cons_of_neg (by simpa using Nat.le_of_lt bound)]
  rw [split, List.filter_append, List.filter_cons_of_neg (by simp [silent]), List.map_append,
    List.takeWhile_append_of_pos low, high, List.append_nil, List.length_map, List.countP_eq_length_filter]

theorem ranked_early {s : Text} {front cursors : List Cursor} (depth : Nat) (split : s.cursors = front ++ cursors)
    (level : depth + front.countP Cursor.closes = front.countP Cursor.opens) :
    ((((cursors.filter Cursor.closes).map (·.offset)).zipIdx (front.countP Cursor.closes)).find? fun (closing, rank) =>
      (((s.cursors.filter Cursor.opens).map (·.offset)).takeWhile (· < closing)).length ≤ rank).map (·.1) =
      (closing? depth cursors).map (·.offset) := by
  induction cursors generalizing front depth with
  | nil => rfl
  | cons p rest ih =>
    have further : s.cursors = (front ++ [p]) ++ rest := by simp [split]
    unfold closing?
    cases opens : p.opens with
    | true =>
      have silent := Cursor.opens_silent opens
      have passed : (front ++ [p]).countP Cursor.closes = front.countP Cursor.closes := by simp [silent]
      have deeper : depth + 1 + (front ++ [p]).countP Cursor.closes = (front ++ [p]).countP Cursor.opens := by
        simp [silent, opens]; omega
      have later := ih (depth + 1) further deeper
      rw [passed] at later
      simpa [silent] using later
    | false =>
      cases closes : p.closes with
      | false =>
        have passed : (front ++ [p]).countP Cursor.closes = front.countP Cursor.closes := by simp [closes]
        have level' : depth + (front ++ [p]).countP Cursor.closes = (front ++ [p]).countP Cursor.opens := by
          simpa [closes, opens] using level
        have later := ih depth further level'
        rw [passed] at later
        simpa [closes] using later
      | true =>
        have passed : (front ++ [p]).countP Cursor.closes = front.countP Cursor.closes + 1 := by simp [closes]
        have counted := openings_before split opens
        rw [List.filter_cons_of_pos closes, List.map_cons, List.zipIdx_cons, List.find?_cons]
        simp only [counted, Bool.false_eq_true, if_false, if_true]
        cases depth with
        | zero =>
          have early : decide (front.countP Cursor.opens ≤ front.countP Cursor.closes) = true := by
            rw [decide_eq_true_iff]; omega
          rw [early]
          rfl
        | succ depth =>
          have enough : decide (front.countP Cursor.opens ≤ front.countP Cursor.closes) = false := by
            rw [decide_eq_false_iff_not]; omega
          have level' : depth + (front ++ [p]).countP Cursor.closes = (front ++ [p]).countP Cursor.opens := by
            simp [closes, opens]; omega
          have later := ih depth further level'
          rw [passed] at later
          rw [enough]
          exact later

theorem Text.earlyClosing?_eq (s : Text) : s.earlyClosing? = (closing? 0 s.cursors).map (·.offset) := by
  unfold earlyClosing?
  rw [occurrences_bare s ')', occurrences_bare s '(']
  have whole : s.cursors = [] ++ s.cursors := rfl
  exact ranked_early 0 whole rfl

theorem Text.unendedOpening?_eq_none {s : Text} (closed : ∀ offset, ¬s.Unclosed offset) : s.unendedOpening? = none := by
  refine List.find?_eq_none.mpr fun opening member unended => closed opening ⟨(mem_occurrences (List.cons_ne_nil _ _)).mp member, fun closing encloses => ?_⟩
  rw [groupEnd?_eq_some.mpr encloses] at unended
  cases unended

theorem Text.unendedOpening?_eq_some {s : Text} {offset : Nat} (least : IsLeast {offset | s.Unclosed offset} offset) :
    s.unendedOpening? = some offset := by
  obtain ⟨⟨bare, unclosed⟩, first⟩ := least
  obtain ⟨earlier, later, split⟩ := List.append_of_mem ((mem_occurrences (List.cons_ne_nil _ _)).mpr bare)
  refine List.find?_eq_some_iff_append.mpr ⟨?_, earlier, later, split, fun opening member => ?_⟩
  · cases found : groupEnd? s offset with
    | none => rfl
    | some closing => exact (unclosed closing (groupEnd?_eq_some.mp found)).elim
  · have ascending := s.occurrences_ascending ['('] false
    rw [split] at ascending
    have before : opening < offset := (List.pairwise_append.mp ascending).2.2 opening member offset List.mem_cons_self
    have present : opening ∈ s.occurrences ['('] false := split ▸ List.mem_append_left _ member
    cases found : groupEnd? s opening with
    | some closing => rfl
    | none =>
      have unended : s.Unclosed opening := by
        refine ⟨(mem_occurrences (List.cons_ne_nil _ _)).mp present, fun closing encloses => ?_⟩
        rw [groupEnd?_eq_some.mpr encloses] at found
        cases found
      exact (Nat.not_lt.mpr (first unended) before).elim

-- By ranks and walks the same fault is found as by one reading with the open groups in hand.
theorem rankedFault?_eq (s : Text) : rankedFault? s = groupFault? s := by
  unfold rankedFault?
  rw [earlyClosing?_eq]
  cases found : closing? 0 s.cursors with
  | some p =>
    rw [groupFault?_unopened found]
    rfl
  | none =>
    rcases first_unclosed found with ⟨shown, closed⟩ | ⟨offset, shown, least⟩
    · rw [shown, unendedOpening?_eq_none closed]
      rfl
    · rw [shown, unendedOpening?_eq_some least]
      rfl

-- Nothing is reported exactly of balanced texts. Otherwise the first closing that goes below zero is, whatever is left
-- open before it, and where there is none the first opening that no closing belongs to. The report by ranks agrees.
theorem groupFault_first (s : Text) :
    (groupFault? s = none ↔ ¬s.Overclosed ∧ s.cursors.countP Cursor.opens = s.cursors.countP Cursor.closes) ∧
    (s.Overclosed → ∃ offset, groupFault? s = some (.unopened offset) ∧ IsLeast {offset | s.Unopened offset} offset) ∧
    (¬s.Overclosed → s.cursors.countP Cursor.opens ≠ s.cursors.countP Cursor.closes →
      ∃ offset, groupFault? s = some (.unclosed offset) ∧ IsLeast {offset | s.Unclosed offset} offset) ∧
    rankedFault? s = groupFault? s := by
  have balanced : groupFault? s = none ↔
      ¬s.Overclosed ∧ s.cursors.countP Cursor.opens = s.cursors.countP Cursor.closes := by
    rw [overclosed_iff, groupFault?, groupFaultFrom_eq_none, Cursor.Balanced, List.length_nil, Nat.zero_add]
  refine ⟨balanced, fun exceeds => ?_, fun within unequal => ?_, rankedFault?_eq s⟩
  · cases found : closing? 0 s.cursors with
    | none => exact (closing?_eq_none.mp found (overclosed_iff.mp exceeds)).elim
    | some p => exact ⟨p.offset, groupFault?_unopened found, first_unopened found⟩
  · have found : closing? 0 s.cursors = none := closing?_eq_none.mpr fun exceeds => within (overclosed_iff.mpr exceeds)
    rcases first_unclosed found with ⟨shown, _⟩ | reported
    · exact (unequal (balanced.mp shown).2).elim
    · exact reported

-- `((a)\)`, in which the first of two openings is never closed, and `(a))(`, in which a closing comes before it matters
-- that an opening is left.
theorem groupFault_first_kinds :
    let unclosed : Text := ['(', '(', 'a', ')', '\\', ')']
    let unopened : Text := ['(', 'a', ')', ')', '(']
    (¬unclosed.Overclosed ∧ ∃ offset, groupFault? unclosed = some (.unclosed offset) ∧
      IsLeast {offset | unclosed.Unclosed offset} offset) ∧
    unopened.Overclosed ∧ ∃ offset, groupFault? unopened = some (.unopened offset) ∧
      IsLeast {offset | unopened.Unopened offset} offset := by
  intro unclosed unopened
  have within : ¬unclosed.Overclosed := by
    rw [overclosed_iff]
    exact closing?_eq_none.mp rfl
  have exceeds : unopened.Overclosed := ⟨['(', 'a', ')', ')'], ⟨['('], rfl⟩, by decide⟩
  exact ⟨⟨within, (groupFault_first unclosed).2.2.1 within (by decide)⟩, exceeds, (groupFault_first unopened).2.1 exceeds⟩

end PatternMachine
