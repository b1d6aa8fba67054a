import PatternMachine.Proofs.Pattern.Overclosed

namespace PatternMachine

namespace Cursor

variable {depth : Nat} {p : Cursor} {rest : List Cursor}

-- A reading that closes the `depth` groups around it and all of its own, and nowhere more than are open.
def Balanced (depth : Nat) (cursors : List Cursor) : Prop :=
  ¬Overclosed depth cursors ∧ depth + cursors.countP opens = cursors.countP closes

theorem balanced_nil : Balanced depth [] ↔ depth = 0 := by
  simp [Balanced, overclosed_nil]

theorem balanced_opening (here : p.opens = true) : Balanced depth (p :: rest) ↔ Balanced (depth + 1) rest := by
  have silent := opens_silent here
  have counted : depth + (p :: rest).countP opens = (p :: rest).countP closes ↔
      depth + 1 + rest.countP opens = rest.countP closes := by
    simp only [List.countP_cons, here, silent, if_true, Bool.false_eq_true, if_false]
    omega
  rw [Balanced, Balanced, overclosed_opening here, counted]

theorem balanced_closing (here : p.closes = true) : Balanced (depth + 1) (p :: rest) ↔ Balanced depth rest := by
  have silent := closes_silent here
  have counted : depth + 1 + (p :: rest).countP opens = (p :: rest).countP closes ↔
      depth + rest.countP opens = rest.countP closes := by
    simp only [List.countP_cons, here, silent, if_true, Bool.false_eq_true, if_false]
    omega
  rw [Balanced, Balanced, overclosed_closing here, counted]

theorem not_balanced_outermost (here : p.closes = true) : ¬Balanced 0 (p :: rest) :=
  fun balanced => balanced.1 (overclosed_outermost here)

theorem balanced_silent (silent : p.opens = false) (silent' : p.closes = false) :
    Balanced depth (p :: rest) ↔ Balanced depth rest := by
  simp only [Balanced, overclosed_silent silent silent', List.countP_cons, silent, silent', Bool.false_eq_true, if_false,
    Nat.add_zero]

theorem Balanced.overclosed_after {front : List Cursor} (balanced : Balanced 0 (front ++ p :: rest)) (here : p.opens = true) :
    Overclosed 0 rest := by
  obtain ⟨within, counted⟩ := balanced
  have before : front.countP closes ≤ front.countP opens := by
    by_contra more
    exact within ⟨front, List.prefix_append _ _, by omega⟩
  refine ⟨rest, List.prefix_refl _, ?_⟩
  simp only [List.countP_append, List.countP_cons, here, opens_silent here, if_true, Bool.false_eq_true, if_false] at counted
  omega

end Cursor

open Cursor (Overclosed Balanced)

-- A walk that starts `depth` groups inside finds the first closing before which all of them but the last are balanced.
theorem closing?_eq_some {depth : Nat} {cursors : List Cursor} {close : Cursor} :
    closing? depth cursors = some close ↔
      ∃ inner later, cursors = inner ++ close :: later ∧ close.closes = true ∧ Balanced depth inner := by
  induction cursors generalizing depth with
  | nil => simp [closing?]
  | cons p rest ih =>
    -- Either the closing stands here and nothing is inside, or the first character is inside.
    have cases_inner : (∃ inner later, p :: rest = inner ++ close :: later ∧ close.closes = true ∧ Balanced depth inner) ↔
        (p = close ∧ p.closes = true ∧ depth = 0) ∨
          ∃ inner later, rest = inner ++ close :: later ∧ close.closes = true ∧ Balanced depth (p :: inner) := by
      constructor
      · rintro ⟨inner, later, split, closes, balanced⟩
        cases inner with
        | nil =>
          obtain ⟨rfl, rfl⟩ := List.cons.inj split
          exact .inl ⟨rfl, closes, Cursor.balanced_nil.mp balanced⟩
        | cons q inner =>
          obtain ⟨rfl, behind⟩ := List.cons.inj split
          exact .inr ⟨inner, later, behind, closes, balanced⟩
      · rintro (⟨rfl, closes, rfl⟩ | ⟨inner, later, split, closes, balanced⟩)
        · exact ⟨[], rest, rfl, closes, Cursor.balanced_nil.mpr rfl⟩
        · exact ⟨p :: inner, later, by rw [split]; rfl, closes, balanced⟩
    rw [cases_inner]
    unfold closing?
    cases opens : p.opens with
    | true => simp [Cursor.opens_silent opens, Cursor.balanced_opening opens, ih]
    | false =>
      cases closes : p.closes with
      | false => simp [Cursor.balanced_silent opens closes, ih]
      | true =>
        cases depth with
        | zero => simp [Cursor.not_balanced_outermost closes]
        | succ depth => simp [Cursor.balanced_closing closes, ih]

theorem closing?_eq_none {depth : Nat} {cursors : List Cursor} : closing? depth cursors = none ↔ ¬Overclosed depth cursors := by
  induction cursors generalizing depth with
  | nil => simp [closing?, Cursor.overclosed_nil]
  | cons p rest ih =>
    unfold closing?
    cases opens : p.opens with
    | true => simp [Cursor.overclosed_opening opens, ih]
    | false =>
      cases closes : p.closes with
      | false => simp [Cursor.overclosed_silent opens closes, ih]
      | true =>
        cases depth with
        | zero => simp [Cursor.overclosed_outermost closes]
        | succ depth => simp [Cursor.overclosed_closing closes, ih]

theorem closing?_append {depth : Nat} {front : List Cursor} {close : Cursor} (found : closing? depth front = some close)
    (back : List Cursor) : closing? depth (front ++ back) = some close := by
  obtain ⟨inner, later, rfl, closes, balanced⟩ := closing?_eq_some.mp found
  exact closing?_eq_some.mpr ⟨inner, later ++ back, by simp, closes, balanced⟩

namespace Text

variable {s : Text} {opening closing : Nat} {front inner later : List Cursor} {p q : Cursor}

def between (s : Text) (first last : Nat) : List Cursor := s.cursors.filter fun p => first < p.offset && p.offset < last

-- A closing that belongs to an opening: what stands between the two is balanced.
structure Encloses (s : Text) (opening closing : Nat) : Prop where
  opens : occursBareAt s opening ['('] = true
  closes : occursBareAt s closing [')'] = true
  before : opening < closing
  balanced : Balanced 0 (s.between opening closing)

theorem cursors_at (member : p ∈ s.cursors) (member' : q ∈ s.cursors) (same : p.offset = q.offset) : p = q := by
  obtain ⟨front, later, split⟩ := List.append_of_mem member
  obtain ⟨before, after⟩ := cursors_around split
  rw [split] at member'
  rcases List.mem_append.mp member' with earlier | here
  · exact (Nat.ne_of_lt (before q earlier) same.symm).elim
  · rcases List.mem_cons.mp here with rfl | beyond
    · rfl
    · exact (Nat.ne_of_lt (after q beyond) same).elim

theorem between_eq (split : s.cursors = front ++ p :: (inner ++ q :: later)) : s.between p.offset q.offset = inner := by
  obtain ⟨before, after⟩ := cursors_around split
  have resplit : s.cursors = (front ++ p :: inner) ++ q :: later := by simp [split]
  obtain ⟨before', after'⟩ := cursors_around resplit
  unfold between
  rw [split, List.filter_append, List.filter_cons, List.filter_append, List.filter_cons]
  have none_before : front.filter (fun r => p.offset < r.offset && r.offset < q.offset) = [] := by
    refine List.filter_eq_nil_iff.mpr fun r member => ?_
    have bound := before r member
    simp; omega
  have none_after : later.filter (fun r => p.offset < r.offset && r.offset < q.offset) = [] := by
    refine List.filter_eq_nil_iff.mpr fun r member => ?_
    have bound := after' r member
    simp; omega
  have all_inside : inner.filter (fun r => p.offset < r.offset && r.offset < q.offset) = inner := by
    refine List.filter_eq_self.mpr fun r member => ?_
    have low := after r (List.mem_append_left _ member)
    have high := before' r (List.mem_append_right _ (List.mem_cons_of_mem _ member))
    simp [low, high]
  rw [none_before, none_after, all_inside]
  simp

theorem groupEnd?_at (split : s.cursors = front ++ p :: later) (opens : p.opens = true) :
    groupEnd? s p.offset = (closing? 0 later).map (·.offset) := by
  have before := (cursors_around split).1
  have passed : ∀ q ∈ front, (q.offset != p.offset) = true := by
    intro q member
    have bound := before q member
    simp; omega
  unfold groupEnd?
  rw [split, List.dropWhile_append_of_pos passed, List.dropWhile_cons_of_neg (by simp)]
  simp [opens]

theorem groupEnd?_opens (found : groupEnd? s opening = some closing) :
    ∃ front p later, s.cursors = front ++ p :: later ∧ p.offset = opening ∧ p.opens = true := by
  unfold groupEnd? at found
  split at found
  · cases found
  · rename_i p later dropped
    split at found
    · rename_i opens
      have here : p.offset = opening := by
        have stopped := List.head?_dropWhile_not (fun q : Cursor => q.offset != opening) s.cursors
        simpa [dropped] using stopped
      refine ⟨s.cursors.takeWhile (·.offset != opening), p, later, ?_, here, opens⟩
      rw [← dropped, List.takeWhile_append_dropWhile]
    · cases found

theorem encloses_iff : s.Encloses opening closing ↔ ∃ front p inner q later,
    s.cursors = front ++ p :: (inner ++ q :: later) ∧ p.offset = opening ∧ q.offset = closing ∧
      p.opens = true ∧ q.closes = true ∧ Balanced 0 inner := by
  constructor
  · intro encloses
    obtain ⟨p, member, opens, rfl⟩ := occursBareAt_iff_cursor.mp encloses.opens
    obtain ⟨q, member', closes, rfl⟩ := occursBareAt_iff_cursor.mp encloses.closes
    obtain ⟨front, behind, split⟩ := List.append_of_mem member
    have beyond : q ∈ behind := by
      rw [split] at member'
      rcases List.mem_append.mp member' with earlier | here
      · exact (Nat.lt_asymm encloses.before ((cursors_around split).1 q earlier)).elim
      · rcases List.mem_cons.mp here with rfl | later
        · exact (Nat.lt_irrefl _ encloses.before).elim
        · exact later
    obtain ⟨inner, later, rfl⟩ := List.append_of_mem beyond
    exact ⟨front, p, inner, q, later, split, rfl, rfl, opens, closes, between_eq split ▸ encloses.balanced⟩
  · rintro ⟨front, p, inner, q, later, split, rfl, rfl, opens, closes, balanced⟩
    have present : p ∈ s.cursors ∧ q ∈ s.cursors := by simp [split]
    exact ⟨occursBareAt_iff_cursor.mpr ⟨p, present.1, opens, rfl⟩, occursBareAt_iff_cursor.mpr ⟨q, present.2, closes, rfl⟩,
      (cursors_around split).2 q (by simp), (between_eq split).symm ▸ balanced⟩

theorem groupEnd?_eq_some : groupEnd? s opening = some closing ↔ s.Encloses opening closing := by
  rw [encloses_iff]
  constructor
  · intro found
    obtain ⟨front, p, behind, split, rfl, opens⟩ := groupEnd?_opens found
    rw [groupEnd?_at split opens] at found
    obtain ⟨q, walked, rfl⟩ := Option.map_eq_some_iff.mp found
    obtain ⟨inner, later, rfl, closes, balanced⟩ := closing?_eq_some.mp walked
    exact ⟨front, p, inner, q, later, split, rfl, rfl, opens, closes, balanced⟩
  · rintro ⟨front, p, inner, q, later, split, rfl, rfl, opens, closes, balanced⟩
    have walked : closing? 0 (inner ++ q :: later) = some q := closing?_eq_some.mpr ⟨inner, later, rfl, closes, balanced⟩
    rw [groupEnd?_at split opens, walked]
    rfl

theorem Encloses.unique {other : Nat} (encloses : s.Encloses opening closing) (encloses' : s.Encloses opening other) :
    other = closing := by
  have found := groupEnd?_eq_some.mpr encloses
  rw [groupEnd?_eq_some.mpr encloses'] at found
  exact Option.some.inj found

end Text

inductive DepthFault where
  | belowZero

-- The walk to the closing of a group with a depth that counts from zero on, the opening included, and that is checked
-- before it is lowered.
def counted? (depth : Nat) : List Cursor → Except DepthFault (Option Cursor)
  | [] => .ok none
  | p :: rest =>
    if p.opens then counted? (depth + 1) rest
    else if p.closes then
      if depth = 0 then .error .belowZero
      else if depth - 1 = 0 then .ok (some p)
      else counted? (depth - 1) rest
    else counted? depth rest

def Text.countedEnd? (s : Text) (opening : Nat) : Except DepthFault (Option Nat) :=
  if occursBareAt s opening ['('] then
    (counted? 0 (s.cursors.filter (opening ≤ ·.offset))).map (·.map (·.offset))
  else .ok none

theorem counted?_succ (depth : Nat) (cursors : List Cursor) : counted? (depth + 1) cursors = .ok (closing? depth cursors) := by
  induction cursors generalizing depth with
  | nil => rfl
  | cons p rest ih =>
    unfold counted? closing?
    split
    · exact ih (depth + 1)
    · split
      · cases depth with
        | zero => rfl
        | succ depth => exact ih depth
      · exact ih depth

theorem Text.countedEnd?_eq (s : Text) (opening : Nat) : s.countedEnd? opening = .ok (groupEnd? s opening) := by
  unfold countedEnd?
  split
  · rename_i bare
    obtain ⟨p, member, here, rfl⟩ := occursBareAt_iff_cursor.mp bare
    have opens : p.opens = true := here
    obtain ⟨front, later, split⟩ := List.append_of_mem member
    obtain ⟨before, after⟩ := cursors_around split
    have onward : s.cursors.filter (p.offset ≤ ·.offset) = p :: later := by
      have none_before : front.filter (p.offset ≤ ·.offset) = [] :=
        List.filter_eq_nil_iff.mpr fun q earlier => by simpa using before q earlier
      have all_after : later.filter (p.offset ≤ ·.offset) = later :=
        List.filter_eq_self.mpr fun q beyond => by simpa using Nat.le_of_lt (after q beyond)
      rw [split, List.filter_append, none_before, List.filter_cons_of_pos (by simp), all_after, List.nil_append]
    rw [onward, groupEnd?_at split opens, counted?, if_pos opens, counted?_succ]
    rfl
  · rename_i silent
    cases found : groupEnd? s opening with
    | none => rfl
    | some closing => exact (silent (groupEnd?_eq_some.mp found).opens).elim

end PatternMachine
