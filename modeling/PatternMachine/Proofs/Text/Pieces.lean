import PatternMachine.Text.Split
import PatternMachine.Proofs.Text.Offsets
import Mathlib.Data.List.Induction

namespace PatternMachine.Text

structure Addresses (s : Text) (index : Nat) : Prop where
  inside : index < size s
  boundary : isBoundary s index = true

def charAt? (s : Text) (index : Nat) : Option Char := (from? s index).bind List.head?

def weave : List Text → List Char → Text
  | piece :: pieces, c :: chars => piece ++ c :: weave pieces chars
  | pieces, _ => pieces.flatten

-- What is refused: the first offset that addresses no character, and only if there is none the first one that does not
-- come after the one before it.
inductive Refused (s : Text) (indices : List Nat) : SplitError → Prop where
  | outOfRange : indices = front ++ index :: later → (∀ earlier ∈ front, Addresses s earlier) → size s ≤ index →
      Refused s indices (.outOfRange index (size s))
  | offBoundary : indices = front ++ index :: later → (∀ earlier ∈ front, Addresses s earlier) → index < size s →
      isBoundary s index = false → Refused s indices (.offBoundary index)
  | unordered : (∀ index ∈ indices, Addresses s index) → indices = front ++ last :: index :: later →
      (front ++ [last]).Pairwise (· < ·) → index ≤ last → Refused s indices (.unordered index)

-- The same split by slices of the whole text, none where one of them does not exist. What is dropped at an offset is as
-- wide as the character there, or one byte wide at the end of the text.
def slicedAt (s : Text) (start : Nat) : List Nat → Option (Except SplitError (List Text))
  | [] => do return .ok [← from? s start]
  | index :: later =>
    if index < start then some (.error (.unordered index))
    else do
      let piece ← slice? s start index
      let width := (← from? s index).head?.elim 1 Char.utf8Size
      return (piece :: ·) <$> (← slicedAt s (index + width) later)

def slicedSplit (s : Text) (indices : List Nat) : Option (Except SplitError (List Text)) :=
  match indices.findSome? (indexError? s) with
  | some error => some (.error error)
  | none => slicedAt s 0 indices

variable {s rest after : Text} {start index last : Nat} {c : Char} {indices front later : List Nat}

theorem dropBytes_of_append (before after : Text) : dropBytes (size before) (before ++ after) = after := by
  have whole := takeBytes_append_dropBytes (size before) (before ++ after)
  rw [takeBytes_of_append] at whole
  exact List.append_cancel_left whole

theorem from?_between (here : from? s start = some rest) (there : from? s index = some after) (le : start ≤ index) :
    ∃ piece, rest = piece ++ after ∧ index = start + size piece := by
  obtain ⟨front, rfl, rfl⟩ := from?_eq_some.mp here
  obtain ⟨front', whole, rfl⟩ := from?_eq_some.mp there
  rcases List.append_eq_append_iff.mp whole with ⟨piece, rfl, rfl⟩ | ⟨more, rfl, rfl⟩
  · exact ⟨piece, rfl, size_append _ _⟩
  · rw [size_append] at le
    have nothing : more = [] := size_eq_zero.mp (by omega)
    subst nothing
    exact ⟨[], rfl, by simp⟩

theorem addresses_iff : Addresses s index ↔ ∃ c after, from? s index = some (c :: after) := by
  constructor
  · rintro ⟨inside, boundary⟩
    obtain ⟨before, after, rfl, rfl⟩ := isBoundary_iff.mp boundary
    cases after with
    | nil => simp at inside
    | cons c after => exact ⟨c, after, from?_eq_some.mpr ⟨before, rfl, rfl⟩⟩
  · rintro ⟨c, after, here⟩
    have positive := c.utf8Size_pos
    have whole := from?_size here
    obtain ⟨before, cut⟩ := from?_eq_some.mp here
    rw [size_cons] at whole
    exact ⟨by omega, isBoundary_iff.mpr ⟨before, _, cut⟩⟩

theorem beyond_iff (here : from? s last = some (c :: after)) (addresses : Addresses s index) :
    index < last + c.utf8Size ↔ index ≤ last := by
  have positive := c.utf8Size_pos
  refine ⟨fun before => Nat.le_of_not_lt fun beyond => ?_, fun le => by omega⟩
  obtain ⟨d, following, there⟩ := addresses_iff.mp addresses
  obtain ⟨piece, whole, rfl⟩ := from?_between here there (Nat.le_of_lt beyond)
  cases piece with
  | nil => simp at beyond
  | cons e piece =>
    obtain ⟨rfl, _⟩ := List.cons.inj whole
    rw [size_cons] at before
    omega

theorem indexError?_eq_none : indexError? s index = none ↔ Addresses s index := by
  unfold indexError? inRange
  constructor
  · intro none
    split at none
    · cases none
    · rename_i inside
      split at none
      · rename_i boundary
        exact ⟨by simpa using inside, boundary⟩
      · cases none
  · rintro ⟨inside, boundary⟩
    simp [inside, boundary]

theorem indexError?_eq_some {error : SplitError} : indexError? s index = some error ↔
    size s ≤ index ∧ error = .outOfRange index (size s) ∨
      index < size s ∧ isBoundary s index = false ∧ error = .offBoundary index := by
  unfold indexError? inRange
  by_cases inside : index < size s
  · have bounded := Nat.not_le.mpr inside
    cases boundary : isBoundary s index <;> simp [inside, bounded, @eq_comm _ error]
  · simp [inside, Nat.le_of_not_lt inside, @eq_comm _ error]

structure Through (s : Text) (start : Nat) (rest : Text) (front : List Nat) (pieces : List Text) (chars : List Char)
    (stop : Nat) (after : Text) : Prop where
  left : from? s stop = some after
  onward : start ≤ stop
  passed : ∀ last ∈ front, last < stop
  dropped : front.map (charAt? s) = chars.map some
  count : pieces.length = chars.length
  spelled : weave (pieces ++ [after]) chars = rest
  split : ∀ later, piecesAt start rest (front ++ later) = (pieces ++ ·) <$> piecesAt stop after later

theorem through_nil (here : from? s start = some rest) : Through s start rest [] [] [] start rest where
  left := here
  onward := Nat.le_refl _
  passed _ none := nomatch none
  dropped := rfl
  count := rfl
  spelled := List.append_nil rest
  split later := by
    rw [List.nil_append]
    exact (id_map _).symm

theorem piecesAt_cut (here : from? s start = some rest) (there : from? s index = some (c :: after)) (le : start ≤ index) :
    ∃ piece, rest = piece ++ c :: after ∧ index = start + size piece ∧
      ∀ later, piecesAt start rest (index :: later) = (piece :: ·) <$> piecesAt (index + c.utf8Size) after later := by
  obtain ⟨piece, rfl, rfl⟩ := from?_between here there le
  refine ⟨piece, rfl, rfl, fun later => ?_⟩
  rw [piecesAt, if_neg (Nat.not_lt.mpr le), Nat.add_sub_cancel_left, takeBytes_of_append, dropBytes_of_append]

theorem cut_beyond (there : from? s index = some (c :: after)) (ascending : (index :: later).Pairwise (· < ·))
    (addressed : ∀ index ∈ later, Addresses s index) : ∀ next ∈ later, index + c.utf8Size ≤ next := by
  intro next member
  have more := (List.pairwise_cons.mp ascending).1 next member
  exact Nat.le_of_not_lt fun early => Nat.not_le.mpr more ((beyond_iff there (addressed next member)).mp early)

theorem piecesAt_through (addressed : ∀ index ∈ front, Addresses s index) (ascending : front.Pairwise (· < ·))
    (beyond : ∀ index ∈ front, start ≤ index) (here : from? s start = some rest) :
    ∃ pieces chars stop after, Through s start rest front pieces chars stop after := by
  induction front generalizing start rest with
  | nil => exact ⟨[], [], start, rest, through_nil here⟩
  | cons index front ih =>
    obtain ⟨addresses, addressed'⟩ := List.forall_mem_cons.mp addressed
    obtain ⟨c, after, there⟩ := addresses_iff.mp addresses
    obtain ⟨piece, rfl, place, cut⟩ := piecesAt_cut here there (beyond index List.mem_cons_self)
    have next : from? s (index + c.utf8Size) = some after := from?_next there
    obtain ⟨pieces, chars, stop, left, through⟩ :=
      ih addressed' ascending.of_cons (cut_beyond there ascending addressed') next
    have positive := c.utf8Size_pos
    have within := through.onward
    refine ⟨piece :: pieces, c :: chars, stop, left, through.left, by omega, ?_, ?_, ?_, ?_, fun later => ?_⟩
    · exact List.forall_mem_cons.mpr ⟨by omega, through.passed⟩
    · simp [charAt?, there, through.dropped]
    · simp [through.count]
    · rw [List.cons_append, weave, through.spelled]
    · rw [List.cons_append, cut, through.split]
      cases piecesAt stop left later <;> rfl

theorem ascending_or (indices : List Nat) : indices.Pairwise (· < ·) ∨ ∃ front last index later,
    indices = front ++ last :: index :: later ∧ (front ++ [last]).Pairwise (· < ·) ∧ index ≤ last := by
  induction indices using List.reverseRecOn with
  | nil => exact .inl List.Pairwise.nil
  | append_singleton indices index ih =>
    rcases ih with ascending | ⟨front, last, other, later, rfl, ascending, less⟩
    · cases ending : indices.getLast? with
      | none =>
        rw [List.getLast?_eq_none_iff.mp ending]
        exact .inl (List.pairwise_singleton _ _)
      | some last =>
        obtain ⟨front, rfl⟩ := List.getLast?_eq_some_iff.mp ending
        rcases Nat.lt_or_ge last index with more | less
        · refine .inl (List.pairwise_append.mpr ⟨ascending, List.pairwise_singleton _ _, fun earlier member other single => ?_⟩)
          cases List.mem_singleton.mp single
          rcases List.mem_append.mp member with sooner | same
          · exact Nat.lt_trans ((List.pairwise_append.mp ascending).2.2 earlier sooner last (List.mem_singleton.mpr rfl)) more
          · exact List.mem_singleton.mp same ▸ more
        · exact .inr ⟨front, last, index, [], by simp, ascending, less⟩
    · exact .inr ⟨front, last, other, later ++ [index], by simp, ascending, less⟩

theorem splitAt_addressed (addressed : ∀ index ∈ indices, Addresses s index) : splitAt s indices = piecesAt 0 s indices := by
  have none : indices.findSome? (indexError? s) = none :=
    List.findSome?_eq_none_iff.mpr fun index member => indexError?_eq_none.mpr (addressed index member)
  rw [splitAt, none]

theorem splitAt_ascending (addressed : ∀ index ∈ indices, Addresses s index) (ascending : indices.Pairwise (· < ·)) :
    ∃ pieces chars, splitAt s indices = .ok pieces ∧ indices.map (charAt? s) = chars.map some ∧
      pieces.length = chars.length + 1 ∧ weave pieces chars = s := by
  obtain ⟨pieces, chars, stop, after, through⟩ :=
    piecesAt_through addressed ascending (fun index _ => Nat.zero_le index) (from?_zero s)
  refine ⟨pieces ++ [after], chars, ?_, through.dropped, by simp [through.count], through.spelled⟩
  have whole := through.split []
  rw [List.append_nil] at whole
  rw [splitAt_addressed addressed, whole]
  rfl

theorem splitAt_refused {error : SplitError} (refused : Refused s indices error) : splitAt s indices = .error error := by
  cases refused with
  | @outOfRange front index later split addressed outside =>
    have found : indices.findSome? (indexError? s) = some (.outOfRange index (size s)) :=
      List.findSome?_eq_some_iff.mpr ⟨front, index, later, split, indexError?_eq_some.mpr (.inl ⟨outside, rfl⟩),
        fun earlier member => indexError?_eq_none.mpr (addressed earlier member)⟩
    rw [splitAt, found]
  | @offBoundary front index later split addressed inside off =>
    have found : indices.findSome? (indexError? s) = some (.offBoundary index) :=
      List.findSome?_eq_some_iff.mpr ⟨front, index, later, split, indexError?_eq_some.mpr (.inr ⟨inside, off, rfl⟩),
        fun earlier member => indexError?_eq_none.mpr (addressed earlier member)⟩
    rw [splitAt, found]
  | @unordered front last index later addressed split ascending less =>
    have whole : indices = (front ++ [last]) ++ index :: later := by simp [split]
    have addressed' : ∀ index ∈ front ++ [last], Addresses s index :=
      fun index member => addressed index (whole ▸ List.mem_append_left _ member)
    obtain ⟨pieces, chars, stop, after, through⟩ :=
      piecesAt_through addressed' ascending (fun index _ => Nat.zero_le index) (from?_zero s)
    have early : index < stop := Nat.lt_of_le_of_lt less (through.passed last (by simp))
    rw [splitAt_addressed addressed, whole, through.split, piecesAt, if_pos early]
    rfl

theorem addressed_or_refused (s : Text) (indices : List Nat) :
    ((∀ index ∈ indices, Addresses s index) ∧ indices.Pairwise (· < ·)) ∨ ∃ error, Refused s indices error := by
  cases found : indices.findSome? (indexError? s) with
  | some error =>
    obtain ⟨front, index, later, split, fails, earlier⟩ := List.findSome?_eq_some_iff.mp found
    have addressed : ∀ index ∈ front, Addresses s index := fun index member => indexError?_eq_none.mp (earlier index member)
    rcases indexError?_eq_some.mp fails with ⟨outside, _⟩ | ⟨inside, off, _⟩
    · exact .inr ⟨_, .outOfRange split addressed outside⟩
    · exact .inr ⟨_, .offBoundary split addressed inside off⟩
  | none =>
    have addressed : ∀ index ∈ indices, Addresses s index :=
      fun index member => indexError?_eq_none.mp (List.findSome?_eq_none_iff.mp found index member)
    rcases ascending_or indices with ascending | ⟨front, last, index, later, split, ascending, less⟩
    · exact .inl ⟨addressed, ascending⟩
    · exact .inr ⟨_, .unordered addressed split ascending less⟩

theorem slicedAt_eq (addressed : ∀ index ∈ indices, Addresses s index) (here : from? s start = some rest) :
    slicedAt s start indices = some (piecesAt start rest indices) := by
  induction indices generalizing start rest with
  | nil => simp [slicedAt, here, piecesAt]
  | cons index later ih =>
    obtain ⟨addresses, addressed'⟩ := List.forall_mem_cons.mp addressed
    by_cases early : index < start
    · simp [slicedAt, piecesAt, early]
    obtain ⟨c, after, there⟩ := addresses_iff.mp addresses
    obtain ⟨piece, rfl, rfl, cut⟩ := piecesAt_cut here there (Nat.le_of_not_lt early)
    have next : from? s (start + size piece + c.utf8Size) = some after := from?_next there
    have sliced : slice? s start (start + size piece) = some piece := slice?_of_from? here
    rw [cut, slicedAt, if_neg early, sliced, there]
    simp [ih addressed' next]

theorem slicedSplit_eq (s : Text) (indices : List Nat) : slicedSplit s indices = some (splitAt s indices) := by
  unfold slicedSplit splitAt
  cases found : indices.findSome? (indexError? s) with
  | some error => rfl
  | none =>
    exact slicedAt_eq (fun index member => indexError?_eq_none.mp (List.findSome?_eq_none_iff.mp found index member))
      (from?_zero s)

-- A text is split exactly at offsets that address characters of it and ascend, and then the pieces spell it again with
-- those characters between them. Anything else is refused for the first fault of the list. No slice of it fails to exist.
theorem splitAt_first (s : Text) (indices : List Nat) :
    ((∃ pieces, splitAt s indices = .ok pieces) ↔ (∀ index ∈ indices, Addresses s index) ∧ indices.Pairwise (· < ·)) ∧
    (∀ pieces, splitAt s indices = .ok pieces → ∃ chars, indices.map (charAt? s) = chars.map some ∧
      pieces.length = chars.length + 1 ∧ weave pieces chars = s) ∧
    (∀ error, splitAt s indices = .error error ↔ Refused s indices error) ∧
    slicedSplit s indices = some (splitAt s indices) := by
  rcases addressed_or_refused s indices with ⟨addressed, ascending⟩ | ⟨error, refused⟩
  · obtain ⟨pieces, chars, answer, dropped, count, spelled⟩ := splitAt_ascending addressed ascending
    refine ⟨iff_of_true ⟨pieces, answer⟩ ⟨addressed, ascending⟩, fun other answer' => ?_, fun error => ⟨fun fails => ?_,
      splitAt_refused⟩, slicedSplit_eq s indices⟩
    · cases answer.symm.trans answer'
      exact ⟨chars, dropped, count, spelled⟩
    · cases answer.symm.trans fails
  · have answer := splitAt_refused refused
    refine ⟨iff_of_false ?_ ?_, fun pieces answer' => ?_, fun other => ⟨fun fails => ?_, splitAt_refused⟩, slicedSplit_eq s indices⟩
    · rintro ⟨pieces, answer'⟩
      cases answer.symm.trans answer'
    · rintro ⟨addressed, ascending⟩
      obtain ⟨pieces, _, answer', _⟩ := splitAt_ascending addressed ascending
      cases answer.symm.trans answer'
    · cases answer.symm.trans answer'
    · cases answer.symm.trans fails
      exact refused

-- `|é|b`, split at both bars, and at lists with an offset inside a character and with one that comes again.
theorem splitAt_first_bars :
    let s : Text := ['|', 'é', '|', 'b']
    splitAt s [0, 3] = .ok [[], ['é'], ['b']] ∧
      (∃ chars, [0, 3].map (charAt? s) = chars.map some ∧ 3 = chars.length + 1 ∧ weave [[], ['é'], ['b']] chars = s) ∧
      Refused s [3, 0, 2] (.offBoundary 2) ∧ Refused s [0, 3, 3] (.unordered 3) := by
  intro s
  have answer : splitAt s [0, 3] = .ok [[], ['é'], ['b']] := rfl
  exact ⟨answer, (splitAt_first s [0, 3]).2.1 _ answer, ((splitAt_first s [3, 0, 2]).2.2.1 _).mp rfl,
    ((splitAt_first s [0, 3, 3]).2.2.1 _).mp rfl⟩

end PatternMachine.Text
