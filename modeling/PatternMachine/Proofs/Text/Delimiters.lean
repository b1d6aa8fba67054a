import PatternMachine.Proofs.Text.Pieces
import PatternMachine.Proofs.Text.Occurrences

namespace PatternMachine.Text

-- How what follows offset `start` is cut at a list of offsets. One that lies behind, in a delimiter already used, is passed over.
inductive Cuts (delimiter : Text) : Nat → Text → List Nat → List Text → Prop where
  | done : Cuts delimiter start rest [] [rest]
  | pass : index < start → Cuts delimiter start rest later pieces → Cuts delimiter start rest (index :: later) pieces
  | cut : Cuts delimiter (start + size piece + size delimiter) after later pieces →
      Cuts delimiter start (piece ++ (delimiter ++ after)) ((start + size piece) :: later) (piece :: pieces)

-- The same split by slices of the whole text, none where one of them does not exist.
def slicedOn (s : Text) (width start : Nat) : List Nat → Option (List Text)
  | [] => do return [← from? s start]
  | index :: later =>
    if index < start then slicedOn s width start later
    else do
      let piece ← slice? s start index
      return piece :: (← slicedOn s width (index + width) later)

variable {s delimiter rest : Text} {start : Nat} {c : Char} {indices : List Nat} {pieces : List Text}

theorem piecesOn_cuts (here : from? s start = some rest)
    (present : ∀ index ∈ indices, ∃ after, from? s index = some (delimiter ++ after)) :
    Cuts delimiter start rest indices (piecesOn (size delimiter) start rest indices) := by
  induction indices generalizing start rest with
  | nil => exact .done
  | cons index later ih =>
    obtain ⟨⟨after, there⟩, present'⟩ := List.forall_mem_cons.mp present
    rw [piecesOn]
    split
    · rename_i early
      exact .pass early (ih here present')
    · rename_i onward
      obtain ⟨piece, rfl, rfl⟩ := from?_between here there (Nat.le_of_not_lt onward)
      have wide : start + size piece + size delimiter - start = size (piece ++ delimiter) := by
        rw [size_append]
        omega
      rw [Nat.add_sub_cancel_left, takeBytes_of_append, wide, ← List.append_assoc, dropBytes_of_append, List.append_assoc]
      exact .cut (ih (from?_advance there) present')

theorem splitOn_cuts (s delimiter : Text) (outside : Bool) :
    Cuts delimiter 0 s (s.occurrences delimiter outside) (splitOn s delimiter outside) :=
  piecesOn_cuts (from?_zero s) fun _ member => from?_of_mem member

theorem Cuts.nonempty (cuts : Cuts delimiter start rest indices pieces) : pieces ≠ [] := by
  induction cuts with
  | done => exact List.cons_ne_nil _ _
  | pass _ _ ih => exact ih
  | cut _ _ => exact List.cons_ne_nil _ _

theorem joinWith_cons (separator piece : Text) (more : pieces ≠ []) :
    joinWith separator (piece :: pieces) = piece ++ (separator ++ joinWith separator pieces) := by
  obtain ⟨next, rest, rfl⟩ := List.exists_cons_of_ne_nil more
  exact List.append_assoc _ _ _

theorem Cuts.joined (cuts : Cuts delimiter start rest indices pieces) : joinWith delimiter pieces = rest := by
  induction cuts with
  | done => rfl
  | pass _ _ ih => exact ih
  | cut more ih => rw [joinWith_cons _ _ more.nonempty, ih]

theorem Cuts.sliced (cuts : Cuts delimiter start rest indices pieces) (here : from? s start = some rest) :
    slicedOn s (size delimiter) start indices = some pieces := by
  induction cuts with
  | done => simp [slicedOn, here]
  | pass early _ ih => rw [slicedOn, if_pos early, ih here]
  | @cut start piece after _ _ _ ih =>
    have sliced : slice? s start (start + size piece) = some piece := slice?_of_from? here
    rw [slicedOn, if_neg (by omega), sliced]
    simp [ih (from?_advance (from?_advance here))]

-- An unescaped delimiter inside a piece would be one of the text, and cut it earlier.
theorem Cuts.bare (nonempty : delimiter ≠ []) (closed : delimiter.getLast? ≠ some '\\')
    (cuts : Cuts delimiter start rest indices pieces) (ascending : indices.Pairwise (· < ·))
    (every : ∀ offset, occursBareAt rest offset delimiter = true → start + offset ∈ indices) :
    ∀ piece ∈ pieces, ∀ offset, occursBareAt piece offset delimiter = false := by
  have wide : size delimiter ≠ 0 := fun zero => nonempty (size_eq_zero.mp zero)
  induction cuts with
  | done =>
    refine List.forall_mem_singleton.mpr fun offset => ?_
    apply Bool.eq_false_iff.mpr
    intro bare
    cases every offset bare
  | pass early _ ih =>
    refine ih ascending.of_cons fun offset bare => ?_
    rcases List.mem_cons.mp (every offset bare) with same | member
    · omega
    · exact member
  | @cut start piece after later pieces _ ih =>
    have first : ∀ offset, occursBareAt piece offset delimiter = false := by
      intro offset
      apply Bool.eq_false_iff.mpr
      intro bare
      obtain ⟨before, behind, rfl, rfl, _⟩ := occursBareAt_iff_split.mp bare
      have width : size (before ++ (delimiter ++ behind)) = size before + (size delimiter + size behind) := by simp
      have next : start + size (before ++ (delimiter ++ behind)) ≤ start + size before := by
        rcases List.mem_cons.mp (every _ (occursBareAt_front bare)) with same | member
        · exact Nat.le_of_eq same.symm
        · exact Nat.le_of_lt ((List.pairwise_cons.mp ascending).1 _ member)
      omega
    have onward : ∀ offset, occursBareAt after offset delimiter = true →
        start + size piece + size delimiter + offset ∈ later := by
      intro offset bare
      have bare' := occursBareAt_behind (endsEscaping_closed nonempty closed piece) bare
      rw [List.append_assoc, size_append] at bare'
      rcases List.mem_cons.mp (every _ bare') with same | member
      · omega
      · rwa [← Nat.add_assoc, ← Nat.add_assoc] at member
    exact List.forall_mem_cons.mpr ⟨first, ih ascending.of_cons onward⟩

theorem Cuts.single (cuts : Cuts [c] start rest indices pieces) (here : from? s start = some rest)
    (addressed : ∀ index ∈ indices, Addresses s index) (ascending : indices.Pairwise (· < ·))
    (beyond : ∀ index ∈ indices, start ≤ index) : piecesAt start rest indices = .ok pieces := by
  induction cuts with
  | done => rfl
  | @pass index start _ _ _ early _ _ =>
    have onward := beyond index List.mem_cons_self
    omega
  | @cut start piece after later pieces _ ih =>
    have there : from? s (start + size piece) = some (c :: after) := from?_advance here
    have next : from? s (start + size piece + c.utf8Size) = some after := from?_next there
    have addressed' := (List.forall_mem_cons.mp addressed).2
    rw [piecesAt, if_neg (by omega), Nat.add_sub_cancel_left, takeBytes_of_append, dropBytes_of_append]
    have split := ih next addressed' ascending.of_cons (cut_beyond there ascending addressed')
    exact congrArg ((piece :: ·) <$> ·) split

theorem splitAt_occurrences (s : Text) (c : Char) (outside : Bool) :
    splitAt s (s.occurrences [c] outside) = .ok (splitOn s [c] outside) := by
  have addressed : ∀ index ∈ s.occurrences [c] outside, Addresses s index := fun index member =>
    have ⟨after, here⟩ := from?_of_mem member
    addresses_iff.mpr ⟨c, after, here⟩
  rw [splitAt_addressed addressed]
  exact (splitOn_cuts s [c] outside).single (from?_zero s) addressed (occurrences_ascending s [c] outside) fun _ _ => Nat.zero_le _

-- The pieces joined with the delimiter are the text again, and no slice of it fails to exist. Where depth does not matter and
-- the delimiter escapes nothing, no piece has an unescaped one left. A split on one character is the split at its offsets.
theorem splitOn_pieces (s delimiter : Text) (outside : Bool) :
    joinWith delimiter (splitOn s delimiter outside) = s ∧
    (outside = false → delimiter ≠ [] → delimiter.getLast? ≠ some '\\' →
      ∀ piece ∈ splitOn s delimiter outside, ∀ offset, occursBareAt piece offset delimiter = false) ∧
    (∀ c, delimiter = [c] → splitAt s (s.occurrences delimiter outside) = .ok (splitOn s delimiter outside)) ∧
    slicedOn s (size delimiter) 0 (s.occurrences delimiter outside) = some (splitOn s delimiter outside) := by
  have cuts := splitOn_cuts s delimiter outside
  refine ⟨cuts.joined, ?_, ?_, cuts.sliced (from?_zero s)⟩
  · rintro rfl nonempty closed
    refine cuts.bare nonempty closed (occurrences_ascending s delimiter false) fun offset bare => ?_
    rw [Nat.zero_add]
    exact (mem_occurrences nonempty).mpr bare
  · rintro c rfl
    exact splitAt_occurrences s c outside

-- `a|||b\|||c` split on two bars, one of them passed over and one escaped, and `é|(b|c)|d` on single ones outside of groups.
theorem splitOn_pieces_bars :
    let pieces : List Text := [['a'], ['|', 'b', '\\', '|'], ['c']]
    let grouped : Text := ['é', '|', '(', 'b', '|', 'c', ')', '|', 'd']
    splitOn ['a', '|', '|', '|', 'b', '\\', '|', '|', '|', 'c'] ['|', '|'] false = pieces ∧
      (∀ piece ∈ pieces, ∀ offset, occursBareAt piece offset ['|', '|'] = false) ∧
      splitAt grouped (grouped.occurrences ['|'] true) = .ok [['é'], ['(', 'b', '|', 'c', ')'], ['d']] := by
  intro pieces grouped
  have answer : splitOn ['a', '|', '|', '|', 'b', '\\', '|', '|', '|', 'c'] ['|', '|'] false = pieces := rfl
  refine ⟨answer, ?_, (splitOn_pieces grouped ['|'] true).2.2.1 '|' rfl⟩
  exact answer ▸ (splitOn_pieces _ ['|', '|'] false).2.1 rfl (List.cons_ne_nil _ _) (by decide)

end PatternMachine.Text
