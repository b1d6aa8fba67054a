import PatternMachine.Proofs.Pattern.Group
import PatternMachine.Proofs.Text.Escaping

namespace PatternMachine

namespace Text

theorem endsEscaping_bar {body : Text} (settled : endsEscaping body = false) (other : Text) :
    endsEscaping (body ++ '|' :: other) = endsEscaping other := by
  have bar : endsEscaping ['|'] = false := rfl
  exact (endsEscaping_behind settled ('|' :: other)).trans (endsEscaping_behind bar other)

theorem cursors_reading_behind {front : Text} (settled : front.endsEscaping = false) (back : Text) :
    (front ++ back).cursors.map Cursor.reading = (front.cursors ++ back.cursors).map Cursor.reading := by
  have split := cursors_reading_append front back
  rwa [settled] at split

end Text

theorem Cursor.nested?_append {p : Cursor} {opened next : List Nat} (step : p.nested? opened = some next)
    (below : List Nat) : p.nested? (opened ++ below) = some (next ++ below) := by
  unfold nested? at step ⊢
  split at step
  · rename_i opening
    cases step
    exact if_pos opening
  · rename_i silent
    rw [if_neg silent]
    split at step
    · rename_i closing
      rw [if_pos closing]
      cases opened with
      | nil => cases step
      | cons _ outer =>
        cases step
        rfl
    · rename_i plain
      cases step
      exact if_neg plain

theorem groupFaultFrom_append {front back : List Cursor} {opened below : List Nat}
    (balanced : groupFaultFrom opened front = none) (later : groupFaultFrom below back = none) :
    groupFaultFrom (opened ++ below) (front ++ back) = none := by
  induction front generalizing opened with
  | nil =>
    rw [groupFaultFrom_nil] at balanced
    rwa [balanced]
  | cons p front ih =>
    obtain ⟨next, step, balanced⟩ := groupFaultFrom_cons.mp balanced
    exact groupFaultFrom_cons.mpr ⟨next ++ below, Cursor.nested?_append step below, ih balanced⟩

namespace Pattern

def wrap (anchors : Anchors) (body : Text) : Text :=
  (if anchors.fixedStart then ['^'] else []) ++ (body ++ if anchors.fixedEnd then ['$'] else [])

def enclose (capturing : Bool) (body : Text) : Text :=
  '(' :: ((if capturing then [] else CaptureTable.plainMark) ++ (body ++ [')']))

-- A body that has no anchor of its own.
structure Plain (body : Text) : Prop where
  balanced : groupFault? body = none
  unanchored : ∀ p ∈ body.cursors, p.isBare '^' = false ∧ p.isBare '$' = false

theorem unanchored_congr {cursors others : List Cursor} (same : cursors.map Cursor.reading = others.map Cursor.reading)
    (unanchored : ∀ p ∈ others, p.isBare '^' = false ∧ p.isBare '$' = false) :
    ∀ p ∈ cursors, p.isBare '^' = false ∧ p.isBare '$' = false := by
  intro p member
  have read : p.reading ∈ others.map Cursor.reading := same ▸ List.mem_map.mpr ⟨p, member, rfl⟩
  obtain ⟨q, listed, equal⟩ := List.mem_map.mp read
  rw [Cursor.isBare_reading equal.symm, Cursor.isBare_reading equal.symm]
  exact unanchored q listed

namespace Plain

variable {body other : Text}

theorem append (plain : Plain body) {whole : Text} {cursors : List Cursor}
    (reading : whole.cursors.map Cursor.reading = (body.cursors ++ cursors).map Cursor.reading)
    (balanced : groupFaultFrom [] cursors = none) (unanchored : ∀ p ∈ cursors, p.isBare '^' = false ∧ p.isBare '$' = false) :
    Plain whole := by
  refine ⟨groupFaultFrom_congr reading.symm rfl (groupFaultFrom_append plain.balanced balanced),
    unanchored_congr reading fun q listed => ?_⟩
  rcases List.mem_append.mp listed with front | back
  · exact plain.unanchored q front
  · exact unanchored q back

theorem alternative (plain : Plain body) (settled : body.endsEscaping = false) (later : Plain other) :
    Plain (body ++ '|' :: other) := by
  have reading : (body ++ '|' :: other).cursors.map Cursor.reading =
      (body.cursors ++ ⟨0, '|', other, false⟩ :: other.cursors).map Cursor.reading := by
    refine (Text.cursors_reading_behind settled ('|' :: other)).trans ?_
    simp [Text.cursorsFrom, Text.cursors, Cursor.reading, Text.cursorsFrom_reading other _ 0]
  refine plain.append reading later.balanced ?_
  intro p member
  rcases List.mem_cons.mp member with rfl | member
  · exact ⟨rfl, rfl⟩
  · exact later.unanchored p member

theorem enclosed (plain : Plain body) (settled : body.endsEscaping = false) (capturing : Bool) :
    Plain (enclose capturing body) := by
  let front : List Cursor := ⟨0, '(', [], false⟩ :: if capturing then [] else [⟨0, '?', [], false⟩, ⟨0, ':', [], false⟩]
  let close : Cursor := ⟨0, ')', [], false⟩
  have inner : ∀ offset, (Text.cursorsFrom offset false (body ++ [')'])).map Cursor.reading =
      (body.cursors ++ [close]).map Cursor.reading := by
    intro offset
    exact (Text.cursorsFrom_reading _ offset 0 false).trans (Text.cursors_reading_behind settled [')'])
  have reading : (enclose capturing body).cursors.map Cursor.reading =
      (front ++ (body.cursors ++ [close])).map Cursor.reading := by
    rw [List.map_append, ← inner (if capturing then 1 else 3)]
    cases capturing <;> rfl
  have closes : groupFaultFrom [0] [close] = none := rfl
  have nested : groupFaultFrom [0] (body.cursors ++ [close]) = none := groupFaultFrom_append plain.balanced closes
  refine ⟨groupFaultFrom_congr reading.symm rfl ?_, unanchored_congr reading fun q listed => ?_⟩
  · cases capturing <;> exact nested
  · rcases List.mem_append.mp listed with mark | within
    · have silent : ∀ q ∈ front, q.isBare '^' = false ∧ q.isBare '$' = false := by
        cases capturing <;> decide
      exact silent q mark
    · rcases List.mem_append.mp within with held | last
      · exact plain.unanchored q held
      · cases List.mem_singleton.mp last
        exact ⟨rfl, rfl⟩

theorem enclosed_settled (capturing : Bool) (body : Text) : (enclose capturing body).endsEscaping = false := by
  have last : enclose capturing body = ('(' :: ((if capturing then [] else CaptureTable.plainMark) ++ body)) ++ [')'] := by
    simp [enclose]
  rw [last, Text.endsEscaping_concat]
  rfl

end Plain

theorem cursors_dollar {body : Text} (settled : body.endsEscaping = false) :
    (body ++ ['$']).cursors.map Cursor.reading = (body.cursors ++ [(⟨0, '$', [], false⟩ : Cursor)]).map Cursor.reading :=
  Text.cursors_reading_behind settled ['$']

theorem stripEnd_wrap {body : Text} (plain : Plain body) {fixedEnd : Bool}
    (settled : fixedEnd = true → body.endsEscaping = false) :
    stripEnd (body ++ if fixedEnd then ['$'] else []) = (fixedEnd, body) := by
  unfold stripEnd
  cases fixedEnd with
  | true =>
    have last : ((body ++ ['$']).cursors.getLast?).map Cursor.reading = some ('$', false) := by
      rw [← List.getLast?_map, cursors_dollar (settled rfl)]
      simp [Cursor.reading]
    obtain ⟨p, found, same⟩ := Option.map_eq_some_iff.mp last
    have bare : p.isBare '$' = true := Cursor.isBare_reading (q := ⟨0, '$', [], false⟩) same '$'
    rw [if_pos rfl, found, Option.any_some, bare, if_pos rfl, List.dropLast_concat]
  | false =>
    rw [if_neg Bool.false_ne_true, List.append_nil]
    apply if_neg
    intro anchored
    obtain ⟨p, found, bare⟩ := (Option.any_eq_true _ _).mp anchored
    rw [(plain.unanchored p (List.mem_of_getLast? found)).2] at bare
    cases bare

theorem stripStart_wrap {body : Text} (plain : Plain body) (anchors : Anchors) :
    stripStart (wrap anchors body) = (anchors.fixedStart, body ++ if anchors.fixedEnd then ['$'] else []) := by
  obtain ⟨fixedStart, fixedEnd⟩ := anchors
  cases fixedStart with
  | true => rfl
  | false =>
    cases body with
    | nil => cases fixedEnd <;> rfl
    | cons c rest =>
      have apart : c ≠ '^' := by
        have here := (plain.unanchored ⟨0, c, rest, false⟩ List.mem_cons_self).1
        simpa [Cursor.isBare] using here
      exact if_neg apart

theorem balanced_wrap {body : Text} (plain : Plain body) {anchors : Anchors}
    (settled : anchors.fixedEnd = true → body.endsEscaping = false) : groupFault? (wrap anchors body) = none := by
  obtain ⟨fixedStart, fixedEnd⟩ := anchors
  have inner : groupFault? (body ++ if fixedEnd then ['$'] else []) = none := by
    cases fixedEnd with
    | true => exact groupFaultFrom_congr (cursors_dollar (settled rfl)).symm rfl (groupFaultFrom_append plain.balanced rfl)
    | false =>
      rw [if_neg Bool.false_ne_true, List.append_nil]
      exact plain.balanced
  cases fixedStart with
  | true =>
    have later : groupFaultFrom [] (Text.cursorsFrom 1 false (body ++ if fixedEnd then ['$'] else [])) = none :=
      groupFaultFrom_congr (Text.cursorsFrom_reading _ 0 1 false) rfl inner
    exact later
  | false => exact inner

theorem parse_wrap {body : Text} (plain : Plain body) {anchors : Anchors}
    (settled : anchors.fixedEnd = true → body.endsEscaping = false) :
    Pattern.parse (wrap anchors body) = .ok ⟨wrap anchors body, body, anchors⟩ := by
  have placed : ∀ start, misplaced? start body = none := by
    intro start
    rw [misplaced?, Option.map_eq_none_iff, List.find?_eq_none]
    intro p member
    simp [plain.unanchored p member]
  unfold Pattern.parse
  rw [balanced_wrap plain settled]
  simp only [stripStart_wrap plain anchors, stripEnd_wrap plain settled, placed]

end Pattern
end PatternMachine
