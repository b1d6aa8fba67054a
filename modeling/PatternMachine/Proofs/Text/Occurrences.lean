import PatternMachine.Proofs.Text.Escaping

namespace PatternMachine.Text

variable {s value : Text} {offset : Nat} {outside : Bool}

def past (depth : Int) (p : Cursor) : Int := depth - [p].countP Cursor.closes + [p].countP Cursor.opens

theorem occurrencesFrom_cons (value : Text) (outside : Bool) (depth : Int) (p : Cursor) (rest : List Cursor) :
    occurrencesFrom value outside depth (p :: rest) =
      (if (!p.escaped && p.reads value) = true ∧ (outside = true → depth = [p].countP Cursor.closes) then [p.offset] else []) ++
        occurrencesFrom value outside (past depth p) rest := by
  rw [occurrencesFrom]
  cases escaped : p.escaped with
  | true =>
    have silent : p.opens = false ∧ p.closes = false := by simp [Cursor.opens, Cursor.closes, Cursor.isBare, escaped]
    simp [past, silent]
  | false =>
    have here : (if p.closes then depth - 1 else depth) = depth - [p].countP Cursor.closes := by
      cases closes : p.closes <;> simp [closes]
    have next : (if p.opens then depth - [p].countP Cursor.closes + 1 else depth - [p].countP Cursor.closes) = past depth p := by
      cases opens : p.opens <;> simp [opens, past]
    have found : ((!outside || depth - [p].countP Cursor.closes == 0) && p.reads value) = true ↔
        (!false && p.reads value) = true ∧ (outside = true → depth = [p].countP Cursor.closes) := by
      have zero : depth - [p].countP Cursor.closes = 0 ↔ depth = [p].countP Cursor.closes := by omega
      rw [← zero]
      cases outside <;> simp [and_comm]
    rw [if_neg Bool.false_ne_true]
    dsimp only
    rw [here, next]
    by_cases present : (!false && p.reads value) = true ∧ (outside = true → depth = [p].countP Cursor.closes)
    · rw [if_pos present, if_pos (found.mpr present)]
      rfl
    · rw [if_neg present, if_neg fun test => present (found.mp test)]
      rfl

theorem occurrencesFrom_append (value : Text) (outside : Bool) (depth : Int) (front later : List Cursor) :
    occurrencesFrom value outside depth (front ++ later) = occurrencesFrom value outside depth front ++
      occurrencesFrom value outside (depth + front.countP Cursor.opens - front.countP Cursor.closes) later := by
  induction front generalizing depth with
  | nil => simp [occurrencesFrom]
  | cons p front ih =>
    have moved : past depth p + front.countP Cursor.opens - front.countP Cursor.closes =
        depth + (p :: front).countP Cursor.opens - (p :: front).countP Cursor.closes := by
      simp only [past, List.countP_cons, List.countP_nil]
      omega
    rw [List.cons_append, occurrencesFrom_cons, ih, occurrencesFrom_cons value outside depth p front, List.append_assoc, moved]

theorem occurrencesFrom_every (value : Text) (depth : Int) (cursors : List Cursor) :
    occurrencesFrom value false depth cursors = (cursors.filter fun p => !p.escaped && p.reads value).map (·.offset) := by
  induction cursors generalizing depth with
  | nil => rfl
  | cons p rest ih =>
    rw [occurrencesFrom_cons, ih]
    cases found : !p.escaped && p.reads value <;> simp [found]

theorem occurrencesFrom_sublist (value : Text) (outside : Bool) (depth : Int) (cursors : List Cursor) :
    (occurrencesFrom value outside depth cursors).Sublist (occurrencesFrom value false 0 cursors) := by
  rw [occurrencesFrom_every]
  induction cursors generalizing depth with
  | nil => exact List.Sublist.refl _
  | cons p rest ih =>
    rw [occurrencesFrom_cons]
    cases found : !p.escaped && p.reads value with
    | false => simpa [found] using ih (past depth p)
    | true =>
      rw [List.filter_cons, if_pos found, List.map_cons]
      split
      · exact (ih (past depth p)).cons_cons p.offset
      · exact (ih (past depth p)).cons p.offset

theorem occurrences_every (some : value ≠ []) :
    s.occurrences value false = (s.cursors.filter fun p => !p.escaped && p.reads value).map (·.offset) := by
  rw [occurrences, if_neg (by simpa using some), occurrencesFrom_every]

theorem occurrences_sublist (s value : Text) (outside : Bool) :
    (s.occurrences value outside).Sublist (s.occurrences value false) := by
  unfold occurrences
  split
  · exact List.Sublist.refl _
  · exact occurrencesFrom_sublist value outside 0 s.cursors

theorem occurrences_ascending (s value : Text) (outside : Bool) : (s.occurrences value outside).Pairwise (· < ·) := by
  refine List.Pairwise.sublist (occurrences_sublist s value outside) ?_
  by_cases some : value = []
  · simp [occurrences, some]
  · rw [occurrences_every some]
    exact List.pairwise_map.mpr (s.cursors_ascending.filter _)

theorem mem_occurrences (some : value ≠ []) : offset ∈ s.occurrences value false ↔ occursBareAt s offset value = true := by
  rw [occurrences_every some, occursBareAt_iff_reads some, List.mem_map]
  simp only [List.mem_filter, and_assoc]

theorem from?_of_mem (member : offset ∈ s.occurrences value outside) : ∃ after, from? s offset = some (value ++ after) := by
  have some : value ≠ [] := by
    rintro rfl
    cases member
  have present := (mem_occurrences some).mp ((occurrences_sublist s value outside).subset member)
  obtain ⟨before, after, whole, place, _⟩ := occursBareAt_iff_split.mp present
  exact ⟨after, from?_eq_some.mpr ⟨before, whole, place⟩⟩

end PatternMachine.Text
