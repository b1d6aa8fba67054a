import PatternMachine.Proofs.Text.Escaping

namespace PatternMachine.Text

def bytes (s : Text) : List UInt8 := s.flatMap String.utf8EncodeChar
def backslash : UInt8 := 92

-- Whether an odd run of backslashes ends right before an offset, told from the bytes alone. Past the end nothing does.
def escapedByte (bytes : List UInt8) (offset : Nat) : Bool :=
  offset ≤ bytes.length && oddRun (· == backslash) (bytes.take offset)

inductive Lies (s : Text) : Nat → Prop where
  | cut (before after : Text) : s = before ++ after → Lies s (size before)
  | inside (before after : Text) (c : Char) (count : Nat) : s = before ++ c :: after → 0 < count → count < c.utf8Size →
      Lies s (size before + count)
  | past (offset : Nat) : size s < offset → Lies s offset

variable {s piece : Text} {start stop offset : Nat} {c : Char}

theorem Lies.behind (lies : Lies s offset) (c : Char) : Lies (c :: s) (c.utf8Size + offset) := by
  cases lies with
  | cut before after whole => exact .cut (c :: before) after (congrArg (c :: ·) whole)
  | inside before after d count whole positive within =>
    rw [← Nat.add_assoc]
    exact .inside (c :: before) after d count (congrArg (c :: ·) whole) positive within
  | past _ beyond => exact .past _ (Nat.add_lt_add_left beyond _)

theorem lies (s : Text) (offset : Nat) : Lies s offset := by
  induction s generalizing offset with
  | nil =>
    rcases Nat.eq_zero_or_pos offset with rfl | positive
    · exact .cut [] [] rfl
    · exact .past offset positive
  | cons c rest ih =>
    by_cases within : offset < c.utf8Size
    · rcases Nat.eq_zero_or_pos offset with rfl | positive
      · exact .cut [] (c :: rest) rfl
      · have here := Lies.inside [] rest c offset rfl positive within
        rwa [size_nil, Nat.zero_add] at here
    · have later := (ih (offset - c.utf8Size)).behind c
      rwa [Nat.add_sub_cancel' (Nat.le_of_not_lt within)] at later

theorem isEscaped_inside {before after : Text} {count : Nat} (positive : 0 < count) (within : count < c.utf8Size) :
    isEscaped (before ++ c :: after) (size before + count) = false := by
  have uncut : before? (before ++ c :: after) (size before + count) = none := by
    rw [Option.eq_none_iff_forall_ne_some]
    intro front found
    obtain ⟨rest, whole, place⟩ := before?_eq_some.mp found
    rcases List.append_eq_append_iff.mp whole with ⟨more, rfl, behind⟩ | ⟨more, rfl, _⟩
    · rw [size_append] at place
      cases more with
      | nil => simp at place; omega
      | cons d more =>
        obtain ⟨rfl, _⟩ := List.cons.inj behind
        rw [size_cons] at place
        omega
    · rw [size_append] at place
      omega
  rw [isEscaped, uncut, Option.any_none]

theorem isEscaped_past (beyond : size s < offset) : isEscaped s offset = false := by
  have uncut : before? s offset = none := by
    rw [Option.eq_none_iff_forall_ne_some]
    intro front found
    obtain ⟨rest, rfl, rfl⟩ := before?_eq_some.mp found
    rw [size_append] at beyond
    omega
  rw [isEscaped, uncut, Option.any_none]

theorem bytes_cons (c : Char) (rest : Text) : bytes (c :: rest) = String.utf8EncodeChar c ++ bytes rest := List.flatMap_cons

theorem bytes_append (front back : Text) : bytes (front ++ back) = bytes front ++ bytes back := List.flatMap_append

theorem bytes_length (s : Text) : (bytes s).length = size s := by
  induction s with
  | nil => rfl
  | cons c rest ih => rw [bytes_cons, List.length_append, String.length_utf8EncodeChar, ih, size_cons]

theorem take_bytes (front back : Text) (count : Nat) :
    (bytes (front ++ back)).take (size front + count) = bytes front ++ (bytes back).take count := by
  rw [bytes_append, ← bytes_length, List.take_length_add_append]

theorem backslash_absent (other : c ≠ '\\') : ∀ b ∈ String.utf8EncodeChar c, b ≠ backslash := by
  have apart : c.val.toNat ≠ 92 := fun same => other (Char.ext (UInt32.toNat_inj.mp same))
  have value (n : Nat) : UInt8.ofNat n = backslash ↔ n % 256 = 92 := by
    rw [← UInt8.toNat_inj, UInt8.toNat_ofNat']
    rfl
  fun_cases String.utf8EncodeChar c with
  | case1 | case2 | case3 | case4 =>
    simp only [List.mem_cons, List.not_mem_nil, or_false, forall_eq_or_imp, forall_eq, ne_eq, value]
    omega

theorem oddRun_other (other : c ≠ '\\') {count : Nat} (positive : 0 < count) (front : List UInt8) :
    oddRun (· == backslash) (front ++ (String.utf8EncodeChar c).take count) = false := by
  have nonempty : (String.utf8EncodeChar c).take count ≠ [] := by
    simp [List.take_eq_nil_iff, String.utf8EncodeChar_ne_nil, Nat.ne_of_gt positive]
  have last := List.mem_of_mem_take (List.getLast_mem nonempty)
  have unmarked : (((String.utf8EncodeChar c).take count).getLast nonempty == backslash) = false :=
    beq_false_of_ne (backslash_absent other _ last)
  exact oddRun_closed nonempty unmarked front

theorem oddRun_bytes (before : Text) : oddRun (· == backslash) (bytes before) = endsEscaping before := by
  induction before using List.reverseRecOn with
  | nil => rfl
  | append_singleton before c ih =>
    have whole : bytes (before ++ [c]) = bytes before ++ String.utf8EncodeChar c := by
      rw [bytes_append, bytes_cons]
      exact congrArg (bytes before ++ ·) (List.append_nil _)
    rw [whole, endsEscaping_concat]
    by_cases same : c = '\\'
    · subst same
      rw [← ih]
      exact oddRun_concat (· == backslash) (bytes before) backslash
    · have nothing := oddRun_other same c.utf8Size_pos (bytes before)
      rw [List.take_of_length_le (Nat.le_of_eq (String.length_utf8EncodeChar c))] at nothing
      rw [nothing, beq_false_of_ne same, Bool.false_and]

theorem escapedByte_within (within : offset ≤ size s) :
    escapedByte (bytes s) offset = oddRun (· == backslash) ((bytes s).take offset) := by
  rw [escapedByte, bytes_length, decide_eq_true within, Bool.true_and]

theorem isEscaped_bytes (s : Text) (offset : Nat) : isEscaped s offset = escapedByte (bytes s) offset := by
  cases lies s offset with
  | cut before after whole =>
    subst whole
    have within : size before ≤ size (before ++ after) := by simp
    have front := take_bytes before after 0
    rw [Nat.add_zero, List.take_zero, List.append_nil] at front
    rw [isEscaped_cut, escapedByte_within within, front, oddRun_bytes]
  | inside before after c count whole positive within =>
    subst whole
    have bound : size before + count ≤ size (before ++ c :: after) := by simp; omega
    have other : c ≠ '\\' := by
      rintro rfl
      have single : Char.utf8Size '\\' = 1 := rfl
      omega
    have front : (bytes (c :: after)).take count = (String.utf8EncodeChar c).take count := by
      rw [bytes_cons, List.take_append_of_le_length]
      rw [String.length_utf8EncodeChar]
      exact Nat.le_of_lt within
    rw [isEscaped_inside positive within, escapedByte_within bound, take_bytes, front, oddRun_other other positive]
  | past _ beyond =>
    have outside : ¬ offset ≤ (bytes s).length := by rw [bytes_length]; omega
    rw [isEscaped_past beyond, escapedByte, decide_eq_false outside, Bool.false_and]

theorem isEscaped_reading (before after : Text) : isEscaped (before ++ after) (size before) = escaping false before := by
  rw [isEscaped_cut, escaping_eq]

theorem isEscaped_cursor {p : Cursor} (member : p ∈ s.cursors) : p.escaped = isEscaped s p.offset := by
  obtain ⟨before, whole, place, escaped⟩ := mem_cursors.mp member
  rw [escaped, place, whole, isEscaped_cut]

theorem isEscaped_next (before after : Text) (c : Char) :
    isEscaped (before ++ c :: after) (size before + c.utf8Size) = (c == '\\' && !isEscaped (before ++ c :: after) (size before)) := by
  have whole : before ++ c :: after = (before ++ [c]) ++ after := by simp
  have place : size before + c.utf8Size = size (before ++ [c]) := by simp
  rw [isEscaped_cut before (c :: after), whole, place, isEscaped_cut, endsEscaping_concat]

-- A slice that begins unescaped is read as it is within the whole text, also between its characters.
theorem isEscaped_slice (sliced : slice? s start stop = some piece) (unescaped : isEscaped s start = false)
    (within : offset ≤ size piece) : isEscaped piece offset = isEscaped s (start + offset) := by
  obtain ⟨before, after, rfl, rfl, _⟩ := slice?_eq_some.mp sliced
  rw [List.append_assoc] at unescaped ⊢
  have settled : oddRun (· == backslash) (bytes before) = false := by rw [oddRun_bytes, ← isEscaped_cut before, unescaped]
  have bound : size before + offset ≤ size (before ++ (piece ++ after)) := by simp; omega
  have front : (bytes (piece ++ after)).take offset = (bytes piece).take offset := by
    rw [bytes_append, List.take_append_of_le_length]
    rwa [bytes_length]
  rw [isEscaped_bytes, isEscaped_bytes, escapedByte_within within, escapedByte_within bound, take_bytes, front,
    oddRun_behind settled]

theorem isEscaped_begins
    (begins : start = 0 ∨ ∃ before c after, s = before ++ c :: after ∧ start = size before + c.utf8Size ∧ c ≠ '\\') :
    isEscaped s start = false := by
  rcases begins with rfl | ⟨before, c, after, rfl, rfl, other⟩
  · exact isEscaped_cut [] s
  · rw [isEscaped_next, beq_false_of_ne other, Bool.false_and]

-- Looking back over the bytes before an offset tells what a reader from the left knows there, in which an unescaped backslash
-- escapes the character behind it and nothing else escapes: neither the front of the text nor what lies past its end.
theorem isEscaped_read (s : Text) :
    (∀ offset, isEscaped s offset = escapedByte (bytes s) offset) ∧
    (∀ before after, s = before ++ after → isEscaped s (size before) = escaping false before) ∧
    (∀ p ∈ s.cursors, p.escaped = isEscaped s p.offset) ∧
    isEscaped s 0 = false ∧
    (∀ before c after, s = before ++ c :: after →
      (isEscaped s (size before + c.utf8Size) = true ↔ c = '\\' ∧ isEscaped s (size before) = false)) ∧
    (∀ offset, size s < offset → isEscaped s offset = false) ∧
    ∀ start stop piece, slice? s start stop = some piece →
      (start = 0 ∨ ∃ before c after, s = before ++ c :: after ∧ start = size before + c.utf8Size ∧ c ≠ '\\') →
        ∀ offset ≤ size piece, isEscaped piece offset = isEscaped s (start + offset) := by
  refine ⟨isEscaped_bytes s, ?reads, fun p => isEscaped_cursor, isEscaped_cut [] s, ?next, fun offset => isEscaped_past, ?slices⟩
  case reads =>
    rintro before after rfl
    exact isEscaped_reading before after
  case next =>
    rintro before c after rfl
    rw [isEscaped_next, Bool.and_eq_true, beq_iff_eq, Bool.not_eq_true']
  case slices =>
    intro start stop piece sliced begins offset within
    exact isEscaped_slice sliced (isEscaped_begins begins) within

-- `é\\\日\$`, where a run of three backslashes escapes the character behind it, and its slice behind the `é`.
theorem isEscaped_read_runs :
    let s : Text := ['é', '\\', '\\', '\\', '日', '\\', '$']
    let piece : Text := ['\\', '\\', '\\', '日', '\\', '$']
    (List.range 12).filter (isEscaped s) = [3, 5, 9] ∧
      isEscaped s 5 = escaping false ['é', '\\', '\\', '\\'] ∧
      (∃ p ∈ s.cursors, p.char = '日' ∧ p.escaped = isEscaped s p.offset) ∧
      (isEscaped s 5 = true ↔ '\\' = '\\' ∧ isEscaped s 4 = false) ∧
      isEscaped s 11 = false ∧
      slice? s 2 10 = some piece ∧ ∀ offset ≤ 8, isEscaped piece offset = isEscaped s (2 + offset) := by
  intro s piece
  obtain ⟨_, reads, cursors, _, next, past, slices⟩ := isEscaped_read s
  have cursor : (⟨5, '日', ['\\', '$'], true⟩ : Cursor) ∈ s.cursors := by decide
  have sliced : slice? s 2 10 = some piece := by decide
  have begins : ∃ before c after, s = before ++ c :: after ∧ 2 = size before + c.utf8Size ∧ c ≠ '\\' :=
    ⟨[], 'é', piece, rfl, rfl, by decide⟩
  exact ⟨by decide, reads ['é', '\\', '\\', '\\'] _ rfl, ⟨_, cursor, rfl, cursors _ cursor⟩,
    next ['é', '\\', '\\'] '\\' _ rfl, past 11 (by decide), sliced, slices 2 10 piece sliced (.inr begins)⟩

end PatternMachine.Text
