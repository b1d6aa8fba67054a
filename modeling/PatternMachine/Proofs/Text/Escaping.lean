import PatternMachine.Proofs.Text.Offsets
import Mathlib.Data.List.Induction

namespace PatternMachine.Text

-- Whether a backslash at the end of a text escapes what would come next; `flag` says the same of
-- what stands before the text.
def escaping (flag : Bool) : Text → Bool
  | [] => flag
  | c :: rest => escaping (c == '\\' && !flag) rest

theorem escaping_append (flag : Bool) (front back : Text) :
    escaping flag (front ++ back) = escaping (escaping flag front) back := by
  induction front generalizing flag with
  | nil => rfl
  | cons c front ih => exact ih _

def oddRun {α : Type} (mark : α → Bool) (items : List α) : Bool := (items.reverse.takeWhile mark).length % 2 == 1

section Runs

variable {α : Type} {mark : α → Bool} {front back : List α}

theorem oddRun_concat (mark : α → Bool) (items : List α) (last : α) :
    oddRun mark (items ++ [last]) = (mark last && !oddRun mark items) := by
  unfold oddRun
  rw [List.reverse_append, List.reverse_singleton, List.singleton_append, List.takeWhile_cons]
  cases marked : mark last with
  | false => rfl
  | true =>
    rw [if_pos rfl, List.length_cons]
    generalize (items.reverse.takeWhile mark).length = run
    rcases Nat.mod_two_eq_zero_or_one run with even | odd
    · have flipped : (run + 1) % 2 = 1 := by omega
      simp [even, flipped]
    · have flipped : (run + 1) % 2 = 0 := by omega
      simp [odd, flipped]

theorem oddRun_closed (nonempty : back ≠ []) (closed : mark (back.getLast nonempty) = false) (front : List α) :
    oddRun mark (front ++ back) = false := by
  rw [← List.dropLast_concat_getLast nonempty, ← List.append_assoc, oddRun_concat, closed, Bool.false_and]

theorem oddRun_behind (settled : oddRun mark front = false) (back : List α) :
    oddRun mark (front ++ back) = oddRun mark back := by
  induction back using List.reverseRecOn with
  | nil => rw [List.append_nil, settled]; rfl
  | append_singleton back last ih => rw [← List.append_assoc, oddRun_concat, ih, oddRun_concat]

end Runs

theorem endsEscaping_concat (s : Text) (c : Char) : endsEscaping (s ++ [c]) = (c == '\\' && !endsEscaping s) :=
  oddRun_concat (· == '\\') s c

theorem endsEscaping_closed {value : Text} (nonempty : value ≠ []) (closed : value.getLast? ≠ some '\\') (front : Text) :
    endsEscaping (front ++ value) = false := by
  have other : value.getLast nonempty ≠ '\\' := fun same => closed (same ▸ List.getLast?_eq_some_getLast nonempty)
  have unmarked : (value.getLast nonempty == '\\') = false := beq_false_of_ne other
  show oddRun (· == '\\') (front ++ value) = false
  exact oddRun_closed nonempty unmarked front

theorem endsEscaping_behind {front : Text} (settled : endsEscaping front = false) (back : Text) :
    endsEscaping (front ++ back) = endsEscaping back := oddRun_behind settled back

theorem escaping_eq (s : Text) : escaping false s = endsEscaping s := by
  induction s using List.reverseRecOn with
  | nil => rfl
  | append_singleton s c ih =>
    rw [escaping_append, endsEscaping_concat, ← ih]
    rfl

theorem mem_cursorsFrom {s : Text} {offset : Nat} {flag : Bool} {p : Cursor} :
    p ∈ cursorsFrom offset flag s ↔
      ∃ before, s = before ++ p.char :: p.after ∧ p.offset = offset + size before ∧ p.escaped = escaping flag before := by
  induction s generalizing offset flag with
  | nil => simp [cursorsFrom]
  | cons c rest ih =>
    rw [cursorsFrom, List.mem_cons, ih]
    constructor
    · intro member
      rcases member with rfl | ⟨before, rfl, place, escaped⟩
      · exact ⟨[], rfl, rfl, rfl⟩
      · exact ⟨c :: before, rfl, by rw [place, size_cons, Nat.add_assoc], escaped⟩
    · intro split
      obtain ⟨before, whole, place, escaped⟩ := split
      cases before with
      | nil =>
        obtain ⟨position, char, after, flag'⟩ := p
        cases whole
        cases place
        cases escaped
        exact .inl rfl
      | cons d before =>
        obtain ⟨rfl, rfl⟩ := List.cons.inj whole
        exact .inr ⟨before, rfl, by rw [place, size_cons, Nat.add_assoc], escaped⟩

theorem mem_cursors {s : Text} {p : Cursor} : p ∈ s.cursors ↔
    ∃ before, s = before ++ p.char :: p.after ∧ p.offset = size before ∧ p.escaped = endsEscaping before := by
  simp only [cursors, mem_cursorsFrom, Nat.zero_add, escaping_eq]

theorem cursorsFrom_ascending (s : Text) (offset : Nat) (escaped : Bool) :
    (∀ p ∈ cursorsFrom offset escaped s, offset ≤ p.offset) ∧
      (cursorsFrom offset escaped s).Pairwise fun earlier later => earlier.offset < later.offset := by
  induction s generalizing offset escaped with
  | nil => simp [cursorsFrom]
  | cons c rest ih =>
    have positive := c.utf8Size_pos
    obtain ⟨beyond, ascending⟩ := ih (offset + c.utf8Size) (c == '\\' && !escaped)
    refine ⟨?_, List.Pairwise.cons ?_ ascending⟩
    · intro p member
      rcases List.mem_cons.mp member with rfl | later
      · exact Nat.le_refl _
      · have bound := beyond p later
        omega
    · intro p member
      have bound := beyond p member
      show offset < p.offset
      omega

theorem cursors_ascending (s : Text) : s.cursors.Pairwise fun earlier later => earlier.offset < later.offset :=
  (cursorsFrom_ascending s 0 false).2

theorem cursors_around {s : Text} {front later : List Cursor} {p : Cursor} (split : s.cursors = front ++ p :: later) :
    (∀ q ∈ front, q.offset < p.offset) ∧ ∀ q ∈ later, p.offset < q.offset := by
  have ascending := s.cursors_ascending
  rw [split] at ascending
  obtain ⟨_, behind, across⟩ := List.pairwise_append.mp ascending
  exact ⟨fun q member => across q member p List.mem_cons_self, (List.pairwise_cons.mp behind).1⟩

theorem isEscaped_cut (before after : Text) : isEscaped (before ++ after) (size before) = endsEscaping before := by
  rw [isEscaped, before?_eq_some.mpr ⟨after, rfl, rfl⟩, Option.any_some]

theorem occursBareAt_iff_split {s value : Text} {offset : Nat} : occursBareAt s offset value = true ↔
    ∃ before after, s = before ++ (value ++ after) ∧ size before = offset ∧ endsEscaping before = false := by
  unfold occursBareAt
  constructor
  · intro bare
    obtain ⟨unescaped, occurs⟩ := Bool.and_eq_true _ _ ▸ bare
    obtain ⟨rest, here, _⟩ := (Option.any_eq_true _ _).mp occurs
    obtain ⟨after, rfl⟩ := (occursAt_iff here).mp occurs
    obtain ⟨before, rfl, rfl⟩ := from?_eq_some.mp here
    rw [isEscaped_cut] at unescaped
    exact ⟨before, after, rfl, rfl, by simpa using unescaped⟩
  · rintro ⟨before, after, rfl, rfl, unescaped⟩
    have here : from? (before ++ (value ++ after)) (size before) = some (value ++ after) :=
      from?_eq_some.mpr ⟨before, rfl, rfl⟩
    rw [isEscaped_cut, unescaped, (occursAt_iff here).mpr ⟨after, rfl⟩]
    rfl

theorem occursBareAt_iff {s : Text} {offset : Nat} {c : Char} : occursBareAt s offset [c] = true ↔
    ∃ before after, s = before ++ c :: after ∧ size before = offset ∧ endsEscaping before = false :=
  occursBareAt_iff_split

theorem occursBareAt_iff_reads {s value : Text} (some : value ≠ []) {offset : Nat} : occursBareAt s offset value = true ↔
    ∃ p ∈ s.cursors, (!p.escaped && p.reads value) = true ∧ p.offset = offset := by
  rw [occursBareAt_iff_split]
  constructor
  · rintro ⟨before, after, whole, rfl, unescaped⟩
    obtain ⟨c, value, rfl⟩ := List.exists_cons_of_ne_nil some
    refine ⟨⟨size before, c, value ++ after, false⟩, mem_cursors.mpr ⟨before, whole, rfl, unescaped.symm⟩, ?_, rfl⟩
    exact List.isPrefixOf_iff_prefix.mpr ⟨after, rfl⟩
  · rintro ⟨p, member, bare, rfl⟩
    obtain ⟨unescaped, reads⟩ := Bool.and_eq_true _ _ ▸ bare
    obtain ⟨before, whole, place, escaped⟩ := mem_cursors.mp member
    obtain ⟨after, read⟩ := List.isPrefixOf_iff_prefix.mp reads
    exact ⟨before, after, read ▸ whole, place.symm, by rw [← escaped]; simpa using unescaped⟩

theorem reads_single (p : Cursor) (c : Char) : p.reads [c] = (p.char == c) := by
  show (c == p.char && true) = _
  rw [Bool.and_true, BEq.comm]

theorem occursBareAt_iff_cursor {s : Text} {offset : Nat} {c : Char} :
    occursBareAt s offset [c] = true ↔ ∃ p ∈ s.cursors, p.isBare c = true ∧ p.offset = offset := by
  rw [occursBareAt_iff_reads (List.cons_ne_nil c [])]
  simp only [reads_single, Cursor.isBare]

theorem occursBareAt_front {front after value : Text} {offset : Nat} (bare : occursBareAt front offset value = true) :
    occursBareAt (front ++ after) offset value = true := by
  obtain ⟨before, behind, rfl, rfl, unescaped⟩ := occursBareAt_iff_split.mp bare
  exact occursBareAt_iff_split.mpr ⟨before, behind ++ after, by simp, rfl, unescaped⟩

theorem occursBareAt_behind {front after value : Text} {offset : Nat} (settled : endsEscaping front = false)
    (bare : occursBareAt after offset value = true) :
    occursBareAt (front ++ after) (size front + offset) value = true := by
  obtain ⟨before, behind, rfl, rfl, unescaped⟩ := occursBareAt_iff_split.mp bare
  refine occursBareAt_iff_split.mpr ⟨front ++ before, behind, by simp, size_append _ _, ?_⟩
  rw [endsEscaping_behind settled, unescaped]

end PatternMachine.Text
