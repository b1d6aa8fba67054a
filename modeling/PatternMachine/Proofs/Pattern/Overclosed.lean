import PatternMachine.Proofs.Pattern.Wrapped

namespace PatternMachine

def Text.Overclosed (s : Text) : Prop :=
  ∃ front : Text, front <+: s ∧ front.cursors.countP Cursor.opens < front.cursors.countP Cursor.closes

namespace Cursor

def Overclosed (depth : Nat) (cursors : List Cursor) : Prop :=
  ∃ front, front <+: cursors ∧ depth + front.countP opens < front.countP closes

variable {depth : Nat} {p : Cursor} {rest : List Cursor}

theorem overclosed_nil : ¬Overclosed depth [] := by
  intro exceeds
  obtain ⟨front, starts, more⟩ := exceeds
  cases List.prefix_nil.mp starts
  exact Nat.not_lt_zero _ more

theorem overclosed_cons : Overclosed depth (p :: rest) ↔
    ∃ front, front <+: rest ∧ depth + (p :: front).countP opens < (p :: front).countP closes := by
  constructor
  · intro exceeds
    obtain ⟨front, starts, more⟩ := exceeds
    rcases List.prefix_cons_iff.mp starts with rfl | ⟨later, rfl, starts'⟩
    · exact (Nat.not_lt_zero _ more).elim
    · exact ⟨later, starts', more⟩
  · intro exceeds
    obtain ⟨later, starts, more⟩ := exceeds
    exact ⟨p :: later, List.prefix_cons_iff.mpr (.inr ⟨later, rfl, starts⟩), more⟩

theorem overclosed_opening (here : p.opens = true) : Overclosed depth (p :: rest) ↔ Overclosed (depth + 1) rest := by
  have silent := opens_silent here
  have moved : ∀ front : List Cursor, depth + (p :: front).countP opens < (p :: front).countP closes ↔
      depth + 1 + front.countP opens < front.countP closes := by
    intro front
    simp only [List.countP_cons, here, silent, if_true, Bool.false_eq_true, if_false]
    omega
  rw [overclosed_cons]
  simp only [moved]
  rfl

theorem overclosed_closing (here : p.closes = true) : Overclosed (depth + 1) (p :: rest) ↔ Overclosed depth rest := by
  have moved : ∀ front : List Cursor, depth + 1 + (p :: front).countP opens < (p :: front).countP closes ↔
      depth + front.countP opens < front.countP closes := by
    intro front
    simp only [List.countP_cons, here, closes_silent here, if_true, Bool.false_eq_true, if_false]
    omega
  rw [overclosed_cons]
  simp only [moved]
  rfl

theorem overclosed_outermost (here : p.closes = true) : Overclosed 0 (p :: rest) :=
  overclosed_cons.mpr ⟨[], List.nil_prefix, by simp [here, closes_silent here]⟩

theorem overclosed_silent (silent : p.opens = false) (silent' : p.closes = false) :
    Overclosed depth (p :: rest) ↔ Overclosed depth rest := by
  rw [overclosed_cons]
  simp only [List.countP_cons, silent, silent', Bool.false_eq_true, if_false, Nat.add_zero]
  rfl

theorem countP_isBare {cursors others : List Cursor} (same : cursors.map reading = others.map reading) (c : Char) :
    cursors.countP (·.isBare c) = others.countP (·.isBare c) := by
  have counted : ∀ cursors : List Cursor, cursors.countP (·.isBare c) =
      (cursors.map reading).countP fun read => !read.2 && read.1 == c := by
    intro cursors
    rw [List.countP_map]
    rfl
  rw [counted, counted, same]

end Cursor

namespace Text

theorem cursorsFrom_reading_take (s : Text) (count offset : Nat) (flag : Bool) :
    (cursorsFrom offset flag (s.take count)).map Cursor.reading = ((cursorsFrom offset flag s).take count).map Cursor.reading := by
  induction s generalizing count offset flag with
  | nil => simp [cursorsFrom]
  | cons c rest ih =>
    cases count with
    | zero => rfl
    | succ count => simpa [cursorsFrom, Cursor.reading] using ih count (offset + c.utf8Size) (c == '\\' && !flag)

theorem overclosed_iff {s : Text} : s.Overclosed ↔ Cursor.Overclosed 0 s.cursors := by
  have same : ∀ count c, (cursors (s.take count)).countP (·.isBare c) = (s.cursors.take count).countP (·.isBare c) :=
    fun count => Cursor.countP_isBare (cursorsFrom_reading_take s count 0 false)
  constructor
  · intro exceeds
    obtain ⟨front, starts, more⟩ := exceeds
    rw [List.prefix_iff_eq_take.mp starts] at more
    refine ⟨s.cursors.take front.length, List.take_prefix _ _, ?_⟩
    rw [Nat.zero_add]
    exact (same _ '(') ▸ (same _ ')') ▸ more
  · intro exceeds
    obtain ⟨front, starts, more⟩ := exceeds
    rw [List.prefix_iff_eq_take.mp starts, Nat.zero_add] at more
    exact ⟨s.take front.length, List.take_prefix _ _, (same _ '(').symm ▸ (same _ ')').symm ▸ more⟩

end Text
end PatternMachine
