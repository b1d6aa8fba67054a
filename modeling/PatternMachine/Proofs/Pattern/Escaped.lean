import PatternMachine.Proofs.Pattern.Tree
import PatternMachine.Proofs.Pattern.Wrapped

namespace PatternMachine

theorem groupFaultFrom_silent {cursors : List Cursor}
    (silent : ∀ p ∈ cursors, p.opens = false ∧ p.closes = false) : groupFaultFrom [] cursors = none := by
  induction cursors with
  | nil => rfl
  | cons p rest ih =>
    obtain ⟨opens, closes⟩ := silent p List.mem_cons_self
    have step : p.nested? [] = some [] := by simp [Cursor.nested?, opens, closes]
    exact groupFaultFrom_cons.mpr ⟨[], step, ih fun q member => silent q (List.mem_cons_of_mem _ member)⟩

namespace Pattern

def special (c : Char) : Bool := ['\\', '^', '$', '|', '(', ')', '*'].contains c

def escape : Text → Text
  | [] => []
  | c :: rest => if special c then '\\' :: c :: escape rest else c :: escape rest

theorem special_eq_false {c : Char} : special c = false ↔
    c ≠ '\\' ∧ c ≠ '^' ∧ c ≠ '$' ∧ c ≠ '|' ∧ c ≠ '(' ∧ c ≠ ')' ∧ c ≠ '*' := by
  simp [special]

theorem escape_settled (w : Text) : Text.escaping false (escape w) = false := by
  induction w with
  | nil => rfl
  | cons c rest ih =>
    rw [escape]
    split
    · have closed : (c == '\\' && !('\\' == '\\' && !false)) = false := Bool.and_false _
      rw [Text.escaping, Text.escaping, closed]
      exact ih
    · rename_i plain
      have other : (c == '\\') = false := beq_eq_false_iff_ne.mpr (special_eq_false.mp (Bool.eq_false_iff.mpr plain)).1
      simpa [Text.escaping, other] using ih

theorem escape_bare (w : Text) (offset : Nat) :
    ∀ p ∈ Text.cursorsFrom offset false (escape w), ∀ c, special c = true → c ≠ '\\' → p.isBare c = false := by
  induction w generalizing offset with
  | nil => simp [escape, Text.cursorsFrom]
  | cons d rest ih =>
    intro p member c meant apart
    rw [escape] at member
    split at member
    · rename_i held
      simp only [Text.cursorsFrom, beq_self_eq_true, Bool.not_false, Bool.and_self, Bool.not_true, Bool.and_false,
        List.mem_cons] at member
      rcases member with rfl | rfl | member
      · simpa [Cursor.isBare] using Ne.symm apart
      · rfl
      · exact ih _ p member c meant apart
    · rename_i plain
      have other : (d == '\\') = false := beq_eq_false_iff_ne.mpr (special_eq_false.mp (Bool.eq_false_iff.mpr plain)).1
      simp only [Text.cursorsFrom, other, Bool.false_and, List.mem_cons] at member
      rcases member with rfl | member
      · have differ : d ≠ c := by
          rintro rfl
          exact plain meant
        simpa [Cursor.isBare] using differ
      · exact ih _ p member c meant apart

theorem escape_plain (w : Text) : Plain (escape w) := by
  have bare := escape_bare w 0
  refine ⟨groupFaultFrom_silent fun p member => ⟨?_, ?_⟩, fun p member => ⟨?_, ?_⟩⟩
  · exact bare p member '(' rfl (by decide)
  · exact bare p member ')' rfl (by decide)
  · exact bare p member '^' rfl (by decide)
  · exact bare p member '$' rfl (by decide)

theorem escape_unstarred (w : Text) : ∀ tail, escape w = '*' :: tail → False := by
  intro tail same
  cases w with
  | nil => cases same
  | cons c rest =>
    rw [escape] at same
    split at same
    · cases same
    · rename_i plain
      cases same
      exact plain rfl

theorem read_escape (r : Reader) (w : Text) :
    r.read (escape w) = ({ r with items := r.items ++ w.map (Item.char · false) } : Reader).finish := by
  induction w generalizing r with
  | nil => simp [escape, Reader.read]
  | cons c rest ih =>
    have unstarred := escape_unstarred rest
    have read : r.read (escape (c :: rest)) = (r.item (.char c false)).read (escape rest) := by
      rw [escape]
      split
      · rw [Reader.read]
        exact unstarred
      · rename_i plain
        obtain ⟨escape, _, _, bar, opening, closing, _⟩ := special_eq_false.mp (Bool.eq_false_iff.mpr plain)
        rw [Reader.read]
        all_goals grind
    rw [read, ih]
    simp [Reader.item]

end Pattern

theorem Tree.read_escape (w : Text) : Tree.read (Pattern.escape w) = some ⟨[w.map (Item.char · false)], 0⟩ :=
  Pattern.read_escape Reader.initial w

end PatternMachine
