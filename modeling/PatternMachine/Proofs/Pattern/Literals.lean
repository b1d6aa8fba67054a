import PatternMachine.Proofs.Pattern.Group
import PatternMachine.Proofs.Pattern.Reference

namespace PatternMachine

inductive Role where
  | escape | bar | opening | closing | star | literal
  -- The two characters that mark a group as one that does not capture.
  | question | colon
  deriving DecidableEq

def Cursor.role (p : Cursor) : Role :=
  if p.isBare '|' then .bar
  else if p.opens then .opening
  else if p.closes then .closing
  else if p.isBare '\\' then .escape
  else .literal

-- What it is after another. Only a literal or a closing can be starred, and an escaped character is always a literal.
def Role.next (before : Role) (p : Cursor) : Role :=
  if p.escaped then .literal
  else if before = .opening ∧ p.reads CaptureTable.plainMark = true then .question
  else if before = .question ∧ p.char = ':' then .colon
  else if (before = .literal ∨ before = .closing) ∧ p.char = '*' then .star
  else p.role

def Cursor.literals (before : Role) : List Cursor → List Cursor
  | [] => []
  | p :: rest => (if before.next p = .literal then [p] else []) ++ literals (before.next p) rest

def Text.literals (body : Text) : List Cursor := Cursor.literals .bar body.cursors

namespace Token

def text : Token → Text
  | .literal c _ => [c]
  | _ => []

def around (table : CaptureTable) (captures : List Nat) : Token → List Nat
  | .opening offset _ => captures ++ (table.indexOf? offset).toList
  | .closing offset _ => if captures.getLast?.any (table.closesAt · offset) then captures.dropLast else captures
  | _ => captures

def consumed (table : CaptureTable) (captures : List Nat) : List Token → Consumed
  | [] => []
  | token :: rest => token.text.map (·, captures) ++ consumed table (token.around table captures) rest

-- The captures that are open together at some point of the tokens.
def held (table : CaptureTable) (captures : List Nat) : List Token → List (List Nat)
  | [] => [captures]
  | token :: rest => captures :: held table (token.around table captures) rest

end Token

namespace Role

def token? (p : Cursor) (rest : List Cursor) : Role → Option Token
  | .bar => some .bar
  | .opening => some (.opening p.offset (Token.loops rest))
  | .closing => some (.closing p.offset (Token.startsStar p.after))
  | .literal => some (.literal p.char (Token.startsStar p.after))
  | _ => none

def around (table : CaptureTable) (captures : List Nat) (p : Cursor) : Role → List Nat
  | .opening => captures ++ (table.indexOf? p.offset).toList
  | .closing => if captures.getLast?.any (table.closesAt · p.offset) then captures.dropLast else captures
  | _ => captures

def skip (after : Text) : Role → Nat
  | .opening => Token.markWidth after
  | .question => if after.head? = some ':' then 1 else 0
  | .literal | .closing => Token.starWidth (Token.startsStar after)
  | _ => 0

variable {before : Role} {p : Cursor}

theorem next_skipped {width : Nat} (unescaped : p.escaped = (before == .escape))
    (skipped : before.skip (p.char :: p.after) = width + 1) :
    (before.next p = .question ∨ before.next p = .colon ∨ before.next p = .star) ∧
      (before.next p).skip p.after = width := by
  obtain ⟨offset, c, after, escaped⟩ := p
  cases unescaped
  cases before with
  | escape | bar | star | colon => cases skipped
  | opening =>
    have marked : CaptureTable.plainMark.isPrefixOf (c :: after) = true := by
      by_contra unmarked
      simp [skip, Token.markWidth, unmarked] at skipped
    obtain ⟨tail, whole⟩ := List.isPrefixOf_iff_prefix.mp marked
    cases whole
    cases skipped
    exact ⟨.inl rfl, rfl⟩
  | question =>
    by_cases colon : c = ':'
    · subst colon
      cases skipped
      exact ⟨.inr (.inl rfl), rfl⟩
    · simp [skip, colon] at skipped
  | literal | closing =>
    by_cases star : c = '*'
    · subst star
      cases skipped
      exact ⟨.inr (.inr rfl), rfl⟩
    · simp [skip, Token.startsStar, Token.starWidth, star] at skipped

theorem next_read (unescaped : p.escaped = (before == .escape)) (unskipped : before.skip (p.char :: p.after) = 0) :
    before.next p = p.role := by
  have unmarked : ¬(before = .opening ∧ p.reads CaptureTable.plainMark = true) := by
    rintro ⟨rfl, marked⟩
    have width : Token.markWidth (p.char :: p.after) = 2 := if_pos marked
    rw [skip, width] at unskipped
    cases unskipped
  have unmarked' : ¬(before = .question ∧ p.char = ':') := by
    rintro ⟨rfl, colon⟩
    simp [skip, colon] at unskipped
  have unstarred : ¬((before = .literal ∨ before = .closing) ∧ p.char = '*') := by
    rintro ⟨rfl | rfl, star⟩ <;> simp [skip, Token.starWidth, Token.startsStar, star] at unskipped
  unfold next
  rw [if_neg unmarked, if_neg unmarked', if_neg unstarred]
  split
  · rename_i escaped
    simp [Cursor.role, Cursor.isBare, Cursor.opens, Cursor.closes, escaped]
  · rfl

theorem next_escape : before.next p = .escape ↔ p.isBare '\\' = true := by
  grind [next, Cursor.role, Cursor.opens, Cursor.closes, Cursor.isBare, Cursor.reads, CaptureTable.plainMark]

theorem next_opening : before.next p = .opening ↔ p.opens = true := by
  grind [next, Cursor.role, Cursor.opens, Cursor.closes, Cursor.isBare, Cursor.reads, CaptureTable.plainMark]

theorem next_closing : before.next p = .closing ↔ p.closes = true := by
  grind [next, Cursor.role, Cursor.opens, Cursor.closes, Cursor.isBare, Cursor.reads, CaptureTable.plainMark]

theorem around_silent (table : CaptureTable) (captures : List Nat) (silent : p.opens = false) (silent' : p.closes = false) :
    (before.next p).around table captures p = captures := by
  cases role : before.next p with
  | opening => cases silent.symm.trans (next_opening.mp role)
  | closing => cases silent'.symm.trans (next_closing.mp role)
  | _ => rfl

end Role

theorem Token.ofCursors_role (p : Cursor) (rest : List Cursor) : Token.ofCursors 0 (p :: rest) =
    (p.role.token? p rest).toList ++ Token.ofCursors (p.role.skip p.after) rest := by
  rw [Token.ofCursors, Cursor.role]
  split_ifs <;> rfl

namespace Cursor

def opensCapture (p : Cursor) : Bool := p.opens && !CaptureTable.plainMark.isPrefixOf p.after

def tokens (before : Role) : List Cursor → List Token
  | [] => []
  | p :: rest => ((before.next p).token? p rest).toList ++ tokens (before.next p) rest

end Cursor

theorem Token.ofCursors_tokens (before : Role) (offset : Nat) (s : Text) :
    Token.ofCursors (before.skip s) (Text.cursorsFrom offset (before == .escape) s) =
      Cursor.tokens before (Text.cursorsFrom offset (before == .escape) s) := by
  induction s generalizing before offset with
  | nil => cases skipped : before.skip [] <;> rfl
  | cons c rest ih =>
    have flag : (c == '\\' && !(before == .escape)) = (before.next ⟨offset, c, rest, before == .escape⟩ == .escape) := by
      rw [Bool.eq_iff_iff, beq_iff_eq, Role.next_escape, Cursor.isBare, Bool.and_comm]
    rw [Text.cursorsFrom, Cursor.tokens, flag, ← ih]
    cases skipped : before.skip (c :: rest) with
    | zero => rw [Token.ofCursors_role, Role.next_read (p := ⟨offset, c, rest, before == .escape⟩) rfl skipped]
    | succ width =>
      obtain ⟨mark, others⟩ := Role.next_skipped (p := ⟨offset, c, rest, before == .escape⟩) rfl skipped
      rw [others]
      rcases mark with role | role | role <;> rw [role] <;> rfl

namespace Cursor

def consumed (table : CaptureTable) (before : Role) (captures : List Nat) : List Cursor → Consumed
  | [] => []
  | p :: rest => (if before.next p = .literal then [(p.char, captures)] else []) ++
      consumed table (before.next p) ((before.next p).around table captures p) rest

theorem tokens_consumed (table : CaptureTable) (before : Role) (captures : List Nat) (cursors : List Cursor) :
    Token.consumed table captures (tokens before cursors) = consumed table before captures cursors := by
  induction cursors generalizing before captures with
  | nil => rfl
  | cons p rest ih =>
    rw [tokens, consumed, ← ih]
    cases before.next p <;> rfl

end Cursor

theorem Token.consumed_body (table : CaptureTable) (body : Text) :
    Token.consumed table [] (Token.ofText body) = Cursor.consumed table .bar [] body.cursors :=
  (congrArg (Token.consumed table []) (Token.ofCursors_tokens .bar 0 body)).trans (Cursor.tokens_consumed table .bar [] _)

theorem Cursor.consumed_chars (table : CaptureTable) (before : Role) (captures : List Nat) (cursors : List Cursor) :
    (Cursor.consumed table before captures cursors).map (·.1) = (literals before cursors).map (·.char) := by
  induction cursors generalizing before captures with
  | nil => rfl
  | cons p rest ih =>
    rw [Cursor.consumed, literals, List.map_append, List.map_append, ih]
    split <;> rfl

end PatternMachine
