import PatternMachine.Text.Basic

namespace PatternMachine

structure Cursor where
  offset : Nat
  char : Char
  after : Text
  escaped : Bool
  deriving DecidableEq

namespace Cursor

def reads (p : Cursor) (value : Text) : Bool := value.isPrefixOf (p.char :: p.after)

def isBare (p : Cursor) (c : Char) : Bool := !p.escaped && p.char == c
def opens (p : Cursor) : Bool := p.isBare '('
def closes (p : Cursor) : Bool := p.isBare ')'

end Cursor

namespace Text

def cursorsFrom (offset : Nat) (escaped : Bool) : Text → List Cursor
  | [] => []
  | c :: rest =>
    ⟨offset, c, rest, escaped⟩ :: cursorsFrom (offset + c.utf8Size) (c == '\\' && !escaped) rest

def cursors (s : Text) : List Cursor := cursorsFrom 0 false s

def endsEscaping (before : Text) : Bool :=
  (before.reverse.takeWhile (· == '\\')).length % 2 == 1

-- Whether an odd run of backslashes stands right before the offset. An offset inside a character
-- follows no backslash, and past the end nothing is escaped.
def isEscaped (s : Text) (offset : Nat) : Bool := (before? s offset).any endsEscaping

end Text
end PatternMachine
