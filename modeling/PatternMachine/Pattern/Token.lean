import PatternMachine.Pattern.Captures

namespace PatternMachine

inductive Token where
  | literal (char : Char) (starred : Bool)
  | bar
  -- A group, at the offset of its opening or closing. Both ends know whether the group is starred.
  | opening (offset : Nat) (starred : Bool)
  | closing (offset : Nat) (starred : Bool)
  deriving DecidableEq

namespace Token

def startsStar (after : Text) : Bool := after.head? == some '*'

def loops (rest : List Cursor) : Bool := (closing? 0 rest).any fun close => startsStar close.after

def starWidth (starred : Bool) : Nat := if starred then 1 else 0
def markWidth (after : Text) : Nat :=
  if CaptureTable.plainMark.isPrefixOf after then CaptureTable.plainMark.length else 0

-- `skip` characters belong to the token before. A backslash stands for nothing by itself: it is in
-- the reading of the character after it.
def ofCursors (skip : Nat) : List Cursor → List Token
  | [] => []
  | p :: rest =>
    match skip with
    | skip + 1 => ofCursors skip rest
    | 0 =>
      let starred := startsStar p.after
      if p.isBare '|' then .bar :: ofCursors 0 rest
      else if p.opens then .opening p.offset (loops rest) :: ofCursors (markWidth p.after) rest
      else if p.closes then .closing p.offset starred :: ofCursors (starWidth starred) rest
      else if p.isBare '\\' then ofCursors 0 rest
      else .literal p.char starred :: ofCursors (starWidth starred) rest

def ofText (body : Text) : List Token := ofCursors 0 body.cursors

end Token
end PatternMachine
