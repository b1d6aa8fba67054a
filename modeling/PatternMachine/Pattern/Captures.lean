import PatternMachine.Pattern.Group

namespace PatternMachine

-- Opening and closing offset of every capturing group, in the order of the openings. The place of
-- a group in the table is its capture index.
abbrev CaptureTable := List (Nat × Nat)

namespace CaptureTable

def plainMark : Text := ['?', ':']

def ofCursors : List Cursor → CaptureTable
  | [] => []
  | p :: rest =>
    if p.opens && !plainMark.isPrefixOf p.after then
      match closing? 0 rest with
      | some close => (p.offset, close.offset) :: ofCursors rest
      | none => ofCursors rest
    else ofCursors rest

-- The table of a text, balanced or not: an opening that is never closed has no entry.
def ofText (s : Text) : CaptureTable := ofCursors s.cursors

def indexOf? (table : CaptureTable) (opening : Nat) : Option Nat := table.findIdx? (·.1 == opening)
def closesAt (table : CaptureTable) (index offset : Nat) : Bool := table[index]?.any (·.2 == offset)

end CaptureTable
end PatternMachine
