import PatternMachine.Text.Basic

namespace PatternMachine

inductive Ink where
  | plain
  | title
  | frame
  | mark
  deriving DecidableEq

namespace Ink

def bold : Text := "\x1b[1m".toList

def switch : Ink → Text
  | .plain => []
  | .title => bold
  | .frame => bold ++ "\x1b[94m".toList
  | .mark => bold ++ "\x1b[91m".toList

def paint (ink : Ink) (s : Text) : Text :=
  if ink = .plain then s else ink.switch ++ s ++ "\x1b[0m".toList

end Ink

abbrev Row := List (Ink × Char)

namespace Row

def of (ink : Ink) (s : Text) : Row := s.map fun c => (ink, c)
def blank (count : Nat) : Row := List.replicate count (.plain, ' ')

def put (row : Row) (column : Nat) (ink : Ink) (s : Text) : Row :=
  if s.isEmpty then row
  else row.take column ++ blank (column - row.length) ++ of ink s ++ row.drop (column + s.length)

def fill (row : Row) (start stop : Nat) (ink : Ink) (c : Char) : Row :=
  row.put start ink (List.replicate (stop - start) c)

def runs : Row → List (Ink × Text)
  | [] => []
  | (ink, c) :: rest =>
    match runs rest with
    | [] => [(ink, [c])]
    | (next, s) :: later => if next = ink then (ink, c :: s) :: later else (ink, [c]) :: (next, s) :: later

def text (row : Row) (colored : Bool) : Text :=
  if colored then row.runs.flatMap fun (ink, s) => ink.paint s else row.map (·.2)

end Row
end PatternMachine
