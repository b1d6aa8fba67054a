import PatternMachine.Text.Basic

namespace PatternMachine.Text

def turns (c : Char) : Bool :=
  (0x202a ≤ c.toNat && c.toNat ≤ 0x202e) || (0x2066 ≤ c.toNat && c.toNat ≤ 0x2069)

def tab : Text := [' ', ' ', ' ', ' ']

def shownChar (c : Char) : Text :=
  if c = '\t' then tab
  else if c.toNat < 32 then [Char.ofNat (0x2400 + c.toNat)]
  else if c = '\x7f' then ['␡']
  else if c = '\u200d' then []
  else if turns c then ['\ufffd']
  else [c]

def shown (s : Text) : Text := s.flatMap shownChar

def shownLines : Text → List Text
  | [] => [[]]
  | c :: rest =>
    if c = '\n' then [] :: shownLines rest
    else
      match shownLines rest with
      | line :: later => (shownChar c ++ line) :: later
      | [] => [shownChar c]

end PatternMachine.Text
