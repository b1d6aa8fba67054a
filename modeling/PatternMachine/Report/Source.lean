import PatternMachine.Text.Columns
import PatternMachine.Text.Shown
import PatternMachine.Text.Space

namespace PatternMachine

-- A line of a text without its ending, and the offsets where it starts and the next one does.
structure SourceLine where
  number : Nat
  start : Nat
  text : Text
  stop : Nat
  deriving DecidableEq

namespace SourceLine

def trimReturn (latestFirst : Text) : Text :=
  match latestFirst with
  | '\r' :: before => before.reverse
  | whole => whole.reverse

-- `read` holds the line read so far, latest character first. A text ends its last line by itself;
-- nothing after the last line end is no line.
def linesFrom (number start : Nat) (read : Text) : Text → List SourceLine
  | [] => if read.isEmpty then [] else [⟨number, start, read.reverse, start + Text.size read⟩]
  | c :: rest =>
    if c = '\n' then
      let stop := start + Text.size read + 1
      ⟨number, start, trimReturn read, stop⟩ :: linesFrom (number + 1) stop [] rest
    else linesFrom number start (c :: read) rest

def first : SourceLine := ⟨1, 0, [], 0⟩

def holding (s : Text) (offset : Nat) : SourceLine :=
  let lines := linesFrom 1 0 [] s
  ((lines.find? fun line => line.start ≤ offset && offset < line.stop) <|> lines.getLast?).getD first

def shown (line : SourceLine) : Text := Text.shown line.text

-- How far a line is indented, each blank counted once and a tab by its spaces. A line of nothing
-- but blanks is not indented text.
def indent (line : SourceLine) : Nat :=
  let blanks := line.text.takeWhile Text.isSpace
  if blanks.length = line.text.length then 0
  else blanks.foldl (fun count c => count + if c = '\t' then Text.tab.length else 1) 0

def width (line : SourceLine) : Nat := Text.width line.shown

end SourceLine

structure Place where
  line : SourceLine
  column : Nat
  deriving DecidableEq

-- An offset inside a character has no place. Within a line end it stands right behind the text.
def Place.of? (s : Text) (offset : Nat) : Option Place :=
  if s.isBoundary offset then
    let line := SourceLine.holding s offset
    some ⟨line, Text.width (Text.shown (Text.takeBytes (offset - line.start) line.text))⟩
  else none

end PatternMachine
