import PatternMachine.Pattern.Error
import PatternMachine.Report.Source
import PatternMachine.Report.Window
import PatternMachine.Text.Decimal

namespace PatternMachine
namespace Report

def terminalWidth : Nat := 140

def title (message : Text) : List Row :=
  let level := Row.of .mark "error".toList
  let gap : Text := [':', ' ']
  match Text.shownLines message with
  | [] => [level ++ Row.of .title gap]
  | line :: later =>
    (level ++ Row.of .title (gap ++ line)) ::
      later.map fun line => Row.blank (level.length + gap.length) ++ Row.of .title line

def rule (gutter : Nat) (row : Row) : Row := row.put (gutter + 1) .frame ['|']
def numbered (gutter : Nat) (line : SourceLine) (row : Row) : Row :=
  rule gutter (row.put 0 .frame (Decimal.digits line.number))

-- A mark within one line takes the columns from `start` to `stop`.
def underline (gutter start stop : Nat) (line : SourceLine) (label : Text) : List Row :=
  let code := gutter + 3
  let labelStop := stop + Text.width label + 1
  let window := Window.fit (terminalWidth - code) line.indent start stop labelStop line.width
  let (left, row) := window.lay code line.shown
  let marks := (rule gutter []).fill (code + start - left) (code + stop - left) .mark '^'
  [numbered gutter line row, marks.put (code + stop + 1 - left) .mark label]

-- A mark from the end of one line, at a column, to the start of the next. The bar starts beside the
-- line if only blanks come before the mark, else with a line that leads to it.
def bracket (gutter column : Nat) (line next : SourceLine) (label : Text) : List Row :=
  let bar := gutter + 3
  let code := gutter + 5
  let labelStop := max (column + 1) (Text.width label + 1)
  let window := Window.fit (terminalWidth - code) 0 0 (column + 1) labelStop (max line.width next.width)
  let source (line : SourceLine) := numbered gutter line (window.lay code line.shown).2
  let lead (corner : Char) (caret : Nat) :=
    ((rule gutter []).put bar .mark [corner]).fill (bar + 1) caret .mark '_' |>.put caret .mark ['^']
  let opening :=
    if (line.shown.take column).all Text.isSpace then [(source line).put bar .mark ['/']]
    else [source line, lead ' ' (code + column)]
  opening ++ [(source next).put bar .mark ['|'], (lead '|' code).put (code + 2) .mark label]

-- The rows under the message, for the character at an offset. An offset past the end marks the end.
-- There is no report of a part of a character.
def rows? (label source : Text) (offset : Nat) : Option (List Row) := do
  let start ← Place.of? source (min offset source.size)
  let stop ← Place.of? source (min (min offset source.size + 1) source.size)
  let gutter := (Decimal.digits start.line.number).length
  let marked :=
    if stop.line.number = start.line.number then
      underline gutter start.column (max stop.column (start.column + 1)) start.line label
    else bracket gutter start.column start.line stop.line label
  return rule gutter [] :: marked

def render? (message label source : Text) (offset : Nat) (colored : Bool) : Option Text :=
  (rows? label source offset).map fun rows =>
    Text.joinWith ['\n'] ((title message ++ rows).map fun row => row.text colored)

end Report

def PatternError.render? (e : PatternError) (source : Text) (colored : Bool) : Option Text :=
  Report.render? e.message.toList e.label.toList source e.offset colored

end PatternMachine
