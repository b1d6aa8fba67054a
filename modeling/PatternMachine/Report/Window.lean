import PatternMachine.Report.Row
import PatternMachine.Text.Columns

namespace PatternMachine

-- The columns from `start` up to `stop`, on a terminal with `room` for so many of them.
structure Window where
  start : Nat
  stop : Nat
  room : Nat
  deriving DecidableEq

namespace Window

def dots : Text := ['.', '.', '.']

-- Space kept free on both sides of what is to be seen, so that dots never stand beside it.
def slack : Nat := 6
def shallow : Nat := 20
def keptIndent : Nat := 16

-- The mark is from column `start` to `stop`, and the label next to it ends at `labelStop`. Only what
-- comes before the mark counts as indentation to spare. Lines that are still too wide without it are
-- cut as far from the mark as the room allows, first with the label in sight and then without it.
def fit (room indent start stop labelStop widest : Nat) : Window :=
  let indent := min indent start - slack
  let start := start - slack
  let stop := stop + slack
  let labelStop := labelStop + slack
  let left := if shallow < indent then indent - keptIndent else 0
  let before (padding : Nat) : Window := ⟨start - padding, start - padding + room, room⟩
  if widest ≤ left + room then ⟨left, max widest left, room⟩
  else if labelStop ≤ indent + room then ⟨indent, indent + room, room⟩
  else if labelStop ≤ start + room then before ((start + room - labelStop) / 2)
  else if stop ≤ start + room then before ((start + room - stop) / 5 * 2)
  else ⟨start, stop, room⟩

def isCutLeft (w : Window) : Bool := 0 < w.start

-- Leaves out characters until `count` columns are gone. A wide one may take a column more.
def skip (count skipped : Nat) : Text → Nat × Text
  | [] => (skipped, [])
  | c :: rest => if skipped < count then skip count (skipped + Text.columns c) rest else (skipped, c :: rest)

def keep : Nat → Text → Text
  | _, [] => []
  | room, c :: rest => if Text.columns c ≤ room then c :: keep (room - Text.columns c) rest else []

def cover (covered : Nat) : Text → Nat × Text
  | [] => (covered, [])
  | c :: rest =>
    let covered := covered + Text.columns c
    if dots.length ≤ covered then (covered, rest) else cover covered rest

def lay (w : Window) (column : Nat) (source : Text) : Nat × Row :=
  let total := Text.width source
  let start := min w.start total
  let stop := if total ≤ w.start + w.room then total else min total w.stop
  let (skipped, rest) := skip start 0 source
  let seen := keep (stop - start) rest
  let (covered, kept) := if w.isCutLeft then cover 0 seen else (0, seen)
  let behind := column + covered
  let row := if w.isCutLeft then Row.put [] column .frame dots else []
  let row := row.put behind .plain kept
  let row :=
    if stop < total then
      row.put (behind + kept.length - (seen.length - (cover 0 seen.reverse).2.length)) .frame dots
    else row
  (max start skipped, row)

end Window
end PatternMachine
