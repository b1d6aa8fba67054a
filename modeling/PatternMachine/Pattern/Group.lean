import PatternMachine.Text.Cursor

namespace PatternMachine

-- The closing of the group looked for, read on from a place that lies `depth` groups inside it.
def closing? (depth : Nat) : List Cursor → Option Cursor
  | [] => none
  | p :: rest =>
    if p.opens then closing? (depth + 1) rest
    else if p.closes then
      match depth with
      | 0 => some p
      | outer + 1 => closing? outer rest
    else closing? depth rest

def groupEnd? (s : Text) (opening : Nat) : Option Nat :=
  match s.cursors.dropWhile (·.offset != opening) with
  | [] => none
  | p :: rest => if p.opens then (closing? 0 rest).map (·.offset) else none

inductive GroupFault where
  | unopened (offset : Nat)
  | unclosed (offset : Nat)
  deriving DecidableEq

-- `opened` holds the openings not closed so far, innermost first. A closing without an opening is
-- met on the way, so it wins over any opening left at the end; of those the outermost is named.
def groupFaultFrom (opened : List Nat) : List Cursor → Option GroupFault
  | [] => opened.getLast?.map .unclosed
  | p :: rest =>
    if p.opens then groupFaultFrom (p.offset :: opened) rest
    else if p.closes then
      match opened with
      | [] => some (.unopened p.offset)
      | _ :: outer => groupFaultFrom outer rest
    else groupFaultFrom opened rest

def groupFault? (s : Text) : Option GroupFault := groupFaultFrom [] s.cursors

end PatternMachine
