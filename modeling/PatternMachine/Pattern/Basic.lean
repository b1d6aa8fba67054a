import PatternMachine.Anchors
import PatternMachine.Pattern.Error

namespace PatternMachine

structure Pattern where
  source : Text
  body : Text
  anchors : Anchors
  deriving DecidableEq

namespace Pattern

def stripStart : Text → Bool × Text
  | [] => (false, [])
  | c :: rest => if c = '^' then (true, rest) else (false, c :: rest)

def stripEnd (s : Text) : Bool × Text :=
  if s.cursors.getLast?.any (·.isBare '$') then (true, s.dropLast) else (false, s)

-- The first unescaped anchor of a body that begins at offset `start` of its pattern.
def misplaced? (start : Nat) (body : Text) : Option PatternError :=
  (body.cursors.find? fun p => p.isBare '^' || p.isBare '$').map fun p =>
    .misplacedAnchor p.char (start + p.offset)

def parse (source : Text) : Except PatternError Pattern :=
  match groupFault? source with
  | some fault => .error (.ofGroupFault fault)
  | none =>
    let (fixedStart, inner) := stripStart source
    let (fixedEnd, body) := stripEnd inner
    match misplaced? (if fixedStart then 1 else 0) body with
    | some error => .error error
    | none => .ok ⟨source, body, ⟨fixedStart, fixedEnd⟩⟩

end Pattern
end PatternMachine
