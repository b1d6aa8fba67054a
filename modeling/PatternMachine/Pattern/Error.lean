import PatternMachine.Pattern.Group

namespace PatternMachine

inductive PatternError where
  | unclosedGroup (offset : Nat)
  | unopenedGroup (offset : Nat)
  | misplacedAnchor (anchor : Char) (offset : Nat)
  deriving DecidableEq

namespace PatternError

def ofGroupFault : GroupFault → PatternError
  | .unopened offset => .unopenedGroup offset
  | .unclosed offset => .unclosedGroup offset

def offset : PatternError → Nat
  | .unclosedGroup offset | .unopenedGroup offset | .misplacedAnchor _ offset => offset

def message : PatternError → String
  | .unclosedGroup offset => s!"invalid pattern: group opened at offset {offset} is never closed"
  | .unopenedGroup offset => s!"invalid pattern: group closed at offset {offset} was never opened"
  | .misplacedAnchor anchor offset =>
    let boundary := if anchor = '^' then "start" else "end"
    s!"invalid pattern: `{anchor}` at offset {offset} is only allowed at the {boundary} of the pattern"

def label : PatternError → String
  | .unclosedGroup _ => "unclosed group"
  | .unopenedGroup _ => "unmatched `)`"
  | .misplacedAnchor _ _ => "anchor inside the pattern"

end PatternError
end PatternMachine
