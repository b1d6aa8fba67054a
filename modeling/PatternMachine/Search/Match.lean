import PatternMachine.Automaton.Basic

namespace PatternMachine

structure Match where
  start : Nat
  text : Text
  groups : List Text
  deriving DecidableEq

namespace Match

def size (m : Match) : Nat := Text.size m.text
def stop (m : Match) : Nat := m.start + m.size
def isEmpty (m : Match) : Bool := m.text.isEmpty
def group? (m : Match) (index : Nat) : Option Text := m.groups[index]?

end Match

def Edge.collected (e : Edge) (index : Nat) : Text :=
  (e.groups.filter (· == index)).flatMap fun _ => e.text

-- What the captures below `count` collect along a path. Any other index is passed over.
def collectGroups (count : Nat) (path : List Edge) : List Text :=
  (List.range count).map fun index => path.flatMap (·.collected index)

end PatternMachine
