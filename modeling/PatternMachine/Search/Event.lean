import PatternMachine.Automaton.Basic

namespace PatternMachine

inductive Event where
  -- A new candidate start is tried.
  | start (offset : Nat)
  -- An edge is taken, up to the position after its text.
  | edge (edge : Edge) (position : Nat)
  -- The text of an edge does not occur at the position.
  | reject (edge : Edge) (position : Nat)
  -- An edge leads to a state that was explored at the position before, from this start.
  | revisit (state : StateId) (position : Nat)
  -- Every edge of a state has failed and it does not accept.
  | deadEnd (state : StateId) (position : Nat)
  -- The search goes on in a state that it was in before.
  | backtrack (state : StateId) (position : Nat)
  | accept (state : StateId) (position : Nat)
  deriving DecidableEq

end PatternMachine
