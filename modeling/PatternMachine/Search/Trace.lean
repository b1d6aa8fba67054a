import PatternMachine.Search.Basic
import PatternMachine.Automaton.Listing

namespace PatternMachine

open Decimal

inductive Verbosity where
  -- Candidate starts, edges taken, backtracking and the accepting state.
  | standard
  -- Also what failed: rejected edges, states seen before and dead ends.
  | verbose
  deriving DecidableEq

def Verbosity.shows (verbosity : Verbosity) : Event → Bool
  | .start _ | .edge _ _ | .backtrack _ _ | .accept _ _ => true
  | .reject _ _ | .revisit _ _ | .deadEnd _ _ => verbosity = .verbose

namespace Event

def edgeLine (width : Nat) (p : Palette) (e : Edge) (arrow : Text) (position : Nat) : Text :=
  [' ', ' '] ++ alignRight width (digits e.origin) ++ [' '] ++ arrow ++ [' '] ++
    alignRight width (digits e.destination) ++ [' ', ' '] ++ e.label p ++ [' ', ' ', '@'] ++ digits position

def stateLine (width : Nat) (state : StateId) (what : Text) (position : Nat) : Text :=
  [' ', ' '] ++ alignRight width (digits state) ++ [' '] ++ what ++ [' ', '@'] ++ digits position

def line (width : Nat) (p : Palette) : Event → Text
  | .start offset => p.paint p.blue "start".toList ++ [' ', '@'] ++ digits offset
  | .edge e position => edgeLine width p e "->".toList position
  | .reject e position => edgeLine width p e (p.paint p.red "-x".toList) position
  | .revisit state position => stateLine width state (p.paint p.dim "seen".toList) position
  | .deadEnd state position => stateLine width state (p.paint p.dim "dead end".toList) position
  | .backtrack state position => stateLine width state (p.paint p.dim "backtrack".toList) position
  | .accept state position => stateLine width state (p.paint p.green "accept".toList) position

end Event

namespace Automaton

def trace (a : Automaton) (input : Text) (offset : Nat) (verbosity : Verbosity) (p : Palette) :
    List Text × Option Match :=
  let (events, found) := a.events input offset
  ((events.filter verbosity.shows).map (Event.line a.idWidth p), found)

end Automaton

end PatternMachine
