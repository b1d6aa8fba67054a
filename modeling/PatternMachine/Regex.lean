import PatternMachine.Construction.Compile
import PatternMachine.Report.Basic
import PatternMachine.Search.Trace

namespace PatternMachine

inductive RegexError where
  | compile (error : CompileError)
  | search (error : Search.OffsetError)
  deriving DecidableEq

namespace RegexError

def message : RegexError → String
  | .compile error => error.message
  | .search error => error.message

-- Only what is wrong with the pattern is shown in its place.
def render? (e : RegexError) (pattern : Text) (colored : Bool) : Option Text :=
  match e with
  | .compile (.pattern error) => error.render? pattern colored
  | other => some other.message.toList

end RegexError

structure Regex where
  pattern : Text
  automaton : Automaton

namespace Regex

def ofPattern (pattern : Text) : Except CompileError Regex :=
  (compile pattern).map fun automaton => ⟨pattern, automaton⟩

def find (r : Regex) (input : Text) : Option Match := r.automaton.find input
def isMatch (r : Regex) (input : Text) : Bool := r.automaton.isMatch input
def findAt (r : Regex) (input : Text) (offset : Nat) : Except Search.OffsetError (Option Match) :=
  r.automaton.findAt input offset
def listing (r : Regex) (p : Palette) : Text := r.automaton.listing p

def trace (r : Regex) (input : Text) (verbosity : Verbosity) (p : Palette) : Text × Option Match :=
  let (lines, found) := r.automaton.trace input 0 verbosity p
  (Text.joinWith ['\n'] lines, found)

end Regex
end PatternMachine
