import PatternMachine.Construction.Basic
import PatternMachine.Pattern.Basic

namespace PatternMachine

inductive CompileError where
  | pattern (error : PatternError)
  | construction (fault : BuildFault)
  deriving DecidableEq

def CompileError.message : CompileError → String
  | .pattern error => error.message
  | .construction fault => fault.message

namespace Pattern

def captures (p : Pattern) : CaptureTable := .ofText p.body
def build (p : Pattern) : Except BuildFault Automaton := Builder.build p.captures p.body p.anchors

end Pattern

def compile (source : Text) : Except CompileError Automaton := do
  let pattern ← (Pattern.parse source).mapError .pattern
  pattern.build.mapError .construction

end PatternMachine
