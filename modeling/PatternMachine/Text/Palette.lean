import PatternMachine.Text.Basic

namespace PatternMachine

structure Palette where
  blue : Text
  green : Text
  dim : Text
  red : Text
  reset : Text
  deriving DecidableEq

namespace Palette

def on : Palette :=
  ⟨"\x1b[34m".toList, "\x1b[32m".toList, "\x1b[2m".toList, "\x1b[31m".toList, "\x1b[0m".toList⟩
def off : Palette := ⟨[], [], [], [], []⟩

def ofEnabled (enabled : Bool) : Palette := if enabled then on else off
def isEnabled (p : Palette) : Bool := !p.blue.isEmpty

def paint (p : Palette) (color s : Text) : Text := color ++ s ++ p.reset

end Palette
end PatternMachine
