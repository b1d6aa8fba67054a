
namespace PatternMachine

structure Anchors where
  -- A match starts at offset 0.
  fixedStart : Bool
  -- A match ends where the input does.
  fixedEnd : Bool
  deriving DecidableEq

end PatternMachine
