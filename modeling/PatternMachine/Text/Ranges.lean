import PatternMachine.Text.Basic

namespace PatternMachine

abbrev Ranges := List (Nat × Nat)

namespace Ranges

-- Ascending order lets the look-up stop at the first range above the character.
def has : Ranges → Char → Bool
  | [], _ => false
  | (first, last) :: above, c =>
    if c.toNat < first then false
    else if c.toNat ≤ last then true
    else has above c

end Ranges
end PatternMachine
