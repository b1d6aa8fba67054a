import PatternMachine.Text.Basic

namespace PatternMachine.Decimal

def digit (n : Nat) : Char := Char.ofNat ('0'.toNat + n % 10)

def digits (n : Nat) : Text := if n < 10 then [digit n] else digits (n / 10) ++ [digit n]

def widthForCount (count : Nat) : Nat := (digits (count - 1)).length

def alignRight (width : Nat) (s : Text) : Text := List.replicate (width - s.length) ' ' ++ s

end PatternMachine.Decimal
