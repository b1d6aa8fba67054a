import PatternMachine.Text.Printable
import PatternMachine.Text.Extending

namespace PatternMachine.Text

def hex (n : Nat) : Text := Nat.toDigits 16 n

def quoteChar (c : Char) : Text :=
  if c = '"' then ['\\', '"']
  else if c = '\\' then ['\\', '\\']
  else if c = '\n' then ['\\', 'n']
  else if c = '\r' then ['\\', 'r']
  else if c = '\t' then ['\\', 't']
  else if c = '\x00' then ['\\', '0']
  else if isExtending c || !isPrintable c then ['\\', 'u', '\x7b'] ++ hex c.toNat ++ ['\x7d']
  else [c]

def quote (s : Text) : Text := '"' :: s.flatMap quoteChar ++ ['"']

end PatternMachine.Text
