import PatternMachine.Text.Decimal

namespace PatternMachine

inductive JsonValue where
  | null
  | bool (value : Bool)
  | number (value : Nat)
  | string (value : Text)
  | array (items : List JsonValue)
  | object (fields : List (Text × JsonValue))

namespace JsonValue

def escapeChar (c : Char) : Text :=
  if c = '"' then ['\\', '"']
  else if c = '\\' then ['\\', '\\']
  else if c = '\x08' then ['\\', 'b']
  else if c = '\t' then ['\\', 't']
  else if c = '\n' then ['\\', 'n']
  else if c = '\x0c' then ['\\', 'f']
  else if c = '\r' then ['\\', 'r']
  else if c.toNat < 32 then
    ['\\', 'u', '0', '0', Nat.digitChar (c.toNat / 16), Nat.digitChar (c.toNat % 16)]
  else [c]

def writeString (s : Text) : Text := '"' :: s.flatMap escapeChar ++ ['"']

def writeBool (value : Bool) : Text := if value then "true".toList else "false".toList

mutual
def compact : JsonValue → Text
  | .null => "null".toList
  | .bool value => writeBool value
  | .number value => Decimal.digits value
  | .string value => writeString value
  | .array items => '[' :: Text.joinWith [','] (compactItems items) ++ [']']
  | .object fields => '\x7b' :: Text.joinWith [','] (compactFields fields) ++ ['\x7d']

def compactItems : List JsonValue → List Text
  | [] => []
  | item :: rest => compact item :: compactItems rest

def compactFields : List (Text × JsonValue) → List Text
  | [] => []
  | (key, value) :: rest => (writeString key ++ ':' :: compact value) :: compactFields rest
end

def block (indent : Nat) (first last : Char) (items : List Text) : Text :=
  if items.isEmpty then [first, last]
  else
    let line (depth : Nat) : Text := '\n' :: List.replicate depth ' '
    first :: line (indent + 2) ++ Text.joinWith (',' :: line (indent + 2)) items ++ line indent ++ [last]

mutual
def pretty (indent : Nat) : JsonValue → Text
  | .null => "null".toList
  | .bool value => writeBool value
  | .number value => Decimal.digits value
  | .string value => writeString value
  | .array items => block indent '[' ']' (prettyItems (indent + 2) items)
  | .object fields => block indent '\x7b' '\x7d' (prettyFields (indent + 2) fields)

def prettyItems (indent : Nat) : List JsonValue → List Text
  | [] => []
  | item :: rest => pretty indent item :: prettyItems indent rest

def prettyFields (indent : Nat) : List (Text × JsonValue) → List Text
  | [] => []
  | (key, value) :: rest =>
    (writeString key ++ [':', ' '] ++ pretty indent value) :: prettyFields indent rest
end

end JsonValue
end PatternMachine
