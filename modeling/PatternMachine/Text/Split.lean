import PatternMachine.Text.Occurrence

namespace PatternMachine.Text

inductive SplitError where
  | outOfRange (index size : Nat)
  | offBoundary (index : Nat)
  | unordered (index : Nat)
  deriving DecidableEq

def SplitError.message : SplitError → String
  | .outOfRange index size => s!"split index {index} is out of range for a string of length {size}"
  | .offBoundary index => s!"split index {index} is not on a character boundary"
  | .unordered index => s!"split index {index} precedes the previous split point"

-- An index in range addresses a byte, whether or not a character begins there.
def inRange (size index : Nat) : Bool := index < size

def indexError? (s : Text) (index : Nat) : Option SplitError :=
  if !inRange (size s) index then some (.outOfRange index (size s))
  else if isBoundary s index then none
  else some (.offBoundary index)

def piecesAt (start : Nat) (rest : Text) : List Nat → Except SplitError (List Text)
  | [] => .ok [rest]
  | index :: later =>
    if index < start then .error (.unordered index)
    else
      let piece := takeBytes (index - start) rest
      match dropBytes (index - start) rest with
      | [] => (piece :: ·) <$> piecesAt (index + 1) [] later
      | c :: rest => (piece :: ·) <$> piecesAt (index + c.utf8Size) rest later

-- Splits at each index. Every index has to address a character, which is checked of all of them
-- before their order is.
def splitAt (s : Text) (indices : List Nat) : Except SplitError (List Text) :=
  match indices.findSome? (indexError? s) with
  | some error => .error error
  | none => piecesAt 0 s indices

-- An occurrence that overlaps the delimiter used before it is passed over.
def piecesOn (width start : Nat) (rest : Text) : List Nat → List Text
  | [] => [rest]
  | index :: later =>
    if index < start then piecesOn width start rest later
    else
      takeBytes (index - start) rest ::
        piecesOn width (index + width) (dropBytes (index + width - start) rest) later

def splitOn (s delimiter : Text) (outside : Bool) : List Text :=
  piecesOn (size delimiter) 0 s (occurrences s delimiter outside)

end PatternMachine.Text
