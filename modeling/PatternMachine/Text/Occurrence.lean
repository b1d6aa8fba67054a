import PatternMachine.Text.Cursor

namespace PatternMachine.Text

def occursAt (s : Text) (offset : Nat) (value : Text) : Bool := (from? s offset).any value.isPrefixOf
def occursBareAt (s : Text) (offset : Nat) (value : Text) : Bool :=
  !isEscaped s offset && occursAt s offset value

def anyOccursAt (s : Text) (offset : Nat) (values : List Text) : Bool := values.any (occursAt s offset)
def anyOccursBareAt (s : Text) (offset : Nat) (values : List Text) : Bool :=
  !isEscaped s offset && anyOccursAt s offset values

def contains (s value : Text) : Bool :=
  value.isEmpty || s.cursors.any fun p => !p.escaped && p.reads value
def containsAny (s : Text) (values : List Text) : Bool := values.any (contains s)
def containsAll (s : Text) (values : List Text) : Bool := values.all (contains s)

-- A closing leaves its group before it is tested and an opening enters its group after, so that
-- both delimiters of an outermost group lie at depth zero. Stray closings make the depth negative.
def occurrencesFrom (value : Text) (outside : Bool) (depth : Int) : List Cursor → List Nat
  | [] => []
  | p :: rest =>
    if p.escaped then occurrencesFrom value outside depth rest
    else
      let here := if p.closes then depth - 1 else depth
      let next := if p.opens then here + 1 else here
      let later := occurrencesFrom value outside next rest
      if (!outside || here == 0) && p.reads value then p.offset :: later else later

-- The offsets of the unescaped occurrences of a value, of those at depth zero alone if `outside`
-- is set. The empty value occurs nowhere.
def occurrences (s value : Text) (outside : Bool) : List Nat :=
  if value.isEmpty then [] else occurrencesFrom value outside 0 s.cursors

def occurrencesOf (s : Text) (values : List Text) (outside : Bool) : List (Text × List Nat) :=
  values.foldl (fun found value =>
    if found.any (·.1 == value) then found else found ++ [(value, occurrences s value outside)]) []

end PatternMachine.Text
