
namespace PatternMachine

abbrev Text := List Char

namespace Text

-- Length in bytes, the unit of every offset.
def size : Text → Nat
  | [] => 0
  | c :: rest => c.utf8Size + size rest

def takeBytes : Nat → Text → Text
  | _, [] => []
  | count, c :: rest => if c.utf8Size ≤ count then c :: takeBytes (count - c.utf8Size) rest else []
def dropBytes : Nat → Text → Text
  | _, [] => []
  | count, c :: rest => if c.utf8Size ≤ count then dropBytes (count - c.utf8Size) rest else c :: rest

def cut? (s : Text) (offset : Nat) : Option (Text × Text) :=
  let before := takeBytes offset s
  if size before = offset then some (before, dropBytes offset s) else none

def isBoundary (s : Text) (offset : Nat) : Bool := (cut? s offset).isSome
def before? (s : Text) (offset : Nat) : Option Text := (cut? s offset).map (·.1)
def from? (s : Text) (offset : Nat) : Option Text := (cut? s offset).map (·.2)

def slice? (s : Text) (start stop : Nat) : Option Text :=
  if start ≤ stop then (before? s stop).bind (from? · start) else none

def between? (s : Text) (first last : Nat) : Option Text := slice? s first (last + 1)

def strip? : Text → Text → Option Text
  | [], s => some s
  | _ :: _, [] => none
  | c :: start, d :: s => if c = d then strip? start s else none

-- Every boundary of a text, with what follows it there; the end of the text is the last one.
def suffixes (offset : Nat) : Text → List (Nat × Text)
  | [] => [(offset, [])]
  | c :: rest => (offset, c :: rest) :: suffixes (offset + c.utf8Size) rest

def joinWith (separator : Text) : List Text → Text
  | [] => []
  | [piece] => piece
  | piece :: next :: rest => piece ++ separator ++ joinWith separator (next :: rest)

@[simp] theorem size_nil : size [] = 0 := rfl
@[simp] theorem size_cons (c : Char) (rest : Text) : size (c :: rest) = c.utf8Size + size rest := rfl

@[simp] theorem size_append (s t : Text) : size (s ++ t) = size s + size t := by
  induction s with
  | nil => simp
  | cons c rest ih => simp [ih, Nat.add_assoc]

theorem takeBytes_append_dropBytes (count : Nat) (s : Text) : takeBytes count s ++ dropBytes count s = s := by
  induction s generalizing count with
  | nil => rfl
  | cons c rest ih =>
    simp only [takeBytes, dropBytes]
    split
    · simp [ih]
    · rfl

theorem takeBytes_of_append (before after : Text) : takeBytes (size before) (before ++ after) = before := by
  induction before with
  | nil =>
    cases after with
    | nil => rfl
    | cons c rest => have positive := c.utf8Size_pos; simp [takeBytes]; omega
  | cons c rest ih => simp [takeBytes, ih]

theorem cut?_eq_some {s before after : Text} {offset : Nat} :
    cut? s offset = some (before, after) ↔ s = before ++ after ∧ size before = offset := by
  unfold cut?
  have whole := takeBytes_append_dropBytes offset s
  constructor
  · intro found
    dsimp only at found
    split at found
    · obtain ⟨rfl, rfl⟩ := Prod.mk.inj (Option.some.inj found)
      exact ⟨whole.symm, by assumption⟩
    · cases found
  · rintro ⟨rfl, rfl⟩
    rw [takeBytes_of_append] at whole ⊢
    simp [List.append_cancel_left whole]

theorem strip?_eq_some {start s rest : Text} : strip? start s = some rest ↔ s = start ++ rest := by
  induction start generalizing s with
  | nil => simp [strip?]
  | cons c start ih =>
    cases s with
    | nil => simp [strip?]
    | cons d s =>
      by_cases same : c = d
      · simp [strip?, same, ih]
      · simp [strip?, same, Ne.symm same]

end Text
end PatternMachine
