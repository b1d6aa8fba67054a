import PatternMachine.Proofs.Pattern.Tree
import PatternMachine.Search.Match

namespace PatternMachine

abbrev Consumed := List (Char × List Nat)

-- What is still to be matched: from what is left of the input to what it consumes of that.
abbrev Onward := Text → Option Consumed

def Consumed.text (consumed : Consumed) : Text := consumed.map (·.1)
def Consumed.group (consumed : Consumed) (index : Nat) : Text := (consumed.filter (·.2.contains index)).map (·.1)

namespace Item

def take (captures : List Nat) (c : Char) (onward : Onward) : Onward
  | [] => none
  | d :: rest => if d = c then (onward rest).map ((c, captures) :: ·) else none

def rounds (round : Onward → Onward) (onward : Onward) : Nat → Onward
  | 0 => onward
  | count + 1 => fun rest => round (rounds round onward count) rest <|> onward rest

-- No item can go round more often than there are characters left, unless it consumes nothing.
def repeating (starred : Bool) (round : Onward → Onward) (onward : Onward) : Onward :=
  if starred then fun rest => rounds round onward rest.length rest else round onward

-- Alternatives with no items come after their siblings.
def orNothing (skips : Bool) (round : Onward → Onward) (onward : Onward) : Onward := fun rest =>
  round onward rest <|> if skips then onward rest else none

mutual
def attempt (captures : List Nat) : Item → Onward → Onward
  | .char c starred, onward => repeating starred (take captures c) onward
  | .group capture body starred, onward =>
    repeating starred (orNothing (body.any (·.isEmpty)) (attemptAny (captures ++ capture.toList) body)) onward
def attemptAll (captures : List Nat) : List Item → Onward → Onward
  | [], onward => onward
  | item :: items, onward => item.attempt captures (attemptAll captures items onward)
def attemptAny (captures : List Nat) : List (List Item) → Onward → Onward
  | [], _ => fun _ => none
  | branch :: body, onward => fun rest =>
    (if branch.isEmpty then none else attemptAll captures branch onward rest) <|> attemptAny captures body onward rest
end

end Item

-- What may be left once something was matched: less than before, unless nothing need be consumed.
def Remains (nullable : Bool) (rest after : Text) : Prop :=
  after <:+ rest ∧ (nullable = false → after.length < rest.length)

namespace Remains

variable {nullable other : Bool} {text rest middle after : Text}

theorem refl (rest : Text) : Remains true rest rest := ⟨List.suffix_refl _, fun impossible => (nomatch impossible)⟩

theorem mono (remains : Remains nullable rest after) (wider : nullable = true → other = true) :
    Remains other rest after := by
  refine ⟨remains.1, fun consuming => remains.2 ?_⟩
  cases nullable with
  | false => rfl
  | true => exact (Bool.noConfusion (consuming.symm.trans (wider rfl)))

theorem trans (remains : Remains nullable rest middle) (further : Remains other middle after) :
    Remains (nullable && other) rest after := by
  refine ⟨further.1.trans remains.1, fun consuming => ?_⟩
  rcases Bool.and_eq_false_iff.mp consuming with here | there
  · exact Nat.lt_of_le_of_lt further.1.length_le (remains.2 here)
  · exact Nat.lt_of_lt_of_le (further.2 there) remains.1.length_le

theorem append (text after : Text) : Remains text.isEmpty (text ++ after) after := by
  refine ⟨List.suffix_append _ _, fun consuming => ?_⟩
  cases text with
  | nil => cases consuming
  | cons c text =>
    rw [List.length_append]
    exact Nat.lt_add_of_pos_left (Nat.succ_pos _)

theorem of_nil (remains : Remains false [] after) : False := Nat.not_lt_zero _ (remains.2 rfl)

end Remains

-- A matcher asks what comes next only of what remains, and fails where that always does.
structure Steady (nullable : Bool) (matcher : Onward → Onward) : Prop where
  heeds : ∀ {onward onward' rest}, (∀ after, Remains nullable rest after → onward after = onward' after) →
    matcher onward rest = matcher onward' rest
  fails : ∀ rest, matcher (fun _ => none) rest = none

namespace Steady

variable {nullable other : Bool} {matcher round : Onward → Onward} {onward : Onward}

theorem mono (steady : Steady nullable matcher) (wider : nullable = true → other = true) : Steady other matcher :=
  ⟨fun same => steady.heeds fun after remains => same after (remains.mono wider), steady.fails⟩

theorem idle : Steady true fun onward => onward := ⟨fun same => same _ (.refl _), fun _ => rfl⟩

theorem never : Steady nullable fun _ _ => none := ⟨fun _ => rfl, fun _ => rfl⟩

theorem take (captures : List Nat) (c : Char) : Steady false (Item.take captures c) := by
  refine ⟨?_, fun rest => ?_⟩
  · intro onward onward' rest same
    cases rest with
    | nil => rfl
    | cons d rest =>
      have here := same rest (Remains.append [d] rest)
      simp only [Item.take, here]
  · cases rest <;> simp [Item.take]

theorem comp (steady : Steady nullable matcher) (further : Steady other round) :
    Steady (nullable && other) fun onward => matcher (round onward) := by
  refine ⟨?_, fun rest => ?_⟩
  · intro onward onward' rest same
    apply steady.heeds
    intro middle remains
    apply further.heeds
    intro after remains'
    exact same after (remains.trans remains')
  · have failing : round (fun _ => none) = fun _ => none := funext further.fails
    rw [failing]
    exact steady.fails rest

theorem either (steady : Steady nullable matcher) (further : Steady other round) :
    Steady (nullable || other) fun onward rest => matcher onward rest <|> round onward rest := by
  have first : Steady (nullable || other) matcher := steady.mono fun empty => by simp [empty]
  have second : Steady (nullable || other) round := further.mono fun empty => by simp [empty]
  refine ⟨?_, fun rest => ?_⟩
  · intro onward onward' rest same
    simp only [first.heeds same, second.heeds same]
  · simp [steady.fails rest, further.fails rest]

theorem orNothing (steady : Steady nullable matcher) {skips : Bool} (empty : skips = true → nullable = true) :
    Steady nullable (Item.orNothing skips matcher) := by
  cases skips with
  | false =>
    have never : Steady nullable fun _ _ => none := never
    have whole := steady.either never
    rw [Bool.or_self] at whole
    exact whole
  | true =>
    have whole := steady.either idle
    rw [Bool.or_true, ← empty rfl] at whole
    exact whole

theorem rounds (steady : Steady nullable round) (count : Nat) :
    Steady true fun onward => Item.rounds round onward count := by
  induction count with
  | zero => exact idle
  | succ count ih =>
    have whole := (steady.comp ih).either idle
    rw [Bool.or_true] at whole
    exact whole

theorem repeating (steady : Steady nullable round) (starred : Bool) :
    Steady (starred || nullable) (Item.repeating starred round) := by
  cases starred with
  | false => exact steady
  | true => exact ⟨fun same => (steady.rounds _).heeds same, fun _ => (steady.rounds _).fails _⟩

-- Of rounds that consume something, no more are of use than there are characters.
theorem rounds_enough (steady : Steady false round) {rest : Text} {count count' : Nat} (enough : rest.length ≤ count)
    (enough' : rest.length ≤ count') : Item.rounds round onward count rest = Item.rounds round onward count' rest := by
  have none_left : ∀ {onward'}, round onward' [] = none := by
    intro onward'
    rw [← steady.fails []]
    exact steady.heeds fun after remains => remains.of_nil.elim
  have at_end : ∀ count, Item.rounds round onward count [] = onward [] := by
    intro count
    cases count with
    | zero => rfl
    | succ count => simp [Item.rounds, none_left]
  induction count generalizing rest count' with
  | zero =>
    cases List.eq_nil_of_length_eq_zero (Nat.le_zero.mp enough)
    rw [at_end, at_end]
  | succ count ih =>
    cases count' with
    | zero =>
      cases List.eq_nil_of_length_eq_zero (Nat.le_zero.mp enough')
      rw [at_end, at_end]
    | succ count' =>
      have same : round (Item.rounds round onward count) rest = round (Item.rounds round onward count') rest := by
        refine steady.heeds fun after remains => ih ?_ ?_
        · exact Nat.le_of_lt_succ (Nat.lt_of_lt_of_le (remains.2 rfl) enough)
        · exact Nat.le_of_lt_succ (Nat.lt_of_lt_of_le (remains.2 rfl) enough')
      simp only [Item.rounds, same]

theorem repeating_again (steady : Steady false round) (onward : Onward) (rest : Text) :
    Item.repeating true round onward rest =
      (round (Item.repeating true round onward) rest <|> onward rest) := by
  have whole : Item.repeating true round onward rest = Item.rounds round onward (rest.length + 1) rest :=
    steady.rounds_enough (Nat.le_refl _) (Nat.le_succ _)
  have same : round (Item.rounds round onward rest.length) rest = round (Item.repeating true round onward) rest :=
    steady.heeds fun after remains => steady.rounds_enough (Nat.le_of_lt (remains.2 rfl)) (Nat.le_refl _)
  rw [whole, ← same]
  rfl

end Steady

namespace Item

theorem nullableAny_of_empty {body : List (List Item)} (skips : body.any (·.isEmpty) = true) :
    nullableAny body = true := by
  induction body with
  | nil => cases skips
  | cons branch body ih =>
    rw [nullableAny, Bool.or_eq_true]
    rcases Bool.or_eq_true _ _ ▸ skips with empty | later
    · rw [List.isEmpty_iff.mp empty]
      exact .inl rfl
    · exact .inr (ih later)

mutual
theorem attempt_steady (captures : List Nat) : (item : Item) → Steady item.nullable (item.attempt captures)
  | .char c starred => by
    have whole := (Steady.take captures c).repeating starred
    rw [Bool.or_false] at whole
    exact whole
  | .group capture body starred =>
    ((attemptAny_steady (captures ++ capture.toList) body).orNothing nullableAny_of_empty).repeating starred
theorem attemptAll_steady (captures : List Nat) :
    (items : List Item) → Steady (nullableAll items) (attemptAll captures items)
  | [] => .idle
  | item :: items => (attempt_steady captures item).comp (attemptAll_steady captures items)
theorem attemptAny_steady (captures : List Nat) :
    (body : List (List Item)) → Steady (nullableAny body) (attemptAny captures body)
  | [] => .never
  | branch :: body => by
    have first : Steady (nullableAll branch) fun onward rest =>
        if branch.isEmpty then none else attemptAll captures branch onward rest := by
      cases branch with
      | nil => exact .never
      | cons item items => exact attemptAll_steady captures (item :: items)
    exact first.either (attemptAny_steady captures body)
end

end Item

namespace Tree

def finish (anchors : Anchors) : Onward := fun rest => if anchors.fixedEnd && !rest.isEmpty then none else some []

def attempt (tree : Tree) (anchors : Anchors) : Onward :=
  Item.orNothing (tree.body.any (·.isEmpty)) (Item.attemptAny [] tree.body) (finish anchors)

def starts (anchors : Anchors) (input : Text) : List (Nat × Text) :=
  if anchors.fixedStart then [(0, input)] else Text.suffixes 0 input

def find (tree : Tree) (anchors : Anchors) (input : Text) : Option Match :=
  (starts anchors input).findSome? fun (start, rest) =>
    (tree.attempt anchors rest).map fun consumed =>
      ⟨start, consumed.text, (List.range tree.captures).map consumed.group⟩

end Tree
end PatternMachine
