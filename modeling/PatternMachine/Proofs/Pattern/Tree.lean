import PatternMachine.Text.Basic
import Mathlib.Computability.Language

namespace PatternMachine

open scoped Computability

inductive Item where
  | char (c : Char) (starred : Bool)
  -- A group with its alternatives. One that does not capture has no index.
  | group (capture : Option Nat) (body : List (List Item)) (starred : Bool)

structure Tree where
  body : List (List Item)
  captures : Nat

-- A group that is still being read stands in the way of what was read before it: the alternatives
-- around it that were complete, the items of the one that the group belongs to, and its own index.
structure Opened where
  closed : List (List Item)
  items : List Item
  capture : Option Nat

structure Reader where
  -- Open groups, innermost first.
  outer : List Opened
  closed : List (List Item)
  items : List Item
  captures : Nat

namespace Reader

def initial : Reader := ⟨[], [], [], 0⟩

def item (r : Reader) (item : Item) : Reader := { r with items := r.items ++ [item] }
def bar (r : Reader) : Reader := { r with closed := r.closed ++ [r.items], items := [] }

def opening (r : Reader) (capturing : Bool) : Reader :=
  if capturing then ⟨⟨r.closed, r.items, some r.captures⟩ :: r.outer, [], [], r.captures + 1⟩
  else ⟨⟨r.closed, r.items, none⟩ :: r.outer, [], [], r.captures⟩

def closing (r : Reader) (starred : Bool) : Option Reader :=
  match r.outer with
  | [] => none
  | level :: outer =>
    some ⟨outer, level.closed, level.items ++ [.group level.capture (r.closed ++ [r.items]) starred], r.captures⟩

def finish (r : Reader) : Option Tree :=
  match r.outer with
  | [] => some ⟨r.closed ++ [r.items], r.captures⟩
  | _ :: _ => none

-- Reads on, character by character. A star belongs to the literal or the closing right before it.
def read (r : Reader) : Text → Option Tree
  | [] => r.finish
  | ['\\'] => r.finish
  | '\\' :: c :: '*' :: rest => (r.item (.char c true)).read rest
  | '\\' :: c :: rest => (r.item (.char c false)).read rest
  | '|' :: rest => r.bar.read rest
  | '(' :: '?' :: ':' :: rest => (r.opening false).read rest
  | '(' :: rest => (r.opening true).read rest
  | ')' :: '*' :: rest => (r.closing true).bind (·.read rest)
  | ')' :: rest => (r.closing false).bind (·.read rest)
  | c :: '*' :: rest => (r.item (.char c true)).read rest
  | c :: rest => (r.item (.char c false)).read rest

end Reader

def Tree.read (body : Text) : Option Tree := Reader.initial.read body

def Item.repeated (starred : Bool) (language : Language Char) : Language Char :=
  if starred then language∗ else language

namespace Item

def starred : Item → Bool
  | .char _ starred | .group _ _ starred => starred

mutual
def language : Item → Language Char
  | .char c starred => repeated starred {[c]}
  | .group _ body starred => repeated starred (languageAny body)
def languageAll : List Item → Language Char
  | [] => 1
  | item :: items => item.language * languageAll items
def languageAny : List (List Item) → Language Char
  | [] => 0
  | branch :: body => languageAll branch + languageAny body
end

mutual
def nullable : Item → Bool
  | .char _ starred => starred
  | .group _ body starred => starred || nullableAny body
def nullableAll : List Item → Bool
  | [] => true
  | item :: items => item.nullable && nullableAll items
def nullableAny : List (List Item) → Bool
  | [] => false
  | branch :: body => nullableAll branch || nullableAny body
end

mutual
-- An item ends in a star if it is starred, or a group whose only alternative does so at its end.
def endsInStar : Item → Bool
  | .char _ starred => starred
  | .group _ body starred => starred || onlyEndsInStar body
def lastEndsInStar : List Item → Bool
  | [] => false
  | [item] => item.endsInStar
  | _ :: item :: items => lastEndsInStar (item :: items)
def onlyEndsInStar : List (List Item) → Bool
  | [branch] => lastEndsInStar branch
  | _ => false
end

mutual
-- No starred item directly follows one that ends in a star; `after` says whether the item before
-- the first one does.
def apart : Item → Bool
  | .char _ _ => true
  | .group _ body _ => apartEach body
def apartAfter (after : Bool) : List Item → Bool
  | [] => true
  | item :: items => !(after && item.starred) && item.apart && apartAfter item.endsInStar items
def apartEach : List (List Item) → Bool
  | [] => true
  | branch :: body => apartAfter false branch && apartEach body
end

mutual
-- The same end with empty groups left out: a group that holds nothing ends the way its predecessor
-- does.
def leavesStar (after : Bool) : Item → Bool
  | .char _ starred => starred
  | .group _ body starred => starred || onlyLeavesStar after body
def lastLeavesStar (after : Bool) : List Item → Bool
  | [] => after
  | item :: items => lastLeavesStar (item.leavesStar after) items
def onlyLeavesStar (after : Bool) : List (List Item) → Bool
  | [branch] => lastLeavesStar after branch
  | _ => false
end

mutual
def spaced : Item → Bool
  | .char _ _ => true
  | .group _ body _ => spacedEach body
def spacedAfter (after : Bool) : List Item → Bool
  | [] => true
  | item :: items => !(after && item.starred) && item.spaced && spacedAfter (item.leavesStar after) items
def spacedEach : List (List Item) → Bool
  | [] => true
  | branch :: body => spacedAfter false branch && spacedEach body
end

mutual
-- No group is empty, and no starred one can be passed without consuming anything.
def filled : Item → Bool
  | .char _ _ => true
  | .group _ body starred => !emptyGroup body && !(starred && nullableAny body) && filledEach body
def filledAll : List Item → Bool
  | [] => true
  | item :: items => item.filled && filledAll items
def filledEach : List (List Item) → Bool
  | [] => true
  | branch :: body => filledAll branch && filledEach body
def emptyGroup : List (List Item) → Bool
  | [[]] => true
  | _ => false
end

theorem filled_group {capture : Option Nat} {body : List (List Item)} {starred : Bool}
    (filled : (Item.group capture body starred).filled = true) :
    emptyGroup body = false ∧ (starred && nullableAny body) = false ∧ filledEach body = true := by
  simpa only [Item.filled, Bool.and_eq_true, Bool.not_eq_true', and_assoc] using filled

mutual
theorem leavesStar_filled (after : Bool) : (item : Item) → item.filled = true → item.leavesStar after = item.endsInStar
  | .char _ _, _ => rfl
  | .group _ body starred, filled => by
    obtain ⟨nonempty, _, inner⟩ := filled_group filled
    rw [leavesStar, endsInStar, onlyLeavesStar_filled after body nonempty inner]
theorem lastLeavesStar_filled (after : Bool) : (items : List Item) → items ≠ [] → filledAll items = true →
    lastLeavesStar after items = lastEndsInStar items
  | [], nonempty, _ => (nonempty rfl).elim
  | [item], _, filled => leavesStar_filled after item (Bool.and_eq_true _ _ ▸ filled).1
  | _ :: later :: items, _, filled =>
    lastLeavesStar_filled _ (later :: items) (List.cons_ne_nil _ _) (Bool.and_eq_true _ _ ▸ filled).2
theorem onlyLeavesStar_filled (after : Bool) : (body : List (List Item)) → emptyGroup body = false →
    filledEach body = true → onlyLeavesStar after body = onlyEndsInStar body
  | [], _, _ => rfl
  | [[]], nonempty, _ => by cases nonempty
  | [item :: items], _, filled =>
    lastLeavesStar_filled after (item :: items) (List.cons_ne_nil _ _) (Bool.and_eq_true _ _ ▸ filled).1
  | _ :: _ :: _, _, _ => rfl
end

mutual
theorem spaced_filled : (item : Item) → item.filled = true → item.spaced = item.apart
  | .char _ _, _ => rfl
  | .group _ body _, filled => spacedEach_filled body (filled_group filled).2.2
theorem spacedAfter_filled (after : Bool) : (items : List Item) → filledAll items = true →
    spacedAfter after items = apartAfter after items
  | [], _ => rfl
  | item :: items, filled => by
    obtain ⟨first, others⟩ := Bool.and_eq_true _ _ ▸ filled
    rw [spacedAfter, apartAfter, spaced_filled item first, leavesStar_filled after item first,
      spacedAfter_filled item.endsInStar items others]
theorem spacedEach_filled : (body : List (List Item)) → filledEach body = true → spacedEach body = apartEach body
  | [], _ => rfl
  | branch :: body, filled => by
    obtain ⟨first, others⟩ := Bool.and_eq_true _ _ ▸ filled
    rw [spacedEach, apartEach, spacedAfter_filled false branch first, spacedEach_filled body others]
end

end Item

end PatternMachine
