import PatternMachine.Proofs.Pattern.Spelling

namespace PatternMachine

namespace Item

mutual
def indices : Item → List Nat
  | .char _ _ => []
  | .group capture body _ => capture.toList ++ indicesAny body
def indicesAll : List Item → List Nat
  | [] => []
  | item :: items => item.indices ++ indicesAll items
def indicesAny : List (List Item) → List Nat
  | [] => []
  | branch :: body => indicesAll branch ++ indicesAny body
end

mutual
def looped : Item → List Nat
  | .char _ _ => []
  | .group capture body starred => if starred then capture.toList ++ indicesAny body else loopedAny body
def loopedAll : List Item → List Nat
  | [] => []
  | item :: items => item.looped ++ loopedAll items
def loopedAny : List (List Item) → List Nat
  | [] => []
  | branch :: body => loopedAll branch ++ loopedAny body
end

mutual
def hollow : Item → Bool
  | .char _ _ => false
  | .group _ body _ => hollowAny body
def hollowAll : List Item → Bool
  | [] => true
  | item :: items => item.hollow && hollowAll items
def hollowAny : List (List Item) → Bool
  | [] => true
  | branch :: body => hollowAll branch && hollowAny body
end

mutual
-- Whether a star of the capture is the last thing in what has been read of an alternative, with `none` as
-- long as that has only been groups of one alternative that hold nothing. A starred group without a
-- literal is passed over, unless it is the first thing there.
def ending (index : Nat) (inside : Bool) (before : Option Bool) : Item → Option Bool
  | .char _ starred => some (inside && starred)
  | .group _ body true => if hollowAny body then some (before.getD false) else some inside
  | .group capture body false => (endingAny index (inside || capture == some index) body).or before
def endingAll (index : Nat) (inside : Bool) (before : Option Bool) : List Item → Option Bool
  | [] => before
  | item :: items => endingAll index inside (item.ending index inside before) items
def endingAny (index : Nat) (inside : Bool) : List (List Item) → Option Bool
  | [branch] => endingAll index inside none branch
  | _ => some false
end

mutual
-- No star directly follows the end of a capture that ends in one.
def clear (index : Nat) : Item → Bool
  | .char _ _ => true
  | .group _ body starred => starred || clearEach index body
def clearAfter (index : Nat) (before : Option Bool) : List Item → Bool
  | [] => true
  | item :: items => !(before == some true && item.starred && !item.hollow) && item.clear index &&
      clearAfter index (item.ending index false before) items
def clearEach (index : Nat) : List (List Item) → Bool
  | [] => true
  | branch :: body => clearAfter index none branch && clearEach index body
end

theorem indicesAll_append (items later : List Item) : indicesAll (items ++ later) = indicesAll items ++ indicesAll later := by
  induction items with
  | nil => rfl
  | cons item items ih => simp [indicesAll, ih]

theorem indicesAny_append (body later : List (List Item)) :
    indicesAny (body ++ later) = indicesAny body ++ indicesAny later := by
  induction body with
  | nil => rfl
  | cons branch body ih => simp [indicesAny, ih]

mutual
theorem ending_free {index : Nat} {before : Option Bool} (none : before ≠ some true) :
    (item : Item) → index ∉ item.indices → item.ending index false before ≠ some true
  | .char _ _, _ => by simp [ending]
  | .group _ body true, _ => by
    rw [ending]
    split
    · simpa [Option.getD_eq_iff] using none
    · simp
  | .group capture body false, free => by
    obtain ⟨other, inner⟩ : index ∉ capture.toList ∧ index ∉ indicesAny body := by simpa [indices] using free
    have apart : (capture == some index) = false := by
      simpa using fun same : capture = some index => other (by simp [same])
    rw [ending, apart, Bool.or_self]
    cases inside : endingAny index false body with
    | none => simpa using none
    | some flag => simpa [inside] using endingAny_free body inner
theorem endingAll_free {index : Nat} {before : Option Bool} (none : before ≠ some true) :
    (items : List Item) → index ∉ indicesAll items → endingAll index false before items ≠ some true
  | [], _ => none
  | item :: items, free => by
    obtain ⟨first, rest⟩ : index ∉ item.indices ∧ index ∉ indicesAll items := by simpa [indicesAll] using free
    exact endingAll_free (ending_free none item first) items rest
theorem endingAny_free {index : Nat} : (body : List (List Item)) → index ∉ indicesAny body →
    endingAny index false body ≠ some true
  | [], _ => by simp [endingAny]
  | [branch], free => endingAll_free (by simp) branch (by simpa [indicesAny] using free)
  | _ :: _ :: _, _ => by simp [endingAny]
end

end Item

def Opened.indices (level : Opened) : List Nat :=
  Item.indicesAny level.closed ++ Item.indicesAll level.items ++ level.capture.toList

namespace Reader

def indices (r : Reader) : List Nat :=
  r.outer.reverse.flatMap Opened.indices ++ (Item.indicesAny r.closed ++ Item.indicesAll r.items)

def Numbered (r : Reader) : Prop := r.indices = List.range r.captures

namespace Numbered

variable {r : Reader}

theorem char (numbered : r.Numbered) (c : Char) (starred : Bool) : (r.item (.char c starred)).Numbered := by
  simpa [Numbered, Reader.indices, Reader.item, Item.indicesAll_append, Item.indicesAll, Item.indices] using numbered

theorem bar (numbered : r.Numbered) : r.bar.Numbered := by
  simpa [Numbered, Reader.indices, Reader.bar, Item.indicesAny_append, Item.indicesAny, Item.indicesAll] using numbered

theorem opening (numbered : r.Numbered) (capturing : Bool) : (r.opening capturing).Numbered := by
  cases capturing with
  | false =>
    simpa [Numbered, Reader.indices, Reader.opening, Opened.indices, Item.indicesAny, Item.indicesAll] using numbered
  | true =>
    have before : r.indices = List.range r.captures := numbered
    show (r.opening true).indices = List.range (r.captures + 1)
    rw [List.range_succ, ← before]
    simp [Reader.indices, Reader.opening, Opened.indices, Item.indicesAny, Item.indicesAll]

theorem closing {next : Reader} {starred : Bool} (numbered : r.Numbered) (closed : r.closing starred = some next) :
    next.Numbered := by
  obtain ⟨outer, done, items, captures⟩ := r
  cases outer with
  | nil => cases closed
  | cons level outer =>
    cases closed
    simpa [Numbered, Reader.indices, Opened.indices, Item.indicesAny_append, Item.indicesAll_append, Item.indicesAny,
      Item.indicesAll, Item.indices] using numbered

theorem finish {tree : Tree} (numbered : r.Numbered) (finished : r.finish = some tree) :
    Item.indicesAny tree.body = List.range tree.captures := by
  obtain ⟨outer, done, items, captures⟩ := r
  cases outer with
  | cons _ _ => cases finished
  | nil =>
    cases finished
    simpa [Numbered, Reader.indices, Item.indicesAny_append, Item.indicesAny] using numbered

theorem read {text : Text} {tree : Tree} (numbered : r.Numbered) (finished : r.read text = some tree) :
    Item.indicesAny tree.body = List.range tree.captures := by
  fun_induction Reader.read r text with
  | case1 r => exact numbered.finish finished
  | case2 r => exact numbered.finish finished
  | case3 r c rest ih => exact ih (numbered.char c true) finished
  | case4 r c rest _ ih => exact ih (numbered.char c false) finished
  | case5 r rest ih => exact ih numbered.bar finished
  | case6 r rest ih => exact ih (numbered.opening false) finished
  | case7 r rest _ ih => exact ih (numbered.opening true) finished
  | case8 r rest ih =>
    obtain ⟨next, closed, finished⟩ := Option.bind_eq_some_iff.mp finished
    exact ih next (numbered.closing closed) finished
  | case9 r rest _ ih =>
    obtain ⟨next, closed, finished⟩ := Option.bind_eq_some_iff.mp finished
    exact ih next (numbered.closing closed) finished
  | case10 r c rest _ _ _ _ _ ih => exact ih (numbered.char c true) finished
  | case11 r c rest _ _ _ _ _ _ _ _ _ ih => exact ih (numbered.char c false) finished

end Numbered
end Reader

theorem Tree.read_indices {body : Text} {tree : Tree} (read : Tree.read body = some tree) :
    Item.indicesAny tree.body = List.range tree.captures := by
  have numbered : Reader.initial.Numbered := rfl
  exact numbered.read read

end PatternMachine
