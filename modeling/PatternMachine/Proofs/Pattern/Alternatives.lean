import PatternMachine.Proofs.Pattern.Indices
import PatternMachine.Proofs.Pattern.Wrapped

namespace PatternMachine

namespace Item

mutual
def shift (count : Nat) : Item → Item
  | .char c starred => .char c starred
  | .group capture body starred => .group (capture.map (· + count)) (shiftAny count body) starred
def shiftAll (count : Nat) : List Item → List Item
  | [] => []
  | item :: items => item.shift count :: shiftAll count items
def shiftAny (count : Nat) : List (List Item) → List (List Item)
  | [] => []
  | branch :: body => shiftAll count branch :: shiftAny count body
end

theorem shiftAll_append (count : Nat) (items later : List Item) :
    shiftAll count (items ++ later) = shiftAll count items ++ shiftAll count later := by
  induction items with
  | nil => rfl
  | cons item items ih => simp [shiftAll, ih]

theorem shiftAny_append (count : Nat) (body later : List (List Item)) :
    shiftAny count (body ++ later) = shiftAny count body ++ shiftAny count later := by
  induction body with
  | nil => rfl
  | cons branch body ih => simp [shiftAny, ih]

end Item

def Opened.behind (front : List (List Item)) (count : Nat) (outer : List Opened) (level : Opened) : Opened :=
  ⟨(if outer.isEmpty then front else []) ++ Item.shiftAny count level.closed, Item.shiftAll count level.items,
    level.capture.map (· + count)⟩

def Opened.behindEach (front : List (List Item)) (count : Nat) : List Opened → List Opened
  | [] => []
  | level :: outer => level.behind front count outer :: behindEach front count outer

namespace Reader

def behind (front : List (List Item)) (count : Nat) (r : Reader) : Reader :=
  ⟨Opened.behindEach front count r.outer, (if r.outer.isEmpty then front else []) ++ Item.shiftAny count r.closed,
    Item.shiftAll count r.items, r.captures + count⟩

variable {front : List (List Item)} {count : Nat} {r : Reader}

theorem behind_char (c : Char) (starred : Bool) :
    (r.item (.char c starred)).behind front count = (r.behind front count).item (.char c starred) := by
  simp [behind, Reader.item, Item.shiftAll_append, Item.shiftAll, Item.shift]

theorem behind_bar : r.bar.behind front count = (r.behind front count).bar := by
  simp [behind, bar, Item.shiftAny_append, Item.shiftAny, Item.shiftAll]

theorem behind_opening (capturing : Bool) :
    (r.opening capturing).behind front count = (r.behind front count).opening capturing := by
  cases capturing with
  | false => simp [behind, opening, Opened.behindEach, Opened.behind, Item.shiftAny, Item.shiftAll]
  | true =>
    simp [behind, opening, Opened.behindEach, Opened.behind, Item.shiftAny, Item.shiftAll, Nat.add_right_comm]

theorem behind_closing (starred : Bool) :
    (r.behind front count).closing starred = (r.closing starred).map (behind front count) := by
  obtain ⟨outer, closed, items, captures⟩ := r
  cases outer with
  | nil => rfl
  | cons level outer =>
    simp [behind, closing, Opened.behindEach, Opened.behind, Item.shiftAny_append, Item.shiftAll_append, Item.shiftAny,
      Item.shiftAll, Item.shift]

theorem behind_finish :
    (r.behind front count).finish =
      r.finish.map fun tree => ⟨front ++ Item.shiftAny count tree.body, tree.captures + count⟩ := by
  obtain ⟨outer, closed, items, captures⟩ := r
  cases outer with
  | nil => simp [behind, finish, Opened.behindEach, Item.shiftAny_append, Item.shiftAny]
  | cons level outer => rfl

theorem behind_read (text : Text) :
    (r.behind front count).read text =
      (r.read text).map fun tree => ⟨front ++ Item.shiftAny count tree.body, tree.captures + count⟩ := by
  fun_induction Reader.read r text with
  | case1 r => exact behind_finish
  | case2 r => exact behind_finish
  | case3 r c rest ih =>
    rw [← ih, behind_char]
    rfl
  | case4 r c rest unstarred ih =>
    rw [← ih, behind_char, Reader.read]
    exact unstarred
  | case5 r rest ih =>
    rw [← ih, behind_bar]
    rfl
  | case6 r rest ih =>
    rw [← ih, behind_opening]
    rfl
  | case7 r rest unmarked ih =>
    rw [← ih, behind_opening, Reader.read]
    exact unmarked
  | case8 r rest ih =>
    rw [Reader.read, behind_closing]
    cases r.closing true with
    | none => rfl
    | some next => exact ih next
  | case9 r rest unstarred ih =>
    rw [Reader.read, behind_closing]
    · cases r.closing false with
      | none => rfl
      | some next => exact ih next
    · exact unstarred
  | case10 r c rest _ escape bar opening closing ih =>
    rw [← ih, behind_char, Reader.read] <;> assumption
  | case11 r c rest lone _ escape bar _ opening _ closing unstarred ih =>
    rw [← ih, behind_char, Reader.read] <;> assumption

-- A text that the reading before it does not depend on: it stars nothing and marks no group.
structure Fresh (later : Text) : Prop where
  unstarred : ∀ tail, later ≠ '*' :: tail
  unmarked : ∀ tail, later ≠ '?' :: tail ∧ later ≠ ':' :: tail

theorem unstarred_on {rest later : Text} (unstarred : ∀ tail, rest = '*' :: tail → False) (fresh : Fresh later) :
    ∀ tail, rest ++ later = '*' :: tail → False := by
  intro tail same
  cases rest with
  | nil => exact fresh.unstarred tail same
  | cons c rest =>
    cases same
    exact unstarred rest rfl

theorem unmarked_on {rest later : Text} (unmarked : ∀ tail, rest = '?' :: ':' :: tail → False) (fresh : Fresh later) :
    ∀ tail, rest ++ later = '?' :: ':' :: tail → False := by
  intro tail same
  match rest with
  | [] => exact (fresh.unmarked _).1 same
  | [_] => exact (fresh.unmarked tail).2 (List.cons.inj same).2
  | _ :: _ :: rest =>
    cases same
    exact unmarked rest rfl

def within (levels : List Opened) (r : Reader) : Reader := { r with outer := r.outer ++ levels }

theorem within_nil : r.within [] = r := by
  simp [within]

theorem within_opening (levels : List Opened) (capturing : Bool) :
    (r.within levels).opening capturing = (r.opening capturing).within levels := by
  cases capturing <;> rfl

theorem within_closing (levels : List Opened) {starred : Bool} {next : Reader} (closed : r.closing starred = some next) :
    (r.within levels).closing starred = some (next.within levels) := by
  obtain ⟨outer, done, items, captures⟩ := r
  cases outer with
  | nil => cases closed
  | cons level outer =>
    cases closed
    rfl

theorem read_on {text : Text} {tree : Tree} (settled : Text.escaping false text = false)
    (finished : r.read text = some tree) : ∃ last : Reader, last.finish = some tree ∧
      ∀ levels later, Fresh later → (r.within levels).read (text ++ later) = (last.within levels).read later := by
  fun_induction Reader.read r text with
  | case1 r => exact ⟨r, finished, fun _ _ _ => rfl⟩
  | case2 r => cases settled
  | case3 r c rest ih =>
    obtain ⟨last, ends, reads⟩ := ih (by simpa [Text.escaping] using settled) finished
    exact ⟨last, ends, reads⟩
  | case4 r c rest unstarred ih =>
    obtain ⟨last, ends, reads⟩ := ih (by simpa [Text.escaping] using settled) finished
    refine ⟨last, ends, fun levels later fresh => ?_⟩
    rw [← reads levels later fresh, List.cons_append, List.cons_append, Reader.read]
    · rfl
    · exact unstarred_on unstarred fresh
  | case5 r rest ih => exact ih settled finished
  | case6 r rest ih =>
    obtain ⟨last, ends, reads⟩ := ih settled finished
    refine ⟨last, ends, fun levels later fresh => ?_⟩
    rw [← reads levels later fresh, ← within_opening]
    rfl
  | case7 r rest unmarked ih =>
    obtain ⟨last, ends, reads⟩ := ih settled finished
    refine ⟨last, ends, fun levels later fresh => ?_⟩
    rw [← reads levels later fresh, List.cons_append, Reader.read, within_opening]
    exact unmarked_on unmarked fresh
  | case8 r rest ih =>
    obtain ⟨next, closed, finished⟩ := Option.bind_eq_some_iff.mp finished
    obtain ⟨last, ends, reads⟩ := ih next settled finished
    refine ⟨last, ends, fun levels later fresh => ?_⟩
    rw [← reads levels later fresh, List.cons_append, List.cons_append, Reader.read, within_closing levels closed]
    rfl
  | case9 r rest unstarred ih =>
    obtain ⟨next, closed, finished⟩ := Option.bind_eq_some_iff.mp finished
    obtain ⟨last, ends, reads⟩ := ih next settled finished
    refine ⟨last, ends, fun levels later fresh => ?_⟩
    rw [← reads levels later fresh, List.cons_append, Reader.read, within_closing levels closed]
    · rfl
    · exact unstarred_on unstarred fresh
  | case10 r c rest _ escape bar opening closing ih =>
    have plain : (c == '\\') = false := beq_eq_false_iff_ne.mpr escape
    obtain ⟨last, ends, reads⟩ := ih (by simpa [Text.escaping, plain] using settled) finished
    refine ⟨last, ends, fun levels later fresh => ?_⟩
    have taken : (r.item (.char c true)).within levels = (r.within levels).item (.char c true) := rfl
    rw [← reads levels later fresh, List.cons_append, List.cons_append, taken, Reader.read]
    all_goals grind
  | case11 r c rest lone _ escape bar _ opening _ closing unstarred ih =>
    have off : c ≠ '\\' := by
      intro same
      cases rest with
      | nil => exact lone same rfl
      | cons d rest => exact escape d rest same rfl
    have plain : (c == '\\') = false := beq_eq_false_iff_ne.mpr off
    obtain ⟨last, ends, reads⟩ := ih (by simpa [Text.escaping, plain] using settled) finished
    refine ⟨last, ends, fun levels later fresh => ?_⟩
    have unstarred' := unstarred_on unstarred fresh
    have taken : (r.item (.char c false)).within levels = (r.within levels).item (.char c false) := rfl
    rw [← reads levels later fresh, List.cons_append, taken, Reader.read]
    all_goals grind

theorem Fresh.bar (later : Text) : Fresh ('|' :: later) := by
  constructor <;> simp

theorem Fresh.closing : Fresh [')'] := by
  constructor <;> simp

theorem read_bar {text : Text} {tree : Tree} (settled : Text.escaping false text = false)
    (finished : r.read text = some tree) :
    ∃ last : Reader, last.finish = some tree ∧ ∀ later, r.read (text ++ '|' :: later) = last.bar.read later := by
  obtain ⟨last, ends, reads⟩ := read_on settled finished
  refine ⟨last, ends, fun later => ?_⟩
  have whole := reads [] _ (.bar later)
  rw [within_nil, within_nil] at whole
  exact whole

theorem read_enclosed {text : Text} {tree : Tree} (settled : Text.escaping false text = false)
    (finished : r.read text = some tree) (level : Opened) : (r.within [level]).read (text ++ [')']) =
      some ⟨level.closed ++ [level.items ++ [.group level.capture tree.body false]], tree.captures⟩ := by
  obtain ⟨last, ends, reads⟩ := read_on settled finished
  obtain ⟨outer, closed, items, captures⟩ := last
  cases outer with
  | cons _ _ => cases ends
  | nil =>
    cases ends
    exact reads [level] _ .closing

end Reader

theorem Tree.read_alternatives {body other : Text} {tree later : Tree} (settled : body.endsEscaping = false)
    (read : Tree.read body = some tree) (read' : Tree.read other = some later) :
    Tree.read (body ++ '|' :: other) =
      some ⟨tree.body ++ Item.shiftAny tree.captures later.body, later.captures + tree.captures⟩ := by
  rw [← Text.escaping_eq] at settled
  obtain ⟨last, ends, reads⟩ := Reader.read_bar settled read
  obtain ⟨outer, closed, items, captures⟩ := last
  cases outer with
  | cons _ _ => cases ends
  | nil =>
    cases ends
    have behind : (Reader.initial.behind (closed ++ [items]) captures).read other = _ := Reader.behind_read other
    have same : Reader.initial.behind (closed ++ [items]) captures = Reader.bar ⟨[], closed, items, captures⟩ := by
      simp [Reader.behind, Reader.initial, Reader.bar, Opened.behindEach, Item.shiftAny, Item.shiftAll]
    have initial : Reader.initial.read other = some later := read'
    rw [same, initial] at behind
    exact (reads other).trans behind

def Pattern.ownCapture (capturing : Bool) : Option Nat := if capturing then some 0 else none

theorem Tree.read_enclose {body : Text} {tree : Tree} (settled : body.endsEscaping = false) {capturing : Bool}
    (unmarked : capturing = true → CaptureTable.plainMark.isPrefixOf body = false) (read : Tree.read body = some tree) :
    Tree.read (Pattern.enclose capturing body) =
      some ⟨[[.group (Pattern.ownCapture capturing) (Item.shiftAny capturing.toNat tree.body) false]],
        tree.captures + capturing.toNat⟩ := by
  rw [← Text.escaping_eq] at settled
  have initial : Reader.initial.read body = some tree := read
  have behind : (Reader.initial.behind [] capturing.toNat).read body = _ := Reader.behind_read body
  rw [initial] at behind
  have enclosed := Reader.read_enclosed settled behind ⟨[], [], Pattern.ownCapture capturing⟩
  have opened : Tree.read (Pattern.enclose capturing body) = (Reader.initial.opening capturing).read (body ++ [')']) := by
    cases capturing with
    | false => rfl
    | true =>
      have apart : ∀ tail, body = '?' :: ':' :: tail → False := by
        rintro tail rfl
        cases unmarked rfl
      show Reader.initial.read ('(' :: (body ++ [')'])) = _
      rw [Reader.read]
      exact Reader.unmarked_on apart .closing
  rw [opened]
  cases capturing <;> exact enclosed

end PatternMachine
