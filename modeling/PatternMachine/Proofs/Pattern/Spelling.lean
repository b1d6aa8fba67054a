import PatternMachine.Proofs.Pattern.Group
import PatternMachine.Proofs.Pattern.Tree

namespace PatternMachine

namespace Item

mutual
-- `captures` are the indices of the groups around an item, outermost first. A closing that is
-- found in the table under the innermost index ends a capture, so only its own group may be.
def Spelled (table : CaptureTable) (captures : List Nat) : Item → List Token → Prop
  | .char c starred, tokens => tokens = [.literal c starred]
  | .group capture body starred, tokens =>
    ∃ opening closing inner,
      tokens = .opening opening starred :: (inner ++ [.closing closing starred]) ∧
      table.indexOf? opening = capture ∧
      ((captures ++ capture.toList).getLast?.any fun index => table.closesAt index closing) = capture.isSome ∧
      (∀ index ∈ capture, index ∉ captures) ∧
      SpelledAny table (captures ++ capture.toList) body inner
def SpelledAll (table : CaptureTable) (captures : List Nat) : List Item → List Token → Prop
  | [], tokens => tokens = []
  | item :: items, tokens =>
    ∃ front back, tokens = front ++ back ∧ item.Spelled table captures front ∧ SpelledAll table captures items back
def SpelledAny (table : CaptureTable) (captures : List Nat) : List (List Item) → List Token → Prop
  | [], _ => False
  | [branch], tokens => SpelledAll table captures branch tokens
  | branch :: next :: body, tokens =>
    ∃ front back, tokens = front ++ .bar :: back ∧ SpelledAll table captures branch front ∧
      SpelledAny table captures (next :: body) back
end

variable {table : CaptureTable} {captures : List Nat}

theorem SpelledAll.append {items : List Item} {item : Item} {front back : List Token}
    (before : SpelledAll table captures items front) (last : item.Spelled table captures back) :
    SpelledAll table captures (items ++ [item]) (front ++ back) := by
  induction items generalizing front with
  | nil =>
    cases before
    exact ⟨back, [], by simp, last, rfl⟩
  | cons first items ih =>
    obtain ⟨head, tail, rfl, spelled, rest⟩ := before
    exact ⟨head, tail ++ back, by simp, spelled, ih rest⟩

theorem SpelledAny.append {closed : List (List Item)} {items : List Item} {item : Item} {front back : List Token}
    (before : SpelledAny table captures (closed ++ [items]) front) (last : item.Spelled table captures back) :
    SpelledAny table captures (closed ++ [items ++ [item]]) (front ++ back) := by
  induction closed generalizing front with
  | nil => exact SpelledAll.append before last
  | cons branch closed ih =>
    cases closed with
    | nil =>
      obtain ⟨head, tail, rfl, spelled, rest⟩ := before
      exact ⟨head, tail ++ back, by simp, spelled, ih rest⟩
    | cons next closed =>
      obtain ⟨head, tail, rfl, spelled, rest⟩ := before
      exact ⟨head, tail ++ back, by simp, spelled, ih rest⟩

theorem SpelledAny.bar {closed : List (List Item)} {items : List Item} {tokens : List Token}
    (before : SpelledAny table captures (closed ++ [items]) tokens) :
    SpelledAny table captures (closed ++ [items, []]) (tokens ++ [.bar]) := by
  induction closed generalizing tokens with
  | nil => exact ⟨tokens, [], rfl, before, rfl⟩
  | cons branch closed ih =>
    cases closed with
    | nil =>
      obtain ⟨head, tail, rfl, spelled, rest⟩ := before
      exact ⟨head, tail ++ [Token.bar], by simp, spelled, ih rest⟩
    | cons next closed =>
      obtain ⟨head, tail, rfl, spelled, rest⟩ := before
      exact ⟨head, tail ++ [Token.bar], by simp, spelled, ih rest⟩

end Item

inductive Around (table : CaptureTable) : List Opened → List Cursor → List Nat → List Token → Prop where
  | outermost : Around table [] [] [] []
  | inside {level : Opened} {close : Cursor} {opening : Nat} : Around table outer closers captures before →
      Item.SpelledAny table captures (level.closed ++ [level.items]) tokens →
      table.indexOf? opening = level.capture →
      (∀ index ∈ level.capture, index ∉ captures ∧ table[index]? = some (opening, close.offset)) →
      Around table (level :: outer) (close :: closers) (captures ++ level.capture.toList)
        (before ++ (tokens ++ [.opening opening (Token.startsStar close.after)]))

theorem Around.capture_closer (around : Around table outer closers captures before) (member : index ∈ captures) :
    ∃ close ∈ closers, ∃ opening, table[index]? = some (opening, close.offset) := by
  induction around with
  | outermost => cases member
  | @inside outer closers captures before tokens level close opening _ _ _ own ih =>
    rcases List.mem_append.mp member with outside | here
    · obtain ⟨close', present, entry⟩ := ih outside
      exact ⟨close', List.mem_cons_of_mem _ present, entry⟩
    · exact ⟨close, List.mem_cons_self, opening, (own index (Option.mem_toList.mp here)).2⟩

theorem Token.startsStar_eq_false {after : Text} (unstarred : ∀ rest, after = '*' :: rest → False) :
    Token.startsStar after = false := by
  cases after with
  | nil => rfl
  | cons c rest =>
    have apart : c ≠ '*' := fun same => unstarred rest (by rw [same])
    simp [Token.startsStar, apart]

theorem CaptureTable.plainMark_eq_false {after : Text} (unmarked : ∀ rest, after = '?' :: ':' :: rest → False) :
    CaptureTable.plainMark.isPrefixOf after = false := by
  rw [Bool.eq_false_iff]
  intro marked
  obtain ⟨rest, whole⟩ := List.isPrefixOf_iff_prefix.mp marked
  exact unmarked rest whole.symm

inductive Reading (table : CaptureTable) : Reader → List Token → List Cursor → Prop where
  | at {r : Reader} : Around table r.outer closers captures before →
      Item.SpelledAny table captures (r.closed ++ [r.items]) tokens → (∀ index ∈ captures, index < r.captures) →
      Ahead table closers r.captures cursors → Reading table r (before ++ tokens) cursors

namespace Reading

variable {table : CaptureTable} {r : Reader} {done : List Token}

theorem pass (reading : Reading table r done (p :: rest)) (silent : p.opens = false) (silent' : p.closes = false) :
    Reading table r done rest := by
  cases reading with
  | «at» around spelled bound ahead => exact .at around spelled bound (ahead.pass silent silent')

theorem literal (reading : Reading table r done cursors) (c : Char) (starred : Bool) :
    Reading table (r.item (.char c starred)) (done ++ [.literal c starred]) cursors := by
  cases reading with
  | @«at» closers captures before tokens _ _ around spelled bound ahead =>
    have last : (Item.char c starred).Spelled table captures [.literal c starred] := rfl
    rw [List.append_assoc]
    exact .at around (spelled.append last) bound ahead

theorem bar (reading : Reading table r done cursors) : Reading table r.bar (done ++ [.bar]) cursors := by
  cases reading with
  | «at» around spelled bound ahead =>
    have branched := Item.SpelledAny.bar spelled
    rw [List.append_assoc]
    refine .at around ?_ bound ahead
    simpa [Reader.bar] using branched

theorem opening (reading : Reading table r done (p :: rest)) (opens : p.opens = true) (capturing : Bool)
    (marked : CaptureTable.plainMark.isPrefixOf p.after = !capturing) :
    Reading table (r.opening capturing) (done ++ [.opening p.offset (Token.loops rest)]) rest := by
  cases reading with
  | @«at» closers captures before tokens _ _ around spelled bound ahead =>
    obtain ⟨close, starred, inner, index, entry⟩ := ahead.opening opens marked
    rw [starred, List.append_assoc]
    cases capturing with
    | false =>
      have entered : Around table (⟨r.closed, r.items, none⟩ :: r.outer) (close :: closers) _ _ :=
        .inside around spelled index (by simp)
      have reading := Reading.at (r := r.opening false) entered rfl (by simpa [Reader.opening] using bound) inner
      simpa using reading
    | true =>
      have fresh : ∀ index ∈ some r.captures, index ∉ captures ∧ table[index]? = some (p.offset, close.offset) := by
        intro index same
        cases same
        refine ⟨fun held => ?_, entry rfl⟩
        have less := bound _ held
        omega
      have entered : Around table (⟨r.closed, r.items, some r.captures⟩ :: r.outer) (close :: closers) _ _ :=
        .inside around spelled index fresh
      have bound' : ∀ index ∈ captures ++ [r.captures], index < r.captures + 1 := by
        intro index member
        rcases List.mem_append.mp member with old | new
        · exact Nat.lt_succ_of_lt (bound index old)
        · cases List.mem_singleton.mp new
          exact Nat.lt_succ_self _
      have reading := Reading.at (r := r.opening true) entered rfl bound' inner
      simpa using reading

theorem closing (reading : Reading table r done (p :: rest)) (closes : p.closes = true) :
    ∃ next, r.closing (Token.startsStar p.after) = some next ∧
      Reading table next (done ++ [.closing p.offset (Token.startsStar p.after)]) rest := by
  cases reading with
  | @«at» closers captures before tokens _ _ around spelled bound ahead =>
    obtain ⟨outer, rfl, later, beyond⟩ := ahead.closing closes
    generalize levels : r.outer = opened at around
    cases around with
    | @inside outer' _ captures before tokens' level _ opening around' spelled' index own =>
      refine ⟨⟨outer', level.closed, level.items ++ [.group level.capture (r.closed ++ [r.items])
        (Token.startsStar p.after)], r.captures⟩, by simp [Reader.closing, levels], ?_⟩
      have ends : ((captures ++ level.capture.toList).getLast?.any fun index => table.closesAt index p.offset) =
          level.capture.isSome := by
        cases capture : level.capture with
        | some inner =>
          have entry := (own inner capture).2
          simp [CaptureTable.closesAt, entry]
        | none =>
          simp only [Option.toList_none, List.append_nil, Option.isSome_none]
          rw [Option.any_eq_false]
          intro index last
          obtain ⟨close, present, opening, entry⟩ := around'.capture_closer (List.mem_of_getLast? last)
          have after := beyond close present
          simp [CaptureTable.closesAt, entry]
          omega
      have spelt : (Item.group level.capture (r.closed ++ [r.items]) (Token.startsStar p.after)).Spelled table captures
          (.opening opening (Token.startsStar p.after) :: (tokens ++ [.closing p.offset (Token.startsStar p.after)])) :=
        ⟨opening, p.offset, tokens, rfl, index, ends, fun index held => (own index held).1, spelled⟩
      have closed := Reading.at (r := ⟨outer', level.closed, level.items ++ [_], r.captures⟩) around'
        (Item.SpelledAny.append spelled' spelt)
        (fun index held => bound index (List.mem_append_left _ held)) later
      simpa using closed

theorem finish (reading : Reading table r done []) :
    ∃ tree, r.finish = some tree ∧ Item.SpelledAny table [] tree.body done ∧ tree.captures = table.length := by
  cases reading with
  | @«at» closers captures before tokens _ _ around spelled bound ahead =>
    obtain ⟨opened, depth, balanced⟩ := ahead.balanced
    obtain ⟨front, split, count, _⟩ := ahead.listed
    generalize levels : r.outer = outer at around
    cases around with
    | outermost =>
      refine ⟨⟨r.closed ++ [r.items], r.captures⟩, by simp [Reader.finish, levels], spelled, ?_⟩
      simp [split, ← count, CaptureTable.ofCursors]
    | inside _ _ _ _ =>
      cases opened with
      | nil => simp at depth
      | cons _ _ => simp [groupFaultFrom] at balanced

theorem read {text : Text} {offset : Nat} (reading : Reading table r done (Text.cursorsFrom offset false text)) :
    ∃ tree, r.read text = some tree ∧
      Item.SpelledAny table [] tree.body (done ++ Token.ofCursors 0 (Text.cursorsFrom offset false text)) ∧
      tree.captures = table.length := by
  fun_induction Reader.read r text generalizing done offset with
  | case1 r =>
    simpa [Text.cursorsFrom, Token.ofCursors] using reading.finish
  | case2 r =>
    have passed := reading.pass rfl rfl
    simpa [Text.cursorsFrom, Token.ofCursors, Cursor.isBare, Cursor.opens, Cursor.closes] using passed.finish
  | case3 r c rest ih =>
    simp only [Text.cursorsFrom, beq_self_eq_true, Bool.not_false, Bool.and_self, Bool.not_true, Bool.and_false] at reading
    have passed := ((reading.pass rfl rfl).pass rfl rfl).pass rfl rfl
    have read := ih (passed.literal c true)
    simpa [Text.cursorsFrom, Token.ofCursors, Cursor.isBare, Cursor.opens, Cursor.closes, Token.startsStar,
      Token.starWidth] using read
  | case4 r c rest unstarred ih =>
    simp only [Text.cursorsFrom, beq_self_eq_true, Bool.not_false, Bool.and_self, Bool.not_true, Bool.and_false] at reading
    have passed := (reading.pass rfl rfl).pass rfl rfl
    have plain : Token.startsStar rest = false := Token.startsStar_eq_false unstarred
    have read := ih (passed.literal c false)
    simpa [Text.cursorsFrom, Token.ofCursors, Cursor.isBare, Cursor.opens, Cursor.closes, plain,
      Token.starWidth] using read
  | case5 r rest ih =>
    have read := ih (reading.bar.pass rfl rfl)
    simpa [Text.cursorsFrom, Token.ofCursors, Cursor.isBare] using read
  | case6 r rest ih =>
    have entered := reading.opening rfl false rfl
    have read := ih ((entered.pass rfl rfl).pass rfl rfl)
    simpa [Text.cursorsFrom, Token.ofCursors, Cursor.isBare, Cursor.opens, Token.markWidth,
      CaptureTable.plainMark] using read
  | case7 r rest unmarked ih =>
    have marked : CaptureTable.plainMark.isPrefixOf rest = false := CaptureTable.plainMark_eq_false unmarked
    have entered := reading.opening rfl true marked
    have read := ih entered
    simpa [Text.cursorsFrom, Token.ofCursors, Cursor.isBare, Cursor.opens, Token.markWidth, marked] using read
  | case8 r rest ih =>
    obtain ⟨next, closed, after⟩ := reading.closing rfl
    have read := ih next (after.pass rfl rfl)
    have same : r.closing true = some next := closed
    rw [same, Option.bind_some]
    simpa [Text.cursorsFrom, Token.ofCursors, Cursor.isBare, Cursor.opens, Cursor.closes, Token.startsStar,
      Token.starWidth] using read
  | case9 r rest unstarred ih =>
    have plain : Token.startsStar rest = false := Token.startsStar_eq_false unstarred
    obtain ⟨next, closed, after⟩ := reading.closing rfl
    have read := ih next after
    have same : r.closing false = some next := plain ▸ closed
    rw [same, Option.bind_some]
    simpa [Text.cursorsFrom, Token.ofCursors, Cursor.isBare, Cursor.opens, Cursor.closes, plain,
      Token.starWidth] using read
  | case10 r c rest _ escape bar opening closing ih =>
    have bare : (c == '\\') = false := beq_eq_false_iff_ne.mpr escape
    have between : (c == '|') = false := beq_eq_false_iff_ne.mpr bar
    have silent : (c == '(') = false := beq_eq_false_iff_ne.mpr opening
    have silent' : (c == ')') = false := beq_eq_false_iff_ne.mpr closing
    simp only [Text.cursorsFrom, bare, Bool.false_and] at reading ⊢
    have passed := (reading.pass (by simp [Cursor.opens, Cursor.isBare, silent])
      (by simp [Cursor.closes, Cursor.isBare, silent'])).pass rfl rfl
    have read := ih (passed.literal c true)
    simpa [Token.ofCursors, Cursor.isBare, Cursor.opens, Cursor.closes, Token.startsStar, Token.starWidth, bare,
      between, silent, silent'] using read
  | case11 r c rest lone _ escape bar _ opening _ closing unstarred ih =>
    have bare : (c == '\\') = false := by
      apply beq_eq_false_iff_ne.mpr
      intro same
      subst same
      cases rest with
      | nil => exact lone rfl rfl
      | cons d rest => exact escape d rest rfl rfl
    have between : (c == '|') = false := beq_eq_false_iff_ne.mpr bar
    have silent : (c == '(') = false := beq_eq_false_iff_ne.mpr opening
    have silent' : (c == ')') = false := beq_eq_false_iff_ne.mpr closing
    have plain : Token.startsStar rest = false := Token.startsStar_eq_false unstarred
    simp only [Text.cursorsFrom, bare, Bool.false_and] at reading ⊢
    have passed := reading.pass (by simp [Cursor.opens, Cursor.isBare, silent])
      (by simp [Cursor.closes, Cursor.isBare, silent'])
    have read := ih (passed.literal c false)
    simpa [Token.ofCursors, Cursor.isBare, Cursor.opens, Cursor.closes, plain, Token.starWidth, bare, between,
      silent, silent'] using read

end Reading

-- A body in which every group is closed has a tree, and its tokens spell that tree.
theorem Tree.read_spelled {body : Text} (balanced : groupFault? body = none) :
    ∃ tree, Tree.read body = some tree ∧
      Item.SpelledAny (CaptureTable.ofText body) [] tree.body (Token.ofText body) ∧
      tree.captures = (CaptureTable.ofText body).length := by
  have ahead : Ahead (CaptureTable.ofText body) [] 0 body.cursors := Ahead.of_balanced balanced
  have spelled : Item.SpelledAny (CaptureTable.ofText body) [] (Reader.initial.closed ++ [Reader.initial.items]) [] := rfl
  have start : Reading (CaptureTable.ofText body) Reader.initial ([] ++ []) (Text.cursorsFrom 0 false body) :=
    .at .outermost spelled (by simp) ahead
  exact start.read

end PatternMachine
