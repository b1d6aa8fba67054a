import PatternMachine.Proofs.Pattern.Wrapped

namespace PatternMachine

theorem Text.cursorsFrom_getLast? (s : Text) (c : Char) (offset : Nat) (flag : Bool) :
    (cursorsFrom offset flag (s ++ [c])).getLast? = some ⟨offset + size s, c, [], escaping flag s⟩ := by
  induction s generalizing offset flag with
  | nil => rfl
  | cons d rest ih =>
    rw [List.cons_append, cursorsFrom, List.getLast?_cons, ih, size_cons, Nat.add_assoc]
    rfl

namespace Pattern

-- An unescaped anchor that is not where its kind belongs: `^` at offset 0, `$` at the last byte.
def Misplaced (source : Text) (anchor : Char) (offset : Nat) : Prop :=
  Text.occursBareAt source offset [anchor] = true ∧
    (anchor = '^' ∧ offset ≠ 0 ∨ anchor = '$' ∧ offset + 1 ≠ Text.size source)

def lead (fixedStart : Bool) : Text := if fixedStart then ['^'] else []

def startOf (fixedStart : Bool) : Nat := if fixedStart then 1 else 0

theorem lead_escaping (fixedStart : Bool) (before : Text) :
    Text.endsEscaping (lead fixedStart ++ before) = Text.endsEscaping before := by
  have settled : Text.endsEscaping (lead fixedStart) = false := by cases fixedStart <;> rfl
  exact Text.endsEscaping_behind settled before

theorem lead_size (fixedStart : Bool) : Text.size (lead fixedStart) = startOf fixedStart := by
  cases fixedStart <;> decide

-- A source with its anchors taken off, and that no further anchor could be taken off either end.
structure Stripped (source : Text) (anchors : Anchors) (body : Text) : Prop where
  whole : source = wrap anchors body
  start : anchors.fixedStart = false → ∀ rest, body ≠ '^' :: rest
  last : anchors.fixedEnd = false → ∀ front, body = front ++ ['$'] → front.endsEscaping = true
  settled : anchors.fixedEnd = true → body.endsEscaping = false

theorem stripStart_cases (source : Text) :
    stripStart source = (true, source.tail) ∧ source = '^' :: source.tail ∨
      stripStart source = (false, source) ∧ ∀ rest, source ≠ '^' :: rest := by
  cases source with
  | nil => exact .inr ⟨rfl, fun _ same => List.cons_ne_nil _ _ same.symm⟩
  | cons c rest =>
    by_cases anchor : c = '^'
    · exact .inl ⟨if_pos anchor, congrArg (List.cons · rest) anchor⟩
    · exact .inr ⟨if_neg anchor, fun _ same => anchor (List.cons.inj same).1⟩

theorem stripEnd_cases (inner : Text) :
    (∃ body, stripEnd inner = (true, body) ∧ inner = body ++ ['$'] ∧ body.endsEscaping = false) ∨
      stripEnd inner = (false, inner) ∧ ∀ front, inner = front ++ ['$'] → front.endsEscaping = true := by
  rcases List.eq_nil_or_concat inner with rfl | ⟨body, c, rfl⟩
  · exact .inr ⟨rfl, fun front same => (List.append_ne_nil_of_right_ne_nil front (List.cons_ne_nil _ _) same.symm).elim⟩
  · rw [List.concat_eq_append]
    have last : (Text.cursors (body ++ [c])).getLast?.any (·.isBare '$') = (!Text.endsEscaping body && c == '$') := by
      rw [Text.cursors, Text.cursorsFrom_getLast?, Text.escaping_eq]
      rfl
    unfold stripEnd
    rw [last, List.dropLast_concat]
    by_cases bare : (!Text.endsEscaping body && c == '$') = true
    · obtain ⟨settled, anchor⟩ := Bool.and_eq_true _ _ ▸ bare
      rw [if_pos bare]
      exact .inl ⟨body, rfl, by rw [beq_iff_eq.mp anchor], by simpa using settled⟩
    · rw [if_neg bare]
      refine .inr ⟨rfl, fun front same => ?_⟩
      obtain ⟨rfl, rfl⟩ := List.append_singleton_inj.mp same
      simpa using bare

theorem strip_stripped (source : Text) :
    Stripped source ⟨(stripStart source).1, (stripEnd (stripStart source).2).1⟩ (stripEnd (stripStart source).2).2 := by
  rcases stripStart_cases source with ⟨front, anchored⟩ | ⟨front, open_start⟩
  · rw [front]
    rcases stripEnd_cases source.tail with ⟨body, back, split, settled⟩ | ⟨back, open_end⟩
    · rw [back]
      refine ⟨?_, fun free => (nomatch free), fun free => (nomatch free), fun _ => settled⟩
      rw [anchored, split]
      rfl
    · rw [back]
      refine ⟨?_, fun free => (nomatch free), fun _ => open_end, fun free => (nomatch free)⟩
      rw [anchored]
      simp [wrap]
  · rw [front]
    rcases stripEnd_cases source with ⟨body, back, split, settled⟩ | ⟨back, open_end⟩
    · rw [back]
      refine ⟨split, fun _ rest same => ?_, fun free => (nomatch free), fun _ => settled⟩
      have same : body = '^' :: rest := same
      exact open_start (rest ++ ['$']) (by rw [split, same]; rfl)
    · rw [back]
      exact ⟨by simp [wrap], fun _ => open_start, fun _ => open_end, fun free => (nomatch free)⟩

namespace Stripped

variable {source body : Text} {anchors : Anchors} {anchor : Char} {offset : Nat}

theorem source_eq (stripped : Stripped source anchors body) :
    source = lead anchors.fixedStart ++ (body ++ if anchors.fixedEnd then ['$'] else []) := stripped.whole

theorem misplaced_behind (stripped : Stripped source anchors body) {before after : Text}
    (split : source = before ++ anchor :: after)
    (placed : anchor = '^' ∧ Text.size before ≠ 0 ∨ anchor = '$' ∧ Text.size before + 1 ≠ Text.size source) :
    ∃ before', before = lead anchors.fixedStart ++ before' ∧
      (body ++ if anchors.fixedEnd then ['$'] else []) = before' ++ anchor :: after := by
  have whole := stripped.source_eq.symm.trans split
  cases fixed : anchors.fixedStart with
  | false =>
    rw [fixed] at whole
    exact ⟨before, rfl, whole⟩
  | true =>
    rw [fixed] at whole
    cases before with
    | nil =>
      obtain ⟨rfl, _⟩ := List.cons.inj whole
      rcases placed with ⟨_, beyond⟩ | ⟨other, _⟩
      · exact (beyond rfl).elim
      · cases other
    | cons c before =>
      obtain ⟨rfl, inner⟩ := List.cons.inj whole
      exact ⟨before, rfl, inner⟩

theorem misplaced_inside (stripped : Stripped source anchors body) {before after : Text}
    (split : source = before ++ anchor :: after)
    (placed : anchor = '^' ∧ Text.size before ≠ 0 ∨ anchor = '$' ∧ Text.size before + 1 ≠ Text.size source) :
    ∃ before' after', before = lead anchors.fixedStart ++ before' ∧ body = before' ++ anchor :: after' := by
  obtain ⟨before', rfl, inner⟩ := stripped.misplaced_behind split placed
  cases fixed : anchors.fixedEnd with
  | false =>
    rw [fixed, if_neg Bool.false_ne_true, List.append_nil] at inner
    exact ⟨before', after, rfl, inner⟩
  | true =>
    rw [fixed, if_pos rfl] at inner
    rcases List.eq_nil_or_concat after with rfl | ⟨after', d, rfl⟩
    · obtain ⟨_, last⟩ := List.append_inj' inner rfl
      cases last
      rcases placed with ⟨other, _⟩ | ⟨_, short⟩
      · cases other
      · have full : Text.size source = Text.size (lead anchors.fixedStart ++ before') + 1 := by
          rw [split, Text.size_append]
          rfl
        exact (short full.symm).elim
    · rw [List.concat_eq_append, ← List.cons_append, ← List.append_assoc] at inner
      exact ⟨before', after', rfl, (List.append_inj' inner rfl).1⟩

theorem placed_inside (stripped : Stripped source anchors body) {before after : Text} (split : body = before ++ anchor :: after)
    (settled : before.endsEscaping = false) :
    (anchor = '^' → startOf anchors.fixedStart + Text.size before ≠ 0) ∧
      (anchor = '$' → startOf anchors.fixedStart + Text.size before + 1 ≠ Text.size source) := by
  constructor
  · rintro rfl at_start
    cases fixed : anchors.fixedStart with
    | true => simp [fixed, startOf] at at_start
    | false =>
      have empty : before = [] := Text.size_eq_zero.mp (Nat.eq_zero_of_add_eq_zero at_start).2
      rw [empty] at split
      exact stripped.start fixed after split
  · rintro rfl at_end
    have full := congrArg Text.size stripped.source_eq
    have unit : ('$' : Char).utf8Size = 1 := rfl
    rw [Text.size_append, Text.size_append, lead_size, split, Text.size_append, Text.size_cons, unit] at full
    cases fixed : anchors.fixedEnd with
    | true =>
      have post : Text.size (if anchors.fixedEnd then ['$'] else []) = 1 := by rw [fixed]; rfl
      omega
    | false =>
      have none_left : Text.size after = 0 := by omega
      rw [Text.size_eq_zero.mp none_left] at split
      rw [stripped.last fixed before split] at settled
      cases settled

theorem misplaced_iff (stripped : Stripped source anchors body) : Misplaced source anchor offset ↔
    (anchor = '^' ∨ anchor = '$') ∧ ∃ before after, body = before ++ anchor :: after ∧
      startOf anchors.fixedStart + Text.size before = offset ∧ before.endsEscaping = false := by
  rw [Misplaced, Text.occursBareAt_iff]
  constructor
  · intro misplaced
    obtain ⟨⟨before, after, split, rfl, unescaped⟩, placed⟩ := misplaced
    obtain ⟨before', after', rfl, inside⟩ := stripped.misplaced_inside split placed
    rw [lead_escaping] at unescaped
    exact ⟨placed.imp And.left And.left, before', after', inside, by rw [Text.size_append, lead_size], unescaped⟩
  · intro left
    obtain ⟨kind, before, after, split, rfl, unescaped⟩ := left
    obtain ⟨off_start, off_end⟩ := stripped.placed_inside split unescaped
    refine ⟨⟨lead anchors.fixedStart ++ before, after ++ if anchors.fixedEnd then ['$'] else [], ?_, ?_, ?_⟩,
      kind.imp (fun same => ⟨same, off_start same⟩) fun same => ⟨same, off_end same⟩⟩
    · rw [stripped.source_eq, split]
      simp
    · rw [Text.size_append, lead_size]
    · rw [lead_escaping]
      exact unescaped

theorem misplaced_iff_cursor (stripped : Stripped source anchors body) : Misplaced source anchor offset ↔
    ∃ p ∈ body.cursors, (p.isBare '^' || p.isBare '$') = true ∧ p.char = anchor ∧
      startOf anchors.fixedStart + p.offset = offset := by
  rw [stripped.misplaced_iff]
  constructor
  · intro left
    obtain ⟨kind, before, after, split, place, unescaped⟩ := left
    refine ⟨⟨Text.size before, anchor, after, false⟩, Text.mem_cursors.mpr ⟨before, split, rfl, unescaped.symm⟩, ?_, rfl, place⟩
    rcases kind with rfl | rfl <;> rfl
  · intro visited
    obtain ⟨p, member, bare, rfl, place⟩ := visited
    obtain ⟨before, split, rest, escaped⟩ := Text.mem_cursors.mp member
    simp only [Cursor.isBare, Bool.or_eq_true, Bool.and_eq_true, Bool.not_eq_true', beq_iff_eq] at bare
    rw [rest] at place
    have unescaped : p.escaped = false := bare.elim And.left And.left
    exact ⟨bare.imp And.right And.right, before, p.after, split, place, escaped.symm.trans unescaped⟩

theorem misplaced?_cases (stripped : Stripped source anchors body) :
    (misplaced? (startOf anchors.fixedStart) body = none ∧ ∀ anchor offset, ¬ Misplaced source anchor offset) ∨
      ∃ anchor offset, misplaced? (startOf anchors.fixedStart) body = some (.misplacedAnchor anchor offset) ∧
        Misplaced source anchor offset ∧ ∀ other place, Misplaced source other place → offset ≤ place := by
  unfold misplaced?
  cases found : body.cursors.find? fun p => p.isBare '^' || p.isBare '$' with
  | none =>
    refine .inl ⟨rfl, fun anchor offset misplaced => ?_⟩
    obtain ⟨p, member, bare, _⟩ := stripped.misplaced_iff_cursor.mp misplaced
    exact List.find?_eq_none.mp found p member bare
  | some p =>
    obtain ⟨bare, earlier, later, split, silent⟩ := List.find?_eq_some_iff_append.mp found
    have member : p ∈ body.cursors := List.mem_of_find?_eq_some found
    refine .inr ⟨p.char, startOf anchors.fixedStart + p.offset, rfl,
      stripped.misplaced_iff_cursor.mpr ⟨p, member, bare, rfl, rfl⟩, fun other place misplaced => ?_⟩
    obtain ⟨q, listed, bare', _, rfl⟩ := stripped.misplaced_iff_cursor.mp misplaced
    have after := (Text.cursors_around split).2
    rw [split] at listed
    apply Nat.add_le_add_left
    rcases List.mem_append.mp listed with before | beyond
    · have quiet := silent q before
      rw [bare'] at quiet
      cases quiet
    · rcases List.mem_cons.mp beyond with rfl | behind
      · exact Nat.le_refl _
      · exact Nat.le_of_lt (after q behind)

theorem unanchored (stripped : Stripped source anchors body) (placed : ∀ anchor offset, ¬ Misplaced source anchor offset)
    (offset : Nat) : Text.occursBareAt body offset ['^'] = false ∧ Text.occursBareAt body offset ['$'] = false := by
  constructor
  · rw [Bool.eq_false_iff, ne_eq, Text.occursBareAt_iff]
    intro left
    obtain ⟨before, after, split, _, settled⟩ := left
    exact placed _ _ (stripped.misplaced_iff.mpr ⟨.inl rfl, before, after, split, rfl, settled⟩)
  · rw [Bool.eq_false_iff, ne_eq, Text.occursBareAt_iff]
    intro left
    obtain ⟨before, after, split, _, settled⟩ := left
    exact placed _ _ (stripped.misplaced_iff.mpr ⟨.inr rfl, before, after, split, rfl, settled⟩)

end Stripped

theorem parse_eq {source : Text} (balanced : groupFault? source = none) :
    parse source = match misplaced? (startOf (stripStart source).1) (stripEnd (stripStart source).2).2 with
      | some error => .error error
      | none => .ok ⟨source, (stripEnd (stripStart source).2).2, (stripStart source).1, (stripEnd (stripStart source).2).1⟩ := by
  unfold parse
  rw [balanced]
  rfl

theorem parse_cases {source : Text} (balanced : groupFault? source = none) :
    (∃ p, parse source = .ok p ∧ p.source = source ∧ Stripped source p.anchors p.body ∧
        ∀ anchor offset, ¬ Misplaced source anchor offset) ∨
      ∃ anchor offset, parse source = .error (.misplacedAnchor anchor offset) ∧ Misplaced source anchor offset ∧
        ∀ other place, Misplaced source other place → offset ≤ place := by
  have stripped := strip_stripped source
  rw [parse_eq balanced]
  rcases stripped.misplaced?_cases with ⟨none_left, placed⟩ | ⟨anchor, offset, first, misplaced, least⟩
  · rw [none_left]
    exact .inl ⟨_, rfl, rfl, stripped, placed⟩
  · rw [first]
    exact .inr ⟨anchor, offset, rfl, misplaced, least⟩

theorem parse_ok {source : Text} {p : Pattern} (parsed : parse source = .ok p) :
    groupFault? source = none ∧ p.source = source ∧ Stripped source p.anchors p.body ∧
      ∀ anchor offset, ¬ Misplaced source anchor offset := by
  cases fault : groupFault? source with
  | some fault =>
    unfold parse at parsed
    rw [fault] at parsed
    cases parsed
  | none =>
    rcases parse_cases fault with ⟨p', parsed', facts⟩ | ⟨_, _, refused, _⟩
    · cases parsed.symm.trans parsed'
      exact ⟨rfl, facts⟩
    · cases parsed.symm.trans refused

theorem placed_iff {source : Text} : (∀ anchor offset, ¬ Misplaced source anchor offset) ↔
    (∀ offset, Text.occursBareAt source offset ['^'] = true → offset = 0) ∧
      ∀ offset, Text.occursBareAt source offset ['$'] = true → offset + 1 = Text.size source := by
  constructor
  · intro placed
    constructor
    · intro offset bare
      by_contra beyond
      exact placed '^' offset ⟨bare, .inl ⟨rfl, beyond⟩⟩
    · intro offset bare
      by_contra short
      exact placed '$' offset ⟨bare, .inr ⟨rfl, short⟩⟩
  · rintro ⟨at_start, at_end⟩ anchor offset ⟨bare, ⟨rfl, beyond⟩ | ⟨rfl, short⟩⟩
    · exact beyond (at_start offset bare)
    · exact short (at_end offset bare)

theorem Plain.of_unanchored {body : Text} (balanced : groupFault? body = none)
    (unanchored : ∀ offset, Text.occursBareAt body offset ['^'] = false ∧ Text.occursBareAt body offset ['$'] = false) :
    Plain body := by
  refine ⟨balanced, fun p member => ⟨?_, ?_⟩⟩
  · rw [Bool.eq_false_iff]
    intro bare
    have occurs := Text.occursBareAt_iff_cursor.mpr ⟨p, member, bare, rfl⟩
    rw [(unanchored p.offset).1] at occurs
    cases occurs
  · rw [Bool.eq_false_iff]
    intro bare
    have occurs := Text.occursBareAt_iff_cursor.mpr ⟨p, member, bare, rfl⟩
    rw [(unanchored p.offset).2] at occurs
    cases occurs

-- A pattern is read exactly where its groups pair up and its anchors stand at its ends; otherwise the
-- fault of its groups is reported, and failing that the first anchor out of place. What is read is the
-- anchors and the body between them, and any body that can stand between anchors is read back.
theorem parse_placed (source : Text) :
    (∀ fault, groupFault? source = some fault → parse source = .error (.ofGroupFault fault)) ∧
    (groupFault? source = none → ∀ anchor offset, Misplaced source anchor offset →
      ∃ first least, parse source = .error (.misplacedAnchor first least) ∧ Misplaced source first least ∧
        ∀ other place, Misplaced source other place → least ≤ place) ∧
    ((∃ p, parse source = .ok p) ↔ groupFault? source = none ∧
      (∀ offset, Text.occursBareAt source offset ['^'] = true → offset = 0) ∧
      ∀ offset, Text.occursBareAt source offset ['$'] = true → offset + 1 = Text.size source) ∧
    (∀ p, parse source = .ok p → p.source = source ∧ source = wrap p.anchors p.body ∧
      ∀ offset, Text.occursBareAt p.body offset ['^'] = false ∧ Text.occursBareAt p.body offset ['$'] = false) ∧
    ∀ anchors body, source = wrap anchors body → groupFault? body = none →
      (∀ offset, Text.occursBareAt body offset ['^'] = false ∧ Text.occursBareAt body offset ['$'] = false) →
      (anchors.fixedEnd = true → Text.endsEscaping body = false) →
      parse source = .ok ⟨source, body, anchors⟩ := by
  refine ⟨fun fault faulty => ?_, fun balanced anchor offset misplaced => ?_, ⟨?_, ?_⟩, fun p parsed => ?_, ?_⟩
  · unfold parse
    rw [faulty]
  · rcases parse_cases balanced with ⟨_, _, _, _, placed⟩ | reported
    · exact (placed anchor offset misplaced).elim
    · exact reported
  · rintro ⟨p, parsed⟩
    obtain ⟨balanced, _, _, placed⟩ := parse_ok parsed
    exact ⟨balanced, placed_iff.mp placed⟩
  · rintro ⟨balanced, ends⟩
    rcases parse_cases balanced with ⟨p, parsed, _⟩ | ⟨anchor, offset, _, misplaced, _⟩
    · exact ⟨p, parsed⟩
    · exact (placed_iff.mpr ends anchor offset misplaced).elim
  · obtain ⟨_, source_eq, stripped, placed⟩ := parse_ok parsed
    exact ⟨source_eq, stripped.whole, stripped.unanchored placed⟩
  · rintro anchors body rfl balanced unanchored settled
    exact parse_wrap (.of_unanchored balanced unanchored) settled

-- `a$b^\$`, in which two anchors are out of place and the last one is escaped.
theorem parse_placed_twice :
    let source : Text := ['a', '$', 'b', '^', '\\', '$']
    groupFault? source = none ∧ Misplaced source '^' 3 ∧
      ∃ first least, parse source = .error (.misplacedAnchor first least) ∧ Misplaced source first least ∧
        ∀ other place, Misplaced source other place → least ≤ place := by
  intro source
  have balanced : groupFault? source = none := rfl
  have misplaced : Misplaced source '^' 3 := ⟨rfl, .inl ⟨rfl, by decide⟩⟩
  exact ⟨balanced, misplaced, (parse_placed source).2.1 balanced '^' 3 misplaced⟩

end Pattern
end PatternMachine
