import PatternMachine.Proofs.Pattern.Balance
import PatternMachine.Proofs.Pattern.Enclosing

namespace PatternMachine

open Text

-- A reading that has come as far as `cursors` with the groups at `opened` open, the innermost first. Of the groups
-- opened before, those are the ones whose end is still to come.
structure Nesting (s : Text) (opened : List Nat) (cursors : List Cursor) : Prop where
  front : ∃ front, s.cursors = front ++ cursors ∧
    ∀ p ∈ front, p.opens = true → p.offset ∈ opened ∨ ∃ closing, groupEnd? s p.offset = some closing
  ends : ∀ depth (inside : depth < opened.length), groupEnd? s opened[depth] = (closing? depth cursors).map (·.offset)
  opens : ∀ opening ∈ opened, occursBareAt s opening ['('] = true
  inward : opened.Pairwise (· > ·)
  before : ∀ opening ∈ opened, ∀ p ∈ cursors, opening < p.offset

namespace Nesting

variable {s : Text} {opened : List Nat} {inner : Nat} {cursors rest : List Cursor} {p : Cursor}

theorem start (s : Text) : Nesting s [] s.cursors where
  front := ⟨[], rfl, fun _ none => nomatch none⟩
  ends _ inside := nomatch inside
  opens _ none := nomatch none
  inward := List.Pairwise.nil
  before _ none := nomatch none

theorem pass (nesting : Nesting s opened (p :: rest)) (silent : p.opens = false) (silent' : p.closes = false) :
    Nesting s opened rest := by
  obtain ⟨front, split, closed⟩ := nesting.front
  refine ⟨⟨front ++ [p], by simp [split], fun q member opens => ?_⟩, fun depth inside => ?_, nesting.opens, nesting.inward,
    fun opening member q later => nesting.before opening member q (List.mem_cons_of_mem _ later)⟩
  · rcases List.mem_append.mp member with earlier | here
    · exact closed q earlier opens
    · cases List.mem_singleton.mp here
      cases silent.symm.trans opens
  · simpa [closing?, silent, silent'] using nesting.ends depth inside

theorem opening (nesting : Nesting s opened (p :: rest)) (here : p.opens = true) : Nesting s (p.offset :: opened) rest := by
  obtain ⟨front, split, closed⟩ := nesting.front
  have after := (cursors_around split).2
  refine ⟨⟨front ++ [p], by simp [split], fun q member opens => ?_⟩, fun depth inside => ?_, ?_, ?_, ?_⟩
  · rcases List.mem_append.mp member with earlier | last
    · exact (closed q earlier opens).imp_left (List.mem_cons_of_mem _)
    · cases List.mem_singleton.mp last
      exact .inl List.mem_cons_self
  · cases depth with
    | zero => exact groupEnd?_at split here
    | succ depth => simpa [closing?, here] using nesting.ends depth (Nat.lt_of_succ_lt_succ inside)
  · have bare : occursBareAt s p.offset ['('] = true := occursBareAt_iff_cursor.mpr ⟨p, by simp [split], here, rfl⟩
    exact List.forall_mem_cons.mpr ⟨bare, nesting.opens⟩
  · exact List.Pairwise.cons (fun outer member => nesting.before outer member p List.mem_cons_self) nesting.inward
  · exact List.forall_mem_cons.mpr
      ⟨after, fun outer member q later => nesting.before outer member q (List.mem_cons_of_mem _ later)⟩

theorem closing {outer : List Nat} (nesting : Nesting s (inner :: outer) (p :: rest)) (here : p.closes = true) :
    groupEnd? s inner = some p.offset ∧ Nesting s outer rest := by
  have silent := Cursor.closes_silent here
  have ended : groupEnd? s inner = some p.offset := by
    simpa [closing?, silent, here] using nesting.ends 0 (Nat.zero_lt_succ _)
  obtain ⟨front, split, closed⟩ := nesting.front
  refine ⟨ended, ⟨front ++ [p], by simp [split], fun q member opens => ?_⟩, fun depth inside => ?_,
    fun other member => nesting.opens other (List.mem_cons_of_mem _ member), nesting.inward.of_cons,
    fun other member q later => nesting.before other (List.mem_cons_of_mem _ member) q (List.mem_cons_of_mem _ later)⟩
  · rcases List.mem_append.mp member with earlier | last
    · rcases closed q earlier opens with within | away
      · rcases List.mem_cons.mp within with same | outside
        · exact .inr ⟨p.offset, same ▸ ended⟩
        · exact .inl outside
      · exact .inr away
    · cases List.mem_singleton.mp last
      cases silent.symm.trans opens
  · simpa [closing?, silent, here] using nesting.ends (depth + 1) (Nat.succ_lt_succ inside)

-- Where nothing closes more than is open, the reading comes to the end. Then every closing has ended a group, and the
-- outermost of the groups left open is the one at fault.
theorem read (nesting : Nesting s opened cursors) (within : ¬Cursor.Overclosed opened.length cursors) :
    ∃ left, Nesting s left [] ∧ groupFaultFrom opened cursors = left.getLast?.map .unclosed ∧
      ∀ p ∈ cursors, p.closes = true → ∃ opening, groupEnd? s opening = some p.offset := by
  induction cursors generalizing opened with
  | nil => exact ⟨opened, nesting, rfl, fun _ none => nomatch none⟩
  | cons p rest ih =>
    unfold groupFaultFrom
    cases opens : p.opens with
    | true =>
      rw [Cursor.overclosed_opening opens] at within
      obtain ⟨left, finished, fault, ended⟩ := ih (nesting.opening opens) within
      refine ⟨left, finished, fault, List.forall_mem_cons.mpr ⟨fun closes => ?_, ended⟩⟩
      cases (Cursor.closes_silent closes).symm.trans opens
    | false =>
      cases closes : p.closes with
      | true =>
        cases opened with
        | nil => exact (within (Cursor.overclosed_outermost closes)).elim
        | cons inner outer =>
          rw [List.length_cons, Cursor.overclosed_closing closes] at within
          obtain ⟨here, nesting⟩ := nesting.closing closes
          obtain ⟨left, finished, fault, ended⟩ := ih nesting within
          exact ⟨left, finished, fault, List.forall_mem_cons.mpr ⟨fun _ => ⟨inner, here⟩, ended⟩⟩
      | false =>
        rw [Cursor.overclosed_silent opens closes] at within
        obtain ⟨left, finished, fault, ended⟩ := ih (nesting.pass opens closes) within
        refine ⟨left, finished, fault, List.forall_mem_cons.mpr ⟨fun closing => ?_, ended⟩⟩
        cases closes.symm.trans closing

theorem unended (nesting : Nesting s opened []) (member : inner ∈ opened) : groupEnd? s inner = none := by
  obtain ⟨depth, inside, rfl⟩ := List.mem_iff_getElem.mp member
  exact nesting.ends depth inside

theorem ended (nesting : Nesting s opened []) (bare : occursBareAt s inner ['('] = true) :
    inner ∈ opened ∨ ∃ closing, groupEnd? s inner = some closing := by
  obtain ⟨front, split, closed⟩ := nesting.front
  obtain ⟨p, member, opens, rfl⟩ := occursBareAt_iff_cursor.mp bare
  rw [split, List.append_nil] at member
  exact closed p member opens

end Nesting

section

variable {s : Text} {opening closing first last first' last' : Nat}

theorem groupEnd?_inside (found : groupEnd? s first = some last) (found' : groupEnd? s first' = some last')
    (before : first < first') (inside : first' < last) : last' < last := by
  obtain ⟨front, p, inner, q, later, split, rfl, rfl, _, _, balanced⟩ := encloses_iff.mp (groupEnd?_eq_some.mp found)
  obtain ⟨p', present, opens, rfl⟩ := occursBareAt_iff_cursor.mp (groupEnd?_eq_some.mp found').opens
  have member : p' ∈ inner := by
    rw [← between_eq split]
    exact List.mem_filter.mpr ⟨present, by simp [before, inside]⟩
  obtain ⟨above, below, rfl⟩ := List.append_of_mem member
  -- The rest of the group closes more than it opens, so the walk from the inner opening ends there.
  obtain ⟨q', walked⟩ : ∃ q', closing? 0 below = some q' := by
    cases walked : closing? 0 below with
    | some q' => exact ⟨q', rfl⟩
    | none => exact (closing?_eq_none.mp walked (balanced.overclosed_after opens)).elim
  have resplit : s.cursors = (front ++ p :: above) ++ p' :: (below ++ q :: later) := by simp [split]
  rw [groupEnd?_at resplit opens, closing?_append walked] at found'
  obtain rfl := Option.some.inj found'
  have outside : s.cursors = (front ++ p :: (above ++ p' :: below)) ++ q :: later := by simp [split]
  exact (cursors_around outside).1 q' (by simp [closing?_mem walked])

theorem groupEnd?_after (found : groupEnd? s opening = some closing) : opening < closing :=
  (groupEnd?_eq_some.mp found).before

theorem groupEnd?_apart (found : groupEnd? s first = some last) (found' : groupEnd? s first' = some last') : first' ≠ last := by
  rintro rfl
  obtain ⟨p, member, opens, here⟩ := occursBareAt_iff_cursor.mp (groupEnd?_eq_some.mp found').opens
  obtain ⟨q, member', closes, there⟩ := occursBareAt_iff_cursor.mp (groupEnd?_eq_some.mp found).closes
  obtain rfl := cursors_at member member' (here.trans there.symm)
  exact Bool.false_ne_true ((Cursor.opens_silent opens).symm.trans closes)

theorem groupEnd?_nested (found : groupEnd? s first = some last) (found' : groupEnd? s first' = some last')
    (before : first < first') : last' < last ∨ last < first' := by
  rcases Nat.lt_or_ge first' last with inside | beyond
  · exact .inl (groupEnd?_inside found found' before inside)
  · exact .inr (Nat.lt_of_le_of_ne beyond (groupEnd?_apart found found').symm)

theorem groupEnd?_injective (found : groupEnd? s first = some last) (found' : groupEnd? s first' = some last) :
    first = first' := by
  rcases Nat.lt_trichotomy first first' with before | same | after
  · have close := groupEnd?_after found'
    rcases groupEnd?_nested found found' before with within | apart <;> omega
  · exact same
  · have close := groupEnd?_after found
    rcases groupEnd?_nested found' found after with within | apart <;> omega

theorem groupFaultFrom_eq_none {opened : List Nat} {cursors : List Cursor} :
    groupFaultFrom opened cursors = none ↔ Cursor.Balanced opened.length cursors := by
  induction cursors generalizing opened with
  | nil => cases opened <;> simp [groupFaultFrom, Cursor.balanced_nil]
  | cons p rest ih =>
    unfold groupFaultFrom
    cases opens : p.opens with
    | true => simp [Cursor.balanced_opening opens, ih]
    | false =>
      cases closes : p.closes with
      | true =>
        cases opened with
        | nil => simp [Cursor.not_balanced_outermost closes]
        | cons _ outer => simp [Cursor.balanced_closing closes, ih]
      | false => simp [Cursor.balanced_silent opens closes, ih]

theorem groupEnd?_total (balanced : groupFault? s = none) :
    (∀ opening, occursBareAt s opening ['('] = true → ∃! closing, groupEnd? s opening = some closing) ∧
      ∀ closing, occursBareAt s closing [')'] = true → ∃! opening, groupEnd? s opening = some closing := by
  obtain ⟨left, finished, fault, ended⟩ := (Nesting.start s).read (groupFaultFrom_eq_none.mp balanced).1
  have closed : left = [] := by
    cases shown : left.getLast? with
    | none => exact List.getLast?_eq_none_iff.mp shown
    | some outermost =>
      rw [shown] at fault
      cases fault.symm.trans balanced
  subst closed
  constructor
  · intro opening bare
    obtain ⟨closing, found⟩ := (finished.ended bare).resolve_left (List.not_mem_nil)
    exact ⟨closing, found, fun other found' => Option.some.inj (found'.symm.trans found)⟩
  · intro closing bare
    obtain ⟨p, member, closes, rfl⟩ := occursBareAt_iff_cursor.mp bare
    obtain ⟨opening, found⟩ := ended p member closes
    exact ⟨opening, found, fun other found' => groupEnd?_injective found' found⟩

end

namespace CaptureTable

theorem mem_ofCursors {cursors : List Cursor} {opening closing : Nat} : (opening, closing) ∈ ofCursors cursors ↔
    ∃ front p later close, cursors = front ++ p :: later ∧ p.opensCapture = true ∧ p.offset = opening ∧
      closing? 0 later = some close ∧ close.offset = closing := by
  induction cursors with
  | nil => simp [ofCursors]
  | cons p rest ih =>
    -- The entry of the first character, if it has one, or an entry of the rest.
    have cases_front : (∃ front q later close, p :: rest = front ++ q :: later ∧ q.opensCapture = true ∧ q.offset = opening ∧
          closing? 0 later = some close ∧ close.offset = closing) ↔
        (p.opensCapture = true ∧ p.offset = opening ∧ ∃ close, closing? 0 rest = some close ∧ close.offset = closing) ∨
          (opening, closing) ∈ ofCursors rest := by
      rw [ih]
      constructor
      · rintro ⟨front, q, later, close, split, captures, here, walked, there⟩
        cases front with
        | nil =>
          obtain ⟨rfl, rfl⟩ := List.cons.inj split
          exact .inl ⟨captures, here, close, walked, there⟩
        | cons _ front => exact .inr ⟨front, q, later, close, (List.cons.inj split).2, captures, here, walked, there⟩
      · rintro (⟨captures, here, close, walked, there⟩ | ⟨front, q, later, close, rfl, captures, here, walked, there⟩)
        · exact ⟨[], p, rest, close, rfl, captures, here, walked, there⟩
        · exact ⟨p :: front, q, later, close, rfl, captures, here, walked, there⟩
    unfold ofCursors
    rw [cases_front]
    cases captures : p.opensCapture with
    | false =>
      have passed : ¬(p.opens && !plainMark.isPrefixOf p.after) = true := fun marked => Bool.false_ne_true (captures.symm.trans marked)
      rw [if_neg passed]
      simp
    | true =>
      have marked : (p.opens && !plainMark.isPrefixOf p.after) = true := captures
      rw [if_pos marked]
      cases walked : closing? 0 rest with
      | none => simp
      | some close => simp [eq_comm]

theorem occursAt_mark {s : Text} {front later : List Cursor} {p : Cursor} (split : s.cursors = front ++ p :: later)
    (opens : p.opens = true) : occursAt s (p.offset + 1) plainMark = plainMark.isPrefixOf p.after := by
  obtain ⟨before, whole, place, _⟩ := mem_cursors.mp (show p ∈ s.cursors by simp [split])
  have paren : p.char = '(' := beq_iff_eq.mp (Bool.and_eq_true _ _ ▸ opens).2
  have onward : from? s (p.offset + 1) = some p.after :=
    from?_eq_some.mpr ⟨before ++ ['('], by simp [whole, paren], by rw [size_append, place]; rfl⟩
  rw [occursAt, onward]
  rfl

theorem mem_ofText {s : Text} {opening closing : Nat} : (opening, closing) ∈ ofText s ↔
    groupEnd? s opening = some closing ∧ occursAt s (opening + 1) plainMark = false := by
  rw [ofText, mem_ofCursors]
  constructor
  · rintro ⟨front, p, later, close, split, captures, rfl, walked, rfl⟩
    obtain ⟨opens, unmarked⟩ := Bool.and_eq_true _ _ ▸ captures
    rw [groupEnd?_at split opens, walked, occursAt_mark split opens]
    exact ⟨rfl, by simpa using unmarked⟩
  · rintro ⟨found, unmarked⟩
    obtain ⟨front, p, later, split, rfl, opens⟩ := groupEnd?_opens found
    rw [occursAt_mark split opens] at unmarked
    rw [groupEnd?_at split opens] at found
    obtain ⟨close, walked, there⟩ := Option.map_eq_some_iff.mp found
    exact ⟨front, p, later, close, split, by simp [Cursor.opensCapture, opens, unmarked], rfl, walked, there⟩

end CaptureTable

-- The end of a group is the one closing up to which all is balanced, and there is none where no closing is so; a depth
-- counted on the way to it never falls below zero. Groups share no closing and are nested or apart. In a text whose
-- groups pair up they pair all openings and closings, and in any text the table lists those that capture.
theorem groups_paired (s : Text) :
    (∀ opening closing, groupEnd? s opening = some closing ↔
      s.Encloses opening closing ∧ ∀ other, s.Encloses opening other → other = closing) ∧
    (∀ opening, groupEnd? s opening = none ↔ ∀ closing, ¬s.Encloses opening closing) ∧
    (∀ opening, s.countedEnd? opening = .ok (groupEnd? s opening)) ∧
    (∀ first last first' last', groupEnd? s first = some last → groupEnd? s first' = some last' → first < first' →
      last ≠ last' ∧ (last' < last ∨ last < first')) ∧
    (groupFault? s = none →
      (∀ opening, occursBareAt s opening ['('] = true → ∃! closing, groupEnd? s opening = some closing) ∧
      ∀ closing, occursBareAt s closing [')'] = true → ∃! opening, groupEnd? s opening = some closing) ∧
    (∀ opening closing, (opening, closing) ∈ CaptureTable.ofText s ↔
      groupEnd? s opening = some closing ∧ occursAt s (opening + 1) CaptureTable.plainMark = false) ∧
    (CaptureTable.ofText s).Pairwise fun one other => one.1 < other.1 := by
  refine ⟨fun opening closing => ⟨fun found => ?_, fun encloses => groupEnd?_eq_some.mpr encloses.1⟩, fun opening => ?_,
    s.countedEnd?_eq, fun first last first' last' found found' before => ⟨?_, groupEnd?_nested found found' before⟩,
    groupEnd?_total, fun _ _ => CaptureTable.mem_ofText, CaptureTable.ofCursors_ascending s.cursors_ascending⟩
  · have encloses := groupEnd?_eq_some.mp found
    exact ⟨encloses, fun _ => encloses.unique⟩
  · rw [Option.eq_none_iff_forall_ne_some]
    exact forall_congr' fun closing => not_congr groupEnd?_eq_some
  · rintro rfl
    exact Nat.ne_of_lt before (groupEnd?_injective found found')

-- `((a)\)(?:b))`, where two groups lie in a third one and an escaped parenthesis between them.
theorem groups_paired_nested :
    let s : Text := ['(', '(', 'a', ')', '\\', ')', '(', '?', ':', 'b', ')', ')']
    groupEnd? s 0 = some 11 ∧ groupEnd? s 1 = some 3 ∧ (11 ≠ 3 ∧ (3 < 11 ∨ 11 < 1)) ∧
      occursBareAt s 6 ['('] = true ∧ (∃! closing, groupEnd? s 6 = some closing) ∧
      occursBareAt s 10 [')'] = true ∧ ∃! opening, groupEnd? s opening = some 10 := by
  intro s
  obtain ⟨_, _, _, apart, total, _⟩ := groups_paired s
  have balanced : groupFault? s = none := rfl
  have bare : occursBareAt s 6 ['('] = true := rfl
  have bare' : occursBareAt s 10 [')'] = true := rfl
  exact ⟨rfl, rfl, apart 0 11 1 3 rfl rfl Nat.zero_lt_one, bare, (total balanced).1 6 bare, bare', (total balanced).2 10 bare'⟩

end PatternMachine
