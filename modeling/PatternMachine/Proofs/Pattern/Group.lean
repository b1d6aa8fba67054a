import PatternMachine.Pattern.Basic
import PatternMachine.Pattern.Token
import PatternMachine.Proofs.Text.Escaping

namespace PatternMachine

theorem closing?_mem {cursors : List Cursor} {depth : Nat} (found : closing? depth cursors = some close) :
    close ∈ cursors := by
  induction cursors generalizing depth with
  | nil => cases found
  | cons p rest ih =>
    unfold closing? at found
    split at found
    · exact List.mem_cons_of_mem _ (ih found)
    · split at found
      · split at found
        · cases found
          exact List.mem_cons_self
        · exact List.mem_cons_of_mem _ (ih found)
      · exact List.mem_cons_of_mem _ (ih found)

def Cursor.nested? (p : Cursor) (opened : List Nat) : Option (List Nat) :=
  if p.opens then some (p.offset :: opened) else if p.closes then opened.tail? else some opened

theorem groupFaultFrom_nil {opened : List Nat} : groupFaultFrom opened [] = none ↔ opened = [] := by
  simp [groupFaultFrom]

theorem groupFaultFrom_cons {opened : List Nat} {p : Cursor} {rest : List Cursor} :
    groupFaultFrom opened (p :: rest) = none ↔ ∃ next, p.nested? opened = some next ∧ groupFaultFrom next rest = none := by
  simp only [groupFaultFrom, Cursor.nested?]
  split
  · simp
  · split
    · cases opened <;> simp
    · simp

theorem closing?_of_balanced {cursors : List Cursor} {opened : List Nat}
    (balanced : groupFaultFrom opened cursors = none) (depth : Nat) (inside : depth < opened.length) :
    ∃ close, closing? depth cursors = some close := by
  induction cursors generalizing opened depth with
  | nil =>
    cases opened with
    | nil => cases inside
    | cons _ _ => simp [groupFaultFrom] at balanced
  | cons p rest ih =>
    unfold groupFaultFrom at balanced
    unfold closing?
    split
    · rename_i opens
      rw [if_pos opens] at balanced
      exact ih balanced (depth + 1) (Nat.succ_lt_succ inside)
    · rename_i silent
      rw [if_neg silent] at balanced
      split
      · rename_i closes
        rw [if_pos closes] at balanced
        cases opened with
        | nil => cases inside
        | cons _ outer =>
          cases depth with
          | zero => exact ⟨p, rfl⟩
          | succ depth => exact ih balanced depth (Nat.lt_of_succ_lt_succ inside)
      · rename_i open_ended
        rw [if_neg open_ended] at balanced
        exact ih balanced depth inside

theorem CaptureTable.ofCursors_offset {cursors : List Cursor} {entry : Nat × Nat}
    (listed : entry ∈ CaptureTable.ofCursors cursors) : ∃ p ∈ cursors, p.offset = entry.1 := by
  induction cursors with
  | nil => cases listed
  | cons p rest ih =>
    have later : entry ∈ CaptureTable.ofCursors rest → ∃ q ∈ p :: rest, q.offset = entry.1 := by
      intro member
      obtain ⟨q, present, same⟩ := ih member
      exact ⟨q, List.mem_cons_of_mem _ present, same⟩
    unfold CaptureTable.ofCursors at listed
    split at listed
    · split at listed
      · rcases List.mem_cons.mp listed with rfl | member
        · exact ⟨p, List.mem_cons_self, rfl⟩
        · exact later member
      · exact later listed
    · exact later listed

-- What is known of the cursors not read yet, inside groups that will be closed by `closers`, the
-- innermost first, and with so many captures opened before.
structure Ahead (table : CaptureTable) (closers : List Cursor) (captures : Nat) (cursors : List Cursor) : Prop where
  closes : ∀ depth (inside : depth < closers.length), closing? depth cursors = some closers[depth]
  balanced : ∃ opened, opened.length = closers.length ∧ groupFaultFrom opened cursors = none
  listed : ∃ front, table = front ++ CaptureTable.ofCursors cursors ∧ front.length = captures ∧
    ∀ entry ∈ front, ∀ p ∈ cursors, entry.1 < p.offset
  ascending : cursors.Pairwise fun earlier later => earlier.offset < later.offset

theorem Cursor.closes_silent {p : Cursor} (closes : p.closes = true) : p.opens = false := by
  simp only [Cursor.closes, Cursor.opens, Cursor.isBare, Bool.and_eq_true, beq_iff_eq] at closes ⊢
  simp [closes.2]

theorem Cursor.opens_silent {p : Cursor} (opens : p.opens = true) : p.closes = false := by
  refine Bool.eq_false_iff.mpr fun closes => ?_
  rw [closes_silent closes] at opens
  cases opens

theorem Ahead.pass (ahead : Ahead table closers captures (p :: rest)) (silent : p.opens = false)
    (silent' : p.closes = false) : Ahead table closers captures rest := by
  obtain ⟨opened, depth, balanced⟩ := ahead.balanced
  obtain ⟨front, split, count, before⟩ := ahead.listed
  refine ⟨?_, ⟨opened, depth, ?_⟩, ⟨front, ?_, count, ?_⟩, (List.pairwise_cons.mp ahead.ascending).2⟩
  · intro depth inside
    simpa [closing?, silent, silent'] using ahead.closes depth inside
  · simpa [groupFaultFrom, silent, silent'] using balanced
  · simpa [CaptureTable.ofCursors, silent] using split
  · intro entry member q later
    exact before entry member q (List.mem_cons_of_mem _ later)

theorem CaptureTable.indexOf?_front {front : CaptureTable} {offset : Nat}
    (before : ∀ entry ∈ front, entry.1 < offset) (back : CaptureTable) :
    (front ++ back).indexOf? offset = (back.indexOf? offset).map (· + front.length) := by
  have apart : front.findIdx? (fun entry => entry.1 == offset) = none := by
    rw [List.findIdx?_eq_none_iff]
    intro entry member
    have bound := before entry member
    simp; omega
  simp [CaptureTable.indexOf?, List.findIdx?_append, apart]

theorem CaptureTable.indexOf?_behind {offset : Nat} {cursors : List Cursor}
    (after : ∀ p ∈ cursors, offset < p.offset) : (CaptureTable.ofCursors cursors).indexOf? offset = none := by
  unfold CaptureTable.indexOf?
  rw [List.findIdx?_eq_none_iff]
  intro entry member
  obtain ⟨p, present, same⟩ := CaptureTable.ofCursors_offset member
  have bound := after p present
  simp; omega

theorem Ahead.opening (ahead : Ahead table closers captures (p :: rest)) (opens : p.opens = true) {capturing : Bool}
    (marked : CaptureTable.plainMark.isPrefixOf p.after = !capturing) :
    ∃ close, Token.loops rest = Token.startsStar close.after ∧
      Ahead table (close :: closers) (if capturing then captures + 1 else captures) rest ∧
      table.indexOf? p.offset = (if capturing then some captures else none) ∧
      (capturing = true → table[captures]? = some (p.offset, close.offset)) := by
  obtain ⟨opened, depth, balanced⟩ := ahead.balanced
  obtain ⟨front, split, count, before⟩ := ahead.listed
  obtain ⟨after, ascending⟩ := List.pairwise_cons.mp ahead.ascending
  have inner : groupFaultFrom (p.offset :: opened) rest = none := by simpa [groupFaultFrom, opens] using balanced
  obtain ⟨close, found⟩ := closing?_of_balanced inner 0 (Nat.zero_lt_succ _)
  have head : ∀ entry ∈ front, entry.1 < p.offset := fun entry member => before entry member p List.mem_cons_self
  have front_before : ∀ entry ∈ front, ∀ q ∈ rest, entry.1 < q.offset :=
    fun entry member q later => before entry member q (List.mem_cons_of_mem _ later)
  have closes : ∀ depth (inside : depth < (close :: closers).length),
      closing? depth rest = some (close :: closers)[depth] := by
    intro depth inside
    cases depth with
    | zero => exact found
    | succ depth => simpa [closing?, opens] using ahead.closes depth (Nat.lt_of_succ_lt_succ inside)
  have balanced' : ∃ opened, opened.length = (close :: closers).length ∧ groupFaultFrom opened rest = none :=
    ⟨p.offset :: opened, by simp [depth], inner⟩
  refine ⟨close, by simp [Token.loops, found], ?_⟩
  cases capturing with
  | false =>
    have plain : table = front ++ CaptureTable.ofCursors rest := by
      simpa [CaptureTable.ofCursors, opens, marked] using split
    refine ⟨⟨closes, balanced', ⟨front, plain, count, front_before⟩, ascending⟩, ?_, ?_⟩
    · rw [plain, CaptureTable.indexOf?_front head, CaptureTable.indexOf?_behind after]
      rfl
    · intro impossible
      cases impossible
  | true =>
    have entered : table = front ++ (p.offset, close.offset) :: CaptureTable.ofCursors rest := by
      simpa [CaptureTable.ofCursors, opens, marked, found] using split
    refine ⟨⟨closes, balanced', ⟨front ++ [(p.offset, close.offset)], by simp [entered], by simp [count], ?_⟩,
      ascending⟩, ?_, ?_⟩
    · intro entry member q later
      rcases List.mem_append.mp member with old | new
      · exact front_before entry old q later
      · cases List.mem_singleton.mp new
        exact after q later
    · rw [entered, CaptureTable.indexOf?_front head]
      simp [CaptureTable.indexOf?, List.findIdx?_cons, count]
    · intro _
      simp [entered, ← count]

theorem Ahead.closing (ahead : Ahead table closers captures (p :: rest)) (closes : p.closes = true) :
    ∃ outer, closers = p :: outer ∧ Ahead table outer captures rest ∧ ∀ close ∈ outer, p.offset < close.offset := by
  have silent := Cursor.closes_silent closes
  obtain ⟨opened, depth, balanced⟩ := ahead.balanced
  obtain ⟨front, split, count, before⟩ := ahead.listed
  obtain ⟨after, ascending⟩ := List.pairwise_cons.mp ahead.ascending
  cases closers with
  | nil =>
    cases List.eq_nil_of_length_eq_zero depth
    simp [groupFaultFrom, silent, closes] at balanced
  | cons close outer =>
    have here := ahead.closes 0 (Nat.zero_lt_succ _)
    simp only [closing?, silent, closes, Bool.false_eq_true, if_false, if_true] at here
    obtain rfl : p = close := Option.some.inj here
    have later : ∀ depth (inside : depth < outer.length), closing? depth rest = some outer[depth] := by
      intro depth inside
      simpa [closing?, silent, closes] using ahead.closes (depth + 1) (Nat.succ_lt_succ inside)
    refine ⟨outer, rfl, ⟨later, ?_, ⟨front, ?_, count, ?_⟩, ascending⟩, ?_⟩
    · cases opened with
      | nil => simp at depth
      | cons _ opened =>
        refine ⟨opened, by simpa using depth, ?_⟩
        simpa [groupFaultFrom, silent, closes] using balanced
    · simpa [CaptureTable.ofCursors, silent] using split
    · intro entry member q behind
      exact before entry member q (List.mem_cons_of_mem _ behind)
    · intro close member
      obtain ⟨depth, inside, same⟩ := List.mem_iff_getElem.mp member
      have found := later depth inside
      rw [same] at found
      exact after close (closing?_mem found)

theorem Ahead.of_balanced {body : Text} (balanced : groupFault? body = none) :
    Ahead (CaptureTable.ofText body) [] 0 body.cursors where
  closes := by
    intro depth inside
    cases inside
  balanced := ⟨[], rfl, balanced⟩
  listed := ⟨[], rfl, rfl, by simp⟩
  ascending := body.cursors_ascending

def Cursor.reading (p : Cursor) : Char × Bool := (p.char, p.escaped)

theorem Text.cursorsFrom_reading (s : Text) (offset other : Nat) (escaped : Bool) :
    (cursorsFrom offset escaped s).map Cursor.reading = (cursorsFrom other escaped s).map Cursor.reading := by
  induction s generalizing offset other escaped with
  | nil => rfl
  | cons c rest ih => simp [cursorsFrom, Cursor.reading, ih _ (other + c.utf8Size)]

theorem Text.cursorsFrom_front (front back : Text) (start : Nat) (flag : Bool) :
    ∃ read, cursorsFrom start flag (front ++ back) = read ++ cursorsFrom (start + size front) (escaping flag front) back ∧
      read.map Cursor.reading = (cursorsFrom start flag front).map Cursor.reading := by
  induction front generalizing start flag with
  | nil => exact ⟨[], rfl, rfl⟩
  | cons c front ih =>
    obtain ⟨read, split, same⟩ := ih (start + c.utf8Size) (c == '\\' && !flag)
    refine ⟨⟨start, c, front ++ back, flag⟩ :: read, ?_, ?_⟩
    · rw [List.cons_append, cursorsFrom, split, size_cons, Nat.add_assoc]
      rfl
    · rw [List.map_cons, same]
      rfl

theorem Text.cursors_reading_append (front back : Text) : (front ++ back).cursors.map Cursor.reading =
    (front.cursors ++ cursorsFrom 0 (endsEscaping front) back).map Cursor.reading := by
  obtain ⟨read, split, same⟩ := cursorsFrom_front front back 0 false
  rw [cursors, split, List.map_append, same, List.map_append, escaping_eq, cursorsFrom_reading back _ 0]
  rfl

theorem Cursor.isBare_reading {p q : Cursor} (same : p.reading = q.reading) (c : Char) : p.isBare c = q.isBare c := by
  have char : p.char = q.char := congrArg Prod.fst same
  have escaped : p.escaped = q.escaped := congrArg Prod.snd same
  rw [isBare, isBare, char, escaped]

theorem Cursor.nested?_congr {p q : Cursor} {opened opened' next : List Nat} (same : p.reading = q.reading)
    (depth : opened.length = opened'.length) (step : p.nested? opened = some next) :
    ∃ next', q.nested? opened' = some next' ∧ next.length = next'.length := by
  have opens : p.opens = q.opens := isBare_reading same '('
  have closes : p.closes = q.closes := isBare_reading same ')'
  unfold nested? at step ⊢
  rw [opens, closes] at step
  split at step
  · rename_i opening
    cases step
    exact ⟨_, if_pos opening, congrArg (· + 1) depth⟩
  · rename_i silent
    rw [if_neg silent]
    split at step
    · rename_i closing
      rw [if_pos closing]
      cases opened with
      | nil => cases step
      | cons _ outer =>
        cases step
        cases opened' with
        | nil => cases depth
        | cons _ outer' => exact ⟨outer', rfl, Nat.succ.inj depth⟩
    · rename_i plain
      cases step
      exact ⟨opened', if_neg plain, depth⟩

theorem groupFaultFrom_congr {cursors others : List Cursor} {opened opened' : List Nat}
    (same : cursors.map Cursor.reading = others.map Cursor.reading) (depth : opened.length = opened'.length)
    (balanced : groupFaultFrom opened cursors = none) : groupFaultFrom opened' others = none := by
  induction cursors generalizing others opened opened' with
  | nil =>
    cases others with
    | nil =>
      rw [groupFaultFrom_nil] at balanced ⊢
      subst balanced
      exact List.eq_nil_of_length_eq_zero depth.symm
    | cons _ _ => cases same
  | cons p rest ih =>
    cases others with
    | nil => cases same
    | cons q later =>
      obtain ⟨here, after⟩ := List.cons.inj same
      obtain ⟨next, step, balanced⟩ := groupFaultFrom_cons.mp balanced
      obtain ⟨next', step', depth'⟩ := Cursor.nested?_congr here depth step
      exact groupFaultFrom_cons.mpr ⟨next', step', ih after depth' balanced⟩

theorem groupFaultFrom_dropLast {cursors : List Cursor} {p : Cursor} {opened : List Nat}
    (silent : p.opens = false) (silent' : p.closes = false)
    (balanced : groupFaultFrom opened (cursors ++ [p]) = none) : groupFaultFrom opened cursors = none := by
  induction cursors generalizing opened with
  | nil => simpa [groupFaultFrom, silent, silent'] using balanced
  | cons q rest ih =>
    obtain ⟨next, step, balanced⟩ := groupFaultFrom_cons.mp balanced
    exact groupFaultFrom_cons.mpr ⟨next, step, ih balanced⟩

namespace Pattern

theorem stripStart_balanced {source : Text} (balanced : groupFault? source = none) :
    groupFault? (stripStart source).2 = none := by
  cases source with
  | nil => exact balanced
  | cons c rest =>
    simp only [stripStart]
    split
    · rename_i anchor
      subst anchor
      have inner : groupFaultFrom [] (Text.cursorsFrom 1 false rest) = none := balanced
      exact groupFaultFrom_congr (Text.cursorsFrom_reading rest 1 0 false) rfl inner
    · exact balanced

theorem stripEnd_balanced {inner : Text} (balanced : groupFault? inner = none) :
    groupFault? (stripEnd inner).2 = none := by
  unfold stripEnd
  split
  · rename_i anchored
    rcases List.eq_nil_or_concat inner with rfl | ⟨body, c, rfl⟩
    · exact balanced
    · rw [List.concat_eq_append] at balanced anchored ⊢
      have split : (Text.cursors (body ++ [c])).map Cursor.reading =
          (Text.cursors body ++ [Cursor.mk 0 c [] (Text.endsEscaping body)]).map Cursor.reading := Text.cursors_reading_append body [c]
      have last : (Text.cursors (body ++ [c])).getLast?.map Cursor.reading = some (c, Text.endsEscaping body) := by
        rw [← List.getLast?_map, split]
        simp [Cursor.reading]
      obtain ⟨p, found, reads⟩ := Option.map_eq_some_iff.mp last
      have char : p.char = c := congrArg Prod.fst reads
      have dollar : c = '$' := by
        rw [found] at anchored
        simp only [Option.any_some, Cursor.isBare, Bool.and_eq_true, beq_iff_eq] at anchored
        rw [← char]
        exact anchored.2
      subst dollar
      have whole := groupFaultFrom_congr split rfl balanced
      rw [List.dropLast_concat]
      have silent : (Cursor.mk 0 '$' [] (Text.endsEscaping body)).opens = false := Bool.and_false _
      have silent' : (Cursor.mk 0 '$' [] (Text.endsEscaping body)).closes = false := Bool.and_false _
      exact groupFaultFrom_dropLast silent silent' whole
  · exact balanced

theorem parse_balanced {source : Text} {p : Pattern} (parsed : Pattern.parse source = .ok p) :
    groupFault? p.body = none := by
  unfold Pattern.parse at parsed
  cases fault : groupFault? source with
  | some fault => simp [fault] at parsed
  | none =>
    simp only [fault] at parsed
    split at parsed
    · cases parsed
    · cases parsed
      exact stripEnd_balanced (stripStart_balanced fault)

end Pattern
end PatternMachine
