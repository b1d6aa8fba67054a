import PatternMachine.Proofs.Construction.Agreement

namespace PatternMachine

open Text (cursorsFrom endsEscaping)

theorem Text.cursorsFrom_drop (s : Text) (offset : Nat) (flag : Bool) (skip : Nat) : (cursorsFrom offset flag s).drop skip =
    cursorsFrom (offset + size (s.take skip)) (escaping flag (s.take skip)) (s.drop skip) := by
  induction s generalizing offset flag skip with
  | nil => simp [cursorsFrom]
  | cons c rest ih =>
    cases skip with
    | zero => rfl
    | succ skip =>
      rw [List.take_succ_cons, size_cons, ← Nat.add_assoc]
      exact ih _ _ skip

theorem Text.size_marks {s : Text} (marks : ∀ c ∈ s, c ∈ ['?', ':', '*']) : s.size = s.length := by
  induction s with
  | nil => rfl
  | cons c rest ih =>
    obtain ⟨mark, others⟩ := List.forall_mem_cons.mp marks
    have single : c.utf8Size = 1 := by
      simp only [List.mem_cons, List.not_mem_nil, or_false] at mark
      rcases mark with rfl | rfl | rfl <;> rfl
    simp [single, ih others, Nat.add_comm]

theorem Role.skip_le (role : Role) (after : Text) : role.skip after ≤ after.length := by
  have star : Token.starWidth (Token.startsStar after) ≤ after.length := by
    cases after <;> simp [Token.starWidth, Token.startsStar]
    split <;> omega
  cases role with
  | literal | closing => exact star
  | opening =>
    show Token.markWidth after ≤ after.length
    unfold Token.markWidth
    split
    · rename_i marked
      exact (List.isPrefixOf_iff_prefix.mp marked).length_le
    · exact Nat.zero_le _
  | question =>
    cases after <;> simp [Role.skip]
    split <;> omega
  | bar | escape | star | colon => exact Nat.zero_le _

theorem Role.skip_size (role : Role) (after : Text) : Text.size (after.take (role.skip after)) = role.skip after := by
  rw [Text.size_marks (role.skip_marks after), List.length_take, Nat.min_eq_left (role.skip_le after)]

namespace Assembler

variable {table : CaptureTable} {body after : Text} {offset width : Nat} {c : Char} {m m' : Assembler}

theorem scanFrom_end (here : body.from? offset = some []) : scanFrom table body m offset = m.flush := by
  rw [scanFrom]
  split <;> simp_all

theorem scanFrom_fault {fault : AssemblyFault} (here : body.from? offset = some (c :: after))
    (faulted : m.step table body offset c = .error fault) : scanFrom table body m offset = .error fault := by
  rw [scanFrom]
  split <;> simp_all
  split <;> simp_all

theorem scanFrom_step (here : body.from? offset = some (c :: after)) (stepped : m.step table body offset c = .ok (m', width)) :
    scanFrom table body m offset = scanFrom table body m' (offset + width) := by
  rw [scanFrom]
  split <;> simp_all
  split <;> simp_all

end Assembler

namespace Text

variable {before after : Text} {c : Char}

def ahead (before rest : Text) : List Cursor := cursorsFrom (size before) (endsEscaping before) rest

def cursorAt (before : Text) (c : Char) (after : Text) : Cursor := ⟨size before, c, after, endsEscaping before⟩

def reach (before : Text) (c : Char) (after : Text) : Nat := (cursorAt before c after).role.skip after

theorem ahead_cons (before : Text) (c : Char) (after : Text) :
    ahead before (c :: after) = cursorAt before c after :: ahead (before ++ [c]) after := by
  have place : size (before ++ [c]) = size before + c.utf8Size := by simp
  rw [ahead, cursorsFrom, ahead, place, endsEscaping_concat]
  rfl

theorem ahead_drop (before after : Text) (skip : Nat) :
    (ahead before after).drop skip = ahead (before ++ after.take skip) (after.drop skip) := by
  rw [ahead, cursorsFrom_drop, ahead, size_append, ← escaping_eq, ← escaping_append, escaping_eq]

theorem size_onward (before : Text) (c : Char) (after : Text) :
    size (before ++ c :: after.take (reach before c after)) = size before + (c.utf8Size + reach before c after) := by
  rw [size_append, size_cons, reach, Role.skip_size]

end Text

open Text (ahead cursorAt reach)

namespace Builder

variable {table : CaptureTable} {body before rest after : Text} {front : List Cursor} {b b' : Builder} {c : Char}

theorem Reached.onward (reached : Reached table body front (ahead before (c :: after)) b)
    (stepped : b.reads table (cursorAt before c after) (ahead (before ++ [c]) after) = .ok b') :
    ∃ front, Reached table body front
      (ahead (before ++ c :: after.take (reach before c after)) (after.drop (reach before c after))) b' := by
  rw [Text.ahead_cons] at reached
  have next := reached.step stepped
  rw [Text.ahead_drop, List.append_assoc] at next
  exact ⟨_, next⟩

theorem step_cut (reached : Reached table body front (ahead before (c :: after)) b) :
    b.flat.step table body (Text.size before) c =
      (flatAnswer (b.reads table (cursorAt before c after) (ahead (before ++ [c]) after))).map (·, c.utf8Size + reach before c after) := by
  have split := reached.split
  rw [Text.ahead_cons] at split
  exact step_flat reached.stands.1 split

theorem scanFrom_flat (whole : body = before ++ rest) (reached : Reached table body front (ahead before rest) b) :
    Assembler.scanFrom table body b.flat (Text.size before) = flatAnswer (scan table body) := by
  have here : body.from? (Text.size before) = some rest := Text.from?_eq_some.mpr ⟨before, whole, rfl⟩
  rw [reached.scan]
  -- A step may take up several characters, so the induction is on how many are left.
  induction left : rest.length using Nat.strongRecOn generalizing before rest front b with
  | ind n ih =>
    cases rest with
    | nil =>
      obtain ⟨flushed, ran, _⟩ := reached.stands.1.flush
      rw [Assembler.scanFrom_end here, flush_flat reached.stands.1.grown ran]
      show _ = flatAnswer b.flush
      rw [ran]
      rfl
    | cons c after =>
      have stepped := step_cut reached
      rw [Text.ahead_cons, run_reads]
      cases answer : b.reads table (cursorAt before c after) (ahead (before ++ [c]) after) with
      | error fault =>
        rw [answer] at stepped
        rw [Assembler.scanFrom_fault here stepped]
        rfl
      | ok b' =>
        rw [answer] at stepped
        obtain ⟨front, onward⟩ := reached.onward answer
        have whole' : body = before ++ c :: after.take (reach before c after) ++ after.drop (reach before c after) := by
          rw [whole, List.append_assoc, List.cons_append, List.take_append_drop]
        have shorter : (after.drop (reach before c after)).length < n := by
          rw [← left, List.length_drop, List.length_cons]
          omega
        have later := ih _ shorter whole' onward (Text.from?_eq_some.mpr ⟨_, whole', rfl⟩) rfl
        rw [Assembler.scanFrom_step here stepped, ← Text.size_onward, later]
        rw [Text.ahead_drop, List.append_assoc]
        rfl

theorem begun (table : CaptureTable) (body : Text) : Reached table body [] (ahead [] body) initial := .begin

theorem scan_flat (table : CaptureTable) (body : Text) : Assembler.scan table body = flatAnswer (scan table body) := by
  have whole : body = [] ++ body := rfl
  exact scanFrom_flat whole (begun table body)

theorem finish_flat {table : CaptureTable} {anchors : Anchors} {a : Automaton} (grown : b.arena.Grown)
    (finished : b.finish table anchors = .ok a) : b.flat.finish table anchors = .ok a := by
  obtain ⟨arena, marked, sealing⟩ := bind_ok.mp finished
  have marks : ∀ (ends : List StateId) (m : Assembler) (arena : Arena), m.arena.Grown →
      ends.foldlM Arena.markTerminal m.arena = .ok arena →
      ends.foldlM (fun m id => m.edit (.markTerminal id)) m = .ok { m with arena } := by
    intro ends
    induction ends with
    | nil =>
      intro m arena _ marked
      cases marked
      rfl
    | cons id ends ih =>
      intro m arena grown marked
      obtain ⟨next, first, rest⟩ := bind_ok.mp marked
      have edited : m.edit (.markTerminal id) = .ok { m with arena := next } := Assembler.edit_ok grown first
      have grown : next.Grown := @Arena.Grown.step m.arena (.markTerminal id) next grown first
      exact bind_ok.mpr ⟨_, edited, ih { m with arena := next } arena grown rest⟩
  have sealing := checked_ok.mp sealing
  refine bind_ok.mpr ⟨_, marks _ b.flat arena grown (checked_ok.mp marked), ?_⟩
  show (arena.finish b.start anchors table.length).mapError _ = _
  rw [sealing]
  rfl

end Builder

namespace Assembler

variable {table : CaptureTable} {body after : Text} {offset width : Nat} {c : Char} {m m' : Assembler}

theorem Reached.built (reached : Reached table body offset m) : ∃ before rest front b, body = before ++ rest ∧
    Text.size before = offset ∧ Builder.Reached table body front (ahead before rest) b ∧ m = b.flat := by
  induction reached with
  | begin => exact ⟨[], body, [], .initial, rfl, rfl, Builder.begun table body, rfl⟩
  | @step offset m c after m' width _ here stepped ih =>
    obtain ⟨before, rest, front, b, rfl, rfl, reached, rfl⟩ := ih
    have same : Text.from? (before ++ rest) (Text.size before) = some rest := Text.from?_eq_some.mpr ⟨before, rfl, rfl⟩
    cases same.symm.trans here
    rw [Builder.step_cut reached] at stepped
    cases answer : b.reads table (cursorAt before c after) (ahead (before ++ [c]) after) with
    | error fault =>
      rw [answer] at stepped
      cases stepped
    | ok b' =>
      rw [answer] at stepped
      cases stepped
      obtain ⟨front, onward⟩ := reached.onward answer
      refine ⟨_, _, front, b', ?_, Text.size_onward before c after, onward, rfl⟩
      simp

theorem Reached.ends (reached : Reached table body offset m) (onward : scan table body = scanFrom table body m offset) :
    (∃ last, Reached table body body.size last ∧ scan table body = last.flush) ∨
      ∃ offset m c after fault, Reached table body offset m ∧ body.from? offset = some (c :: after) ∧
        m.step table body offset c = .error fault ∧ scan table body = .error fault := by
  induction left : body.size - offset using Nat.strongRecOn generalizing offset m with
  | ind n ih =>
    obtain ⟨before, rest, _, _, whole, place, _, _⟩ := reached.built
    have here : body.from? offset = some rest := Text.from?_eq_some.mpr ⟨before, whole, place⟩
    cases rest with
    | nil =>
      have all : offset = body.size := by simp [← place, whole]
      exact .inl ⟨m, all ▸ reached, onward.trans (scanFrom_end here)⟩
    | cons c after =>
      cases stepped : m.step table body offset c with
      | error fault => exact .inr ⟨offset, m, c, after, fault, reached, here, stepped, onward.trans (scanFrom_fault here stepped)⟩
      | ok next =>
        obtain ⟨m', width⟩ := next
        exact ih _ (left ▸ step_shrinks here stepped) (.step reached here stepped) (onward.trans (scanFrom_step here stepped)) rfl

end Assembler

namespace Builder

theorem Stands.seals {b : Builder} (stands : b.Stands) (table : CaptureTable) (anchors : Anchors) :
    ∃ a, b.finish table anchors = .ok a ∧ b.flat.finish table anchors = .ok a ∧ a.Sealed ∧ a.defect? = none := by
  obtain ⟨a, finished, _, _⟩ := stands.finish table anchors
  exact ⟨a, finished, finish_flat stands.grown finished, stands.sealed finished⟩

theorem build_flat (table : CaptureTable) (body : Text) (anchors : Anchors) :
    Assembler.build table body anchors = (build table body anchors).mapError BuildFault.raised := by
  have scanned := scan_flat table body
  rcases scan_verdict table body with ⟨_, faulted⟩ | ⟨_, b, built, stands⟩
  · rw [faulted] at scanned
    rw [Assembler.build, scanned, build, faulted]
    rfl
  · rw [built] at scanned
    obtain ⟨a, finished, flat, _, sound⟩ := stands.seals table anchors
    have scanned : Assembler.scan table body = .ok b.flat := scanned
    have answer : Assembler.build table body anchors = .ok a := by
      simp only [Assembler.build, scanned, bind, Except.bind, flat, sound]
      rfl
    rw [answer, build, built]
    show _ = (b.finish table anchors).mapError _
    rw [finished]
    rfl

end Builder

namespace Assembler

-- Whatever the body and the table, a surplus closing is refused for want of a branch end, and nothing else ever is: no
-- other stack runs dry, no slice is off a boundary, and no check of the arena fires.
theorem scan_overclosed (table : CaptureTable) (body : Text) :
    (∀ fault, scan table body = .error fault ↔ body.Overclosed ∧ fault = .noBranchEnd) ∧
    AssemblyFault.noBranchEnd.text? = some "top-level branch end is never popped" ∧
    (¬body.Overclosed → ∃ m, scan table body = .ok m ∧
      ∀ anchors, ∃ a, m.finish table anchors = .ok a ∧ a.Sealed ∧ a.defect? = none) ∧
    ∀ anchors, build table body anchors = (Builder.build table body anchors).mapError BuildFault.raised := by
  have scanned := Builder.scan_flat table body
  rcases Builder.scan_verdict table body with ⟨exceeds, faulted⟩ | ⟨within, b, built, stands⟩
  · rw [faulted] at scanned
    have scanned : scan table body = .error .noBranchEnd := scanned
    exact ⟨fun fault => by simp [scanned, exceeds, eq_comm], BuildFault.raised_text .noBranchEnd,
      fun balanced => (balanced exceeds).elim, Builder.build_flat table body⟩
  · rw [built] at scanned
    have scanned : scan table body = .ok b.flat := scanned
    refine ⟨fun fault => by simp [scanned, within], BuildFault.raised_text .noBranchEnd,
      fun _ => ⟨b.flat, scanned, fun anchors => ?_⟩, Builder.build_flat table body⟩
    obtain ⟨a, _, sealing⟩ := stands.seals table anchors
    exact ⟨a, sealing⟩

end Assembler
end PatternMachine
