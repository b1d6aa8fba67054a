import PatternMachine.Proofs.Construction.Faults

namespace PatternMachine

theorem Text.cursorsFrom_after {s : Text} {offset : Nat} {flag : Bool} {front later : List Cursor} {p : Cursor}
    (split : cursorsFrom offset flag s = front ++ p :: later) : later.map (·.char) = p.after := by
  have chars : ∀ (s : Text) offset flag, (cursorsFrom offset flag s).map (·.char) = s := by
    intro s
    induction s with
    | nil => exact fun _ _ => rfl
    | cons c rest ih => exact fun offset flag => congrArg (c :: ·) (ih _ _)
  induction front generalizing s offset flag with
  | nil =>
    cases s with
    | nil => cases split
    | cons c rest =>
      obtain ⟨rfl, rfl⟩ := List.cons.inj split
      exact chars rest _ _
  | cons q front ih =>
    cases s with
    | nil => cases split
    | cons c rest => exact ih (List.cons.inj split).2

def Cursor.isMark (p : Cursor) : Bool := ['?', ':', '*'].contains p.char

theorem Cursor.mark_silent {p : Cursor} (mark : p.isMark = true) : p.opens = false ∧ p.closes = false ∧ p.isBare '|' = false := by
  have char := List.contains_iff_mem.mp mark
  simp only [List.mem_cons, List.not_mem_nil, or_false] at char
  rcases char with char | char | char <;> simp [opens, closes, isBare, char]

theorem Role.skip_marks (role : Role) (after : Text) : ∀ c ∈ after.take (role.skip after), c ∈ ['?', ':', '*'] := by
  have none : ∀ c ∈ after.take 0, c ∈ ['?', ':', '*'] := by simp
  have star : ∀ c ∈ after.take (Token.starWidth (Token.startsStar after)), c ∈ ['?', ':', '*'] := by
    cases after with
    | nil => simp
    | cons d rest =>
      by_cases same : d = '*'
      · simp [same, Token.starWidth, Token.startsStar]
      · simp [same, Token.starWidth, Token.startsStar]
  cases role with
  | literal | closing => exact star
  | opening =>
    show ∀ c ∈ after.take (Token.markWidth after), c ∈ ['?', ':', '*']
    unfold Token.markWidth
    split
    · rename_i marked
      obtain ⟨rest, rfl⟩ := List.isPrefixOf_iff_prefix.mp marked
      simp [CaptureTable.plainMark]
    · exact none
  | question =>
    cases after with
    | nil => simp
    | cons d rest =>
      by_cases same : d = ':'
      · simp [same, Role.skip]
      · simp [same, Role.skip]
  | bar | escape | star | colon => exact none

section

variable {p : Cursor} {rest : List Cursor} {token : Token} {depth after : Nat}

theorem Role.next_bar (p : Cursor) : Role.bar.next p = p.role := by
  cases escaped : p.escaped <;> simp [Role.next, Cursor.role, Cursor.opens, Cursor.closes, Cursor.isBare, escaped]

theorem Role.role_opening : p.role = .opening ↔ p.opens = true := by
  rw [← Role.next_bar, Role.next_opening]

theorem Role.role_closing : p.role = .closing ↔ p.closes = true := by
  rw [← Role.next_bar, Role.next_closing]

theorem Token.Nests.counted (nests : token.Nests depth after) (taken : p.role.token? p rest = some token) :
    depth + [p].countP Cursor.opens = [p].countP Cursor.closes + after := by
  cases role : p.role with
  | opening =>
    have opens := Role.role_opening.mp role
    rw [role] at taken
    cases taken
    cases nests
    simp [opens, Cursor.opens_silent opens]
  | closing =>
    have closes := Role.role_closing.mp role
    rw [role] at taken
    cases taken
    cases nests
    simp [closes, Cursor.closes_silent closes, Nat.add_comm]
  | bar | literal =>
    have silent : p.opens = false := Bool.eq_false_iff.mpr fun opens => by cases role.symm.trans (Role.role_opening.mpr opens)
    have silent' : p.closes = false := Bool.eq_false_iff.mpr fun closes => by cases role.symm.trans (Role.role_closing.mpr closes)
    rw [role] at taken
    cases taken
    cases nests
    simp [silent, silent']
  | escape | star | question | colon =>
    rw [role] at taken
    cases taken

theorem Role.silent_untaken (untaken : p.role.token? p rest = none) : p.opens = false ∧ p.closes = false := by
  refine ⟨Bool.eq_false_iff.mpr fun opens => ?_, Bool.eq_false_iff.mpr fun closes => ?_⟩
  · rw [Role.role_opening.mpr opens] at untaken
    cases untaken
  · rw [Role.role_closing.mpr closes] at untaken
    cases untaken

end

theorem Token.ofCursors_drop (skip : Nat) (cursors : List Cursor) :
    ofCursors skip cursors = ofCursors 0 (cursors.drop skip) := by
  induction cursors generalizing skip with
  | nil =>
    rw [List.drop_nil]
    cases skip <;> rfl
  | cons p rest ih =>
    cases skip with
    | zero => rfl
    | succ skip => exact ih skip

namespace Builder

def reads (table : CaptureTable) (b : Builder) (p : Cursor) (later : List Cursor) : Step :=
  match p.role.token? p later with
  | some token => b.step table token
  | none => .ok b

-- What the steps of a scan come to, with the characters that are read and those still to be read.
inductive Reached (table : CaptureTable) (body : Text) : List Cursor → List Cursor → Builder → Prop where
  | begin : Reached table body [] body.cursors initial
  | step : Reached table body front (p :: later) b → b.reads table p later = .ok b' →
      Reached table body (front ++ p :: later.take (p.role.skip p.after)) (later.drop (p.role.skip p.after)) b'

variable {table : CaptureTable} {body : Text} {front later : List Cursor} {p : Cursor} {b b' : Builder}

theorem run_reads (table : CaptureTable) (b : Builder) (p : Cursor) (later : List Cursor) :
    b.run table (Token.ofCursors 0 (p :: later)) =
      (b.reads table p later).bind fun b' => b'.run table (Token.ofCursors 0 (later.drop (p.role.skip p.after))) := by
  rw [Token.ofCursors_role, Token.ofCursors_drop, reads]
  cases p.role.token? p later with
  | none => rfl
  | some token => exact run_cons table b token _

namespace Reached

theorem split (reached : Reached table body front later b) : body.cursors = front ++ later := by
  induction reached with
  | begin => rfl
  | step _ _ ih =>
    rw [ih, List.append_assoc, List.cons_append, List.take_append_drop]

theorem scan (reached : Reached table body front later b) :
    Builder.scan table body = (b.run table (Token.ofCursors 0 later)).bind flush := by
  induction reached with
  | begin => rfl
  | step _ stepped ih =>
    rw [ih, run_reads, stepped]
    rfl

theorem ends (reached : Reached table body front later b) :
    (∃ last, Reached table body body.cursors [] last ∧ Builder.scan table body = last.flush) ∨
      ∃ front p later b fault, Reached table body front (p :: later) b ∧ b.reads table p later = .error fault ∧
        Builder.scan table body = .error fault := by
  induction count : later.length using Nat.strongRecOn generalizing front later b with
  | ind n ih =>
    cases later with
    | nil =>
      have all := reached.split
      rw [List.append_nil] at all
      exact .inl ⟨b, all ▸ reached, reached.scan⟩
    | cons p later =>
      cases stepped : b.reads table p later with
      | error fault =>
        refine .inr ⟨front, p, later, b, fault, reached, stepped, ?_⟩
        rw [reached.scan, run_reads, stepped]
        rfl
      | ok b' =>
        have shorter : (later.drop (p.role.skip p.after)).length < n := by
          rw [← count, List.length_drop, List.length_cons]
          omega
        exact ih _ shorter (reached.step stepped) rfl

theorem marks (reached : Reached table body front (p :: later) b) :
    ∀ q ∈ later.take (p.role.skip p.after), q.isMark = true := by
  intro q member
  have listed : q.char ∈ (later.take (p.role.skip p.after)).map (·.char) := List.mem_map_of_mem member
  rw [List.map_take, Text.cursorsFrom_after reached.split] at listed
  exact List.contains_iff_mem.mpr (p.role.skip_marks p.after q.char listed)

theorem stands (reached : Reached table body front later b) :
    b.Stands ∧ front.countP Cursor.opens = front.countP Cursor.closes + b.outer.length := by
  induction reached with
  | begin => exact ⟨initial_stands, rfl⟩
  | @step front p later b b' reached stepped ih =>
    obtain ⟨stands, depth⟩ := ih
    have unopened : (later.take (p.role.skip p.after)).countP Cursor.opens = 0 :=
      List.countP_eq_zero.mpr fun q member => by simp [Cursor.mark_silent (reached.marks q member)]
    have unclosed : (later.take (p.role.skip p.after)).countP Cursor.closes = 0 :=
      List.countP_eq_zero.mpr fun q member => by simp [Cursor.mark_silent (reached.marks q member)]
    have counted : ∀ count : Cursor → Bool, (front ++ p :: later.take (p.role.skip p.after)).countP count =
        front.countP count + [p].countP count + (later.take (p.role.skip p.after)).countP count := by
      intro count
      rw [List.countP_append, ← List.singleton_append, List.countP_append, Nat.add_assoc]
    rw [counted, counted, unopened, unclosed, depth]
    unfold reads at stepped
    split at stepped
    · rename_i token taken
      rcases step_stands stands table token with ⟨_, _, _, _, fault⟩ | ⟨next, ran, stands', nests⟩
      · cases fault.symm.trans stepped
      · cases ran.symm.trans stepped
        have same := nests.counted taken
        exact ⟨stands', by omega⟩
    · rename_i untaken
      cases stepped
      obtain ⟨silent, silent'⟩ := Role.silent_untaken untaken
      exact ⟨stands, by simp [silent, silent']⟩

end Reached
end Builder
end PatternMachine
