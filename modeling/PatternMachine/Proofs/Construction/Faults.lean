import PatternMachine.Proofs.Automaton.Editing
import PatternMachine.Proofs.Construction.Standing
import PatternMachine.Proofs.Pattern.Overclosed

namespace PatternMachine

namespace Role

variable {before : Role} {p : Cursor} {rest : List Cursor} {depth after : Nat} {token : Token}

theorem overclosed_untaken (untaken : (before.next p).token? p rest = none) :
    Cursor.Overclosed depth (p :: rest) ↔ Cursor.Overclosed depth rest := by
  apply Cursor.overclosed_silent
  · refine Bool.eq_false_iff.mpr fun opens => ?_
    rw [next_opening.mpr opens] at untaken
    cases untaken
  · refine Bool.eq_false_iff.mpr fun closes => ?_
    rw [next_closing.mpr closes] at untaken
    cases untaken

theorem overclosed_taken (taken : (before.next p).token? p rest = some token) (nests : token.Nests depth after) :
    Cursor.Overclosed depth (p :: rest) ↔ Cursor.Overclosed after rest := by
  cases role : before.next p with
  | opening =>
    rw [role] at taken
    cases taken
    cases nests
    exact Cursor.overclosed_opening (next_opening.mp role)
  | closing =>
    rw [role] at taken
    cases taken
    cases nests
    exact Cursor.overclosed_closing (next_closing.mp role)
  | bar | literal =>
    have silent : p.opens = false := Bool.eq_false_iff.mpr fun opens => by cases role.symm.trans (next_opening.mpr opens)
    have silent' : p.closes = false := Bool.eq_false_iff.mpr fun closes => by cases role.symm.trans (next_closing.mpr closes)
    rw [role] at taken
    cases taken
    cases nests
    exact Cursor.overclosed_silent silent silent'
  | escape | star | question | colon =>
    rw [role] at taken
    cases taken

theorem closes_of_taken {offset : Nat} {starred : Bool} (taken : (before.next p).token? p rest = some (.closing offset starred)) :
    p.closes = true := by
  apply next_closing.mp
  cases role : before.next p with
  | closing => rfl
  | _ => rw [role] at taken; cases taken

end Role

namespace Builder

variable {b : Builder}

theorem run_overclosed (stands : b.Stands) (table : CaptureTable) (before : Role) (cursors : List Cursor) :
    (Cursor.Overclosed b.outer.length cursors ∧
        b.run table (Cursor.tokens before cursors) = .error .noBranchEnd) ∨
      (¬Cursor.Overclosed b.outer.length cursors ∧
        ∃ b', b.run table (Cursor.tokens before cursors) = .ok b') := by
  induction cursors generalizing b before with
  | nil => exact .inr ⟨Cursor.overclosed_nil, b, rfl⟩
  | cons p rest ih =>
    rw [Cursor.tokens]
    cases taken : (before.next p).token? p rest with
    | none =>
      rw [Role.overclosed_untaken taken]
      exact ih stands (before.next p)
    | some token =>
      rw [Option.toList_some, List.singleton_append, run_cons]
      rcases step_stands stands table token with ⟨offset, starred, rfl, none_open, fault⟩ | ⟨next, stepped, stands', nests⟩
      · refine .inl ⟨?_, by rw [fault]; rfl⟩
        rw [none_open]
        exact Cursor.overclosed_outermost (Role.closes_of_taken taken)
      · rw [stepped, Role.overclosed_taken taken nests]
        exact ih stands' (before.next p)

theorem current_mem_branchEnds : b.level.current ∈ b.branchEnds :=
  List.mem_flatMap.mpr ⟨b.level, List.mem_append_right _ (List.mem_singleton.mpr rfl),
    List.mem_append_right _ (List.mem_singleton.mpr rfl)⟩

theorem Stands.sealed (stands : b.Stands) {table : CaptureTable} {anchors : Anchors} {a : Automaton}
    (finished : b.finish table anchors = .ok a) : a.Sealed ∧ a.defect? = none := by
  obtain ⟨arena, marked, sealing⟩ := bind_ok.mp finished
  have marked := checked_ok.mp marked
  have sealing := checked_ok.mp sealing
  have grown : arena.Grown := by
    apply stands.grown.performAll (b.branchEnds.map .markTerminal)
    rw [List.foldlM_map]
    exact marked
  have sealed : a.Sealed := ⟨arena, b.start, anchors, table.length, grown, sealing⟩
  obtain ⟨arena', marked', _, _, terminal⟩ := Arena.markTerminal_each stands.ends_live
  cases marked.symm.trans marked'
  obtain ⟨_, rfl⟩ := Arena.finish_ok.mp sealing
  exact ⟨sealed, sealed.sound_of_terminal ((terminal b.level.current).mpr (.inr current_mem_branchEnds))⟩

theorem scan_verdict (table : CaptureTable) (body : Text) :
    (body.Overclosed ∧ scan table body = .error .noBranchEnd) ∨
      ¬body.Overclosed ∧ ∃ b, scan table body = .ok b ∧ b.Stands := by
  have tokens : Token.ofText body = Cursor.tokens .bar body.cursors := Token.ofCursors_tokens .bar 0 body
  rw [Text.overclosed_iff, scan, tokens]
  rcases run_overclosed initial_stands table .bar body.cursors with ⟨exceeds, faulted⟩ | ⟨within, last, ran⟩
  · exact .inl ⟨exceeds, by rw [faulted]; rfl⟩
  · obtain ⟨b, flushed, stands, _⟩ := (run_stands initial_stands ran).flush
    exact .inr ⟨within, b, by rw [ran]; exact flushed, stands⟩

end Builder
end PatternMachine
