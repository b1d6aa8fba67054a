import PatternMachine.Proofs.Automaton.Tries
import PatternMachine.Proofs.Construction.Scan
import PatternMachine.Proofs.Pattern.Literals

namespace PatternMachine

def Edge.written (e : Edge) : Text × List Nat := (e.text, e.groups)

theorem bind_ok {x : Except ε α} {f : α → Except ε β} {result : β} :
    (x >>= f) = .ok result ↔ ∃ value, x = .ok value ∧ f value = .ok result := by
  cases x <;> simp [bind, Except.bind]

namespace Builder

theorem checked_ok {result : Except ArenaFault α} {value : α} : checked result = .ok value ↔ result = .ok value := by
  cases result <;> simp [checked, Except.mapError]

def labels (b : Builder) : List (Text × List Nat) := b.arena.edges.map Edge.written

-- From one builder to another over edges that are made under the captures now open and hold a text, with
-- nothing left pending.
structure Emits (b : Builder) (text : Text) (b' : Builder) : Prop where
  added : ∃ texts : List Text, b'.labels = b.labels ++ texts.map (·, b.captures) ∧ texts.flatten = text
  captures : b'.captures = b.captures
  flushed : b'.pending = []

variable {b b' b'' : Builder} {text more : Text}

namespace Emits

theorem nothing (flushed : b.pending = []) : b.Emits [] b := ⟨⟨[], by simp, rfl⟩, rfl, flushed⟩

theorem trans (first : b.Emits text b') (second : b'.Emits more b'') : b.Emits (text ++ more) b'' := by
  obtain ⟨⟨texts, labels, whole⟩, captures, _⟩ := first
  obtain ⟨⟨texts', labels', whole'⟩, captures', flushed⟩ := second
  refine ⟨⟨texts ++ texts', ?_, by simp [whole, whole']⟩, captures'.trans captures, flushed⟩
  rw [labels', labels, captures, List.map_append, List.append_assoc]

end Emits

theorem link_emits {origin destination : StateId} (linked : b.link origin destination text = .ok b')
    (flushed : b.pending = []) : b.Emits text b' := by
  obtain ⟨arena, added, same⟩ := bind_ok.mp linked
  obtain ⟨_, _, rfl⟩ := Arena.addEdge_ok.mp (checked_ok.mp added)
  cases same
  exact ⟨⟨[text], by simp [labels, Edge.written], by simp⟩, rfl, flushed⟩

theorem extend_emits (extended : b.extend text = .ok b') (flushed : b.pending = []) : b.Emits text b' := by
  obtain ⟨linked, ran, same⟩ := bind_ok.mp extended
  cases same
  have emits := link_emits ran flushed
  exact ⟨emits.added, emits.captures, emits.flushed⟩

theorem flush_emits (flushed : b.flush = .ok b') : b.Emits b.pending b' := by
  unfold flush at flushed
  split at flushed
  · rename_i empty
    cases flushed
    have nothing := List.isEmpty_iff.mp empty
    rw [nothing]
    exact .nothing nothing
  · have emits := extend_emits flushed rfl
    exact ⟨emits.added, emits.captures, emits.flushed⟩

theorem loopEntry_emits (entered : b.loopEntry = .ok b') (flushed : b.pending = []) : b.Emits [] b' := by
  unfold loopEntry at entered
  split at entered
  · exact extend_emits entered flushed
  · cases entered
    exact .nothing flushed

theorem approach_emits {starred : Bool} (approached : b.approach starred = .ok b') : b.Emits b.pending b' := by
  obtain ⟨next, flushed, entered⟩ := bind_ok.mp approached
  have emits := flush_emits flushed
  cases starred with
  | false =>
    cases entered
    exact emits
  | true => simpa using emits.trans (loopEntry_emits entered emits.flushed)

theorem star_emits {c : Char} (starred : b.star c = .ok b') : b.Emits (b.pending ++ [c]) b' := by
  rw [star_eq] at starred
  obtain ⟨next, approached, linked⟩ := bind_ok.mp starred
  have emits := approach_emits approached
  exact emits.trans (link_emits linked emits.flushed)

theorem absorb_emits {gone target : StateId} (absorbed : b.absorb gone target = .ok b') (flushed : b.pending = []) :
    b.Emits [] b' := by
  obtain ⟨middle, retargeted, absorbed⟩ := bind_ok.mp absorbed
  obtain ⟨arena, removed, same⟩ := bind_ok.mp absorbed
  obtain ⟨_, rfl⟩ := Arena.retargetIncoming_ok.mp (checked_ok.mp retargeted)
  obtain ⟨_, _, rfl⟩ := Arena.removeState_ok.mp (checked_ok.mp removed)
  cases same
  refine ⟨⟨[], ?_, rfl⟩, rfl, flushed⟩
  simp only [labels, List.map_map, List.map_nil, List.append_nil]
  refine List.map_congr_left fun e _ => ?_
  simp only [Function.comp_apply, Edge.written]
  split <;> rfl

theorem closeLoop_emits {ends : List StateId} (closed : b.closeLoop ends = .ok b') (flushed : b.pending = []) :
    b.Emits [] b' := by
  induction count : ends.length generalizing b ends with
  | zero =>
    cases List.eq_nil_of_length_eq_zero count
    rw [closeLoop] at closed
    cases closed
    exact ⟨⟨[], by simp [labels, setCurrent], rfl⟩, rfl, flushed⟩
  | succ n ih =>
    cases ends with
    | nil => cases count
    | cons id later =>
      have shorter : later.length = n := Nat.succ.inj count
      rw [closeLoop] at closed
      split at closed
      · exact ih closed flushed shorter
      · split at closed
        · split at closed
          · cases closed
          · rename_i linked ran
            have first := link_emits ran flushed
            exact first.trans (ih closed first.flushed shorter)
        · split at closed
          · cases closed
          · rename_i merged ran
            have first := absorb_emits ran flushed
            exact first.trans (ih closed first.flushed (by simpa using shorter))

theorem linkEach_emits {ends : List StateId} {target : StateId}
    (linked : ends.foldlM (fun b id => b.link id target []) b = .ok b') (flushed : b.pending = []) : b.Emits [] b' := by
  induction ends generalizing b with
  | nil =>
    cases linked
    exact .nothing flushed
  | cons id ends ih =>
    rw [List.foldlM_cons] at linked
    obtain ⟨next, first, rest⟩ := bind_ok.mp linked
    have emits := link_emits first flushed
    exact emits.trans (ih rest emits.flushed)

theorem join_emits {ends : List StateId} (joined : b.join ends = .ok b') (flushed : b.pending = []) : b.Emits [] b' := by
  unfold join at joined
  split at joined
  · cases joined
    exact ⟨⟨[], by simp [labels, setCurrent], rfl⟩, rfl, flushed⟩
  · obtain ⟨linked, ran, same⟩ := bind_ok.mp joined
    cases same
    have emits := linkEach_emits ran flushed
    exact ⟨emits.added, emits.captures, emits.flushed⟩

theorem leave_emits {table : CaptureTable} {offset : Nat} {starred : Bool}
    (left : b.closeGroup table offset starred = .ok b') : ∃ inner, b.Emits b.pending inner ∧ b'.labels = inner.labels ∧
      b'.captures = Token.around table inner.captures (.closing offset starred) ∧ b'.pending = [] := by
  rw [closeGroup_eq_leave] at left
  obtain ⟨flushed, ran, left⟩ := bind_ok.mp left
  obtain ⟨inner, closed, popped⟩ := bind_ok.mp left
  have first := flush_emits ran
  have second : flushed.Emits [] inner := by
    cases starred with
    | false => exact join_emits closed first.flushed
    | true => exact closeLoop_emits closed first.flushed
  have emits := first.trans second
  rw [List.append_nil] at emits
  refine ⟨inner, emits, ?_⟩
  split at popped
  · cases popped
  · cases popped
    exact ⟨rfl, rfl, emits.flushed⟩

structure Writes (table : CaptureTable) (b : Builder) (token : Token) (b' : Builder) : Prop where
  added : ∃ texts : List Text, b'.labels = b.labels ++ texts.map (·, b.captures) ∧
    texts.flatten ++ b'.pending = b.pending ++ token.text
  captures : b'.captures = token.around table b.captures
  settled : b'.pending = [] ∨ b'.captures = b.captures

theorem Emits.writes {table : CaptureTable} {token : Token} (inner : Builder) (emits : b.Emits (b.pending ++ token.text) inner)
    (labels : b'.labels = inner.labels) (captures : b'.captures = token.around table inner.captures)
    (flushed : b'.pending = []) : Writes table b token b' := by
  obtain ⟨⟨texts, labels', whole⟩, captures', _⟩ := emits
  refine ⟨⟨texts, labels.trans labels', ?_⟩, captures' ▸ captures, .inl flushed⟩
  rw [flushed, whole, List.append_nil]

theorem step_writes {table : CaptureTable} {token : Token} (stepped : b.step table token = .ok b') : Writes table b token b' := by
  cases token with
  | literal c starred =>
    cases starred with
    | false =>
      cases stepped
      exact ⟨⟨[], by simp [labels], rfl⟩, rfl, .inr rfl⟩
    | true =>
      have emits := star_emits stepped
      exact emits.writes b' rfl rfl emits.flushed
  | bar =>
    obtain ⟨inner, flushed, same⟩ := bind_ok.mp stepped
    cases same
    have emits : b.Emits (b.pending ++ []) inner := (List.append_nil _).symm ▸ flush_emits flushed
    exact emits.writes inner rfl rfl emits.flushed
  | opening offset starred =>
    rw [step, openGroup_eq] at stepped
    obtain ⟨inner, approached, same⟩ := bind_ok.mp stepped
    cases same
    have emits : b.Emits (b.pending ++ []) inner := (List.append_nil _).symm ▸ approach_emits approached
    exact emits.writes inner rfl rfl emits.flushed
  | closing offset starred =>
    obtain ⟨inner, emits, labels, captures, flushed⟩ := leave_emits stepped
    rw [← List.append_nil b.pending] at emits
    exact emits.writes inner labels captures flushed

def consumed (b : Builder) : Consumed := b.arena.edges.flatMap Edge.consumed ++ b.pending.map (·, b.captures)

theorem consumed_labels (b : Builder) : b.arena.edges.flatMap Edge.consumed =
    b.labels.flatMap fun label => label.1.map (·, label.2) := by
  rw [labels, List.flatMap_map]
  rfl

theorem Writes.consumed {table : CaptureTable} {token : Token} (writes : Writes table b token b') :
    b'.consumed = b.consumed ++ token.text.map (·, b.captures) := by
  obtain ⟨⟨texts, labels, whole⟩, _, settled⟩ := writes
  have pending : b'.pending.map (·, b'.captures) = b'.pending.map (·, b.captures) := by
    rcases settled with none | same
    · rw [none]
      rfl
    · rw [same]
  have edges : (texts.map (·, b.captures)).flatMap (fun label => label.1.map (·, label.2)) =
      texts.flatten.map (·, b.captures) := by
    rw [List.flatMap_map, List.map_flatten]
    rfl
  rw [Builder.consumed, Builder.consumed, consumed_labels, consumed_labels, labels, pending, List.flatMap_append, edges,
    List.append_assoc, ← List.map_append, whole, List.map_append, List.append_assoc]

theorem Writes.groups {table : CaptureTable} {token : Token} (writes : Writes table b token b') :
    ∀ e ∈ b'.arena.edges, e.groups = b.captures ∨ ∃ old ∈ b.arena.edges, e.groups = old.groups := by
  obtain ⟨⟨texts, labels, _⟩, _⟩ := writes
  intro e member
  have listed : e.written ∈ b'.labels := List.mem_map_of_mem member
  rw [labels] at listed
  rcases List.mem_append.mp listed with before | added
  · obtain ⟨old, present, same⟩ := List.mem_map.mp before
    exact .inr ⟨old, present, (congrArg Prod.snd same).symm⟩
  · obtain ⟨text, _, same⟩ := List.mem_map.mp added
    exact .inl (congrArg Prod.snd same).symm

-- A run writes the literals of its tokens, and every edge it makes stands under captures that were open together.
theorem run_writes {table : CaptureTable} {tokens : List Token} (ran : b.run table tokens = .ok b') :
    b'.consumed = b.consumed ++ Token.consumed table b.captures tokens ∧
      b'.captures ∈ Token.held table b.captures tokens ∧
      ∀ e ∈ b'.arena.edges, e.groups ∈ Token.held table b.captures tokens ∨ ∃ old ∈ b.arena.edges, e.groups = old.groups := by
  induction tokens generalizing b with
  | nil =>
    cases ran
    exact ⟨(List.append_nil _).symm, List.mem_singleton.mpr rfl, fun e member => .inr ⟨e, member, rfl⟩⟩
  | cons token rest ih =>
    obtain ⟨next, stepped, ran⟩ := bind_ok.mp ran
    have writes := step_writes stepped
    obtain ⟨consumed, captures, groups⟩ := ih ran
    rw [writes.captures] at consumed captures groups
    refine ⟨?_, List.mem_cons_of_mem _ captures, fun e member => ?_⟩
    · rw [consumed, writes.consumed, List.append_assoc]
      rfl
    · rcases groups e member with listed | ⟨old, present, same⟩
      · exact .inl (List.mem_cons_of_mem _ listed)
      · rw [same]
        refine (writes.groups old present).imp (fun now => ?_) id
        rw [now]
        exact List.mem_cons_self

theorem scan_writes {table : CaptureTable} {body : Text} (scanned : scan table body = .ok b) :
    b.arena.edges.flatMap Edge.consumed = Token.consumed table [] (Token.ofText body) ∧
      ∀ e ∈ b.arena.edges, e.groups ∈ Token.held table [] (Token.ofText body) := by
  obtain ⟨last, ran, flushed⟩ := bind_ok.mp scanned
  obtain ⟨consumed, captures, groups⟩ := run_writes ran
  have emits : last.Emits (last.pending ++ []) b := (List.append_nil _).symm ▸ flush_emits flushed
  have writes : Writes table last .bar b := emits.writes b rfl rfl emits.flushed
  constructor
  · have whole := writes.consumed
    rw [Builder.consumed, emits.flushed, consumed] at whole
    simpa [Token.text, Builder.consumed, initial, Arena.empty, Arena.addState] using whole
  · intro e member
    rcases writes.groups e member with now | ⟨old, present, same⟩
    · rw [now]
      exact captures
    · rw [same]
      rcases groups old present with listed | ⟨_, none, _⟩
      · exact listed
      · cases none

end Builder
end PatternMachine
