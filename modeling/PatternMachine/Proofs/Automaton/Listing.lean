import PatternMachine.Automaton.Listing
import PatternMachine.Proofs.Automaton.Editing
import PatternMachine.Proofs.Text.Painted

namespace PatternMachine

open Decimal Text

section

variable {n m : Nat} {ns ms : List Nat} {a b : Automaton} {e f : Edge}

theorem indices_unique
    (same : joinWith [',', ' '] ((n :: ns).map digits) ++ [']'] = joinWith [',', ' '] ((m :: ms).map digits) ++ [']']) :
    n :: ns = m :: ms := by
  have split : ∀ n m ns, joinWith [',', ' '] ((n :: m :: ns).map digits) ++ [']'] =
      digits n ++ ',' :: ' ' :: (joinWith [',', ' '] ((m :: ns).map digits) ++ [']']) := by
    intro n m ns
    rw [List.map_cons, List.map_cons, joinWith, List.append_assoc, List.append_assoc]
    rfl
  induction ns generalizing n m ms with
  | nil =>
    cases ms with
    | nil => rw [(digits_unique rfl rfl same).1]
    | cons k ms =>
      rw [split] at same
      exact absurd (digits_unique rfl rfl same).2 (by simp)
  | cons k ns ih =>
    rw [split] at same
    cases ms with
    | nil => exact absurd (digits_unique rfl rfl same).2 (by simp)
    | cons l ms =>
      rw [split] at same
      obtain ⟨rfl, behind⟩ := digits_unique rfl rfl same
      rw [ih (List.cons.inj (List.cons.inj behind).2).2]

theorem indexList_injective : Function.Injective indexList := by
  -- A digit comes first unless the list is empty.
  have some : ∀ n ns, joinWith [',', ' '] ((n :: ns).map digits) ++ [']'] ≠ [']'] := by
    intro n ns same
    have empty := List.append_cancel_right (show _ ++ [']'] = [] ++ [']'] from same)
    cases ns with
    | nil => exact digits_nonempty n empty
    | cons m ns => exact digits_nonempty n (List.append_eq_nil_iff.mp (List.append_eq_nil_iff.mp empty).1).1
  intro ns ms same
  have inner := (List.cons.inj same).2
  cases ns with
  | nil =>
    cases ms with
    | nil => rfl
    | cons m ms => exact (some m ms inner.symm).elim
  | cons n ns =>
    cases ms with
    | nil => exact (some n ns inner).elim
    | cons m ms => exact indices_unique inner

theorem clear_indices (ns : List Nat) : Clear (joinWith [',', ' '] (ns.map digits)) := by
  induction ns with
  | nil => exact List.forall_mem_nil _
  | cons n ns ih =>
    cases ns with
    | nil => exact clear_digits n
    | cons m ns =>
      have comma : Clear [',', ' '] := by decide
      exact clear_append.mpr ⟨clear_append.mpr ⟨clear_digits n, comma⟩, ih⟩

theorem clear_indexList (ns : List Nat) : Clear (indexList ns) := by
  have opening : Clear ['['] := by decide
  have closing : Clear [']'] := by decide
  exact clear_append.mpr ⟨clear_append.mpr ⟨opening, clear_indices ns⟩, closing⟩

theorem Edge.label_painted (e : Edge) : PaintedLine (e.label .on) (e.label .off) := by
  have dim : Palette.on.dim ∈ Palette.on.sequences := by decide
  have green : Palette.on.green ∈ Palette.on.sequences := by decide
  have gap : Clear [' ', ' '] := by decide
  have epsilon : Clear ['ε'] := by decide
  have captures := PaintedLine.paint dim (clear_indexList e.groups)
  unfold Edge.label
  split
  · split
    · exact .paint dim epsilon
    · exact ((PaintedLine.paint dim epsilon).append (.plain gap)).append captures
  · split
    · exact .paint green (clear_quote e.text)
    · exact ((PaintedLine.paint green (clear_quote e.text)).append (.plain gap)).append captures

def captureColumn (groups : List Nat) : Text := if groups.isEmpty then [] else ' ' :: ' ' :: indexList groups

theorem captureColumn_injective : Function.Injective captureColumn := by
  intro ns ms same
  cases ns with
  | nil =>
    cases ms with
    | nil => rfl
    | cons m ms => cases same
  | cons n ns =>
    cases ms with
    | nil => cases same
    | cons m ms => exact indexList_injective (List.cons.inj (List.cons.inj same).2).2

theorem Edge.label_off (e : Edge) :
    e.label .off = (if e.isEmpty then ['ε'] else quote e.text) ++ captureColumn e.groups := by
  have dim : Palette.off.dim = [] := rfl
  have green : Palette.off.green = [] := rfl
  unfold Edge.label captureColumn
  rw [dim, green, Palette.off_paint, Palette.off_paint, Palette.off_paint]
  cases e.groups.isEmpty with
  | true => exact (List.append_nil _).symm
  | false => exact List.append_assoc _ _ _

theorem Edge.label_unique (same : e.label .off = f.label .off) : e.text = f.text ∧ e.groups = f.groups := by
  rw [e.label_off, f.label_off] at same
  unfold Edge.isEmpty at same
  split at same
  · rename_i empty
    split at same
    · rename_i empty'
      rw [List.isEmpty_iff.mp empty, List.isEmpty_iff.mp empty']
      exact ⟨rfl, captureColumn_injective (List.cons.inj same).2⟩
    · exact absurd (List.cons.inj same).1 (by decide)
  · split at same
    · exact absurd (List.cons.inj same).1 (by decide)
    · obtain ⟨text, behind⟩ := quote_unique same
      exact ⟨text, captureColumn_injective behind⟩

end

namespace Automaton

section

variable {a b : Automaton} {e f : Edge}

theorem edgeLine_painted (a : Automaton) (e : Edge) : PaintedLine (a.edgeLine .on e) (a.edgeLine .off e) := by
  have arrow : Clear " -> ".toList := by decide
  have gap : Clear [' ', ' '] := by decide
  have column : ∀ n, Clear (alignRight a.idWidth (digits n)) := fun n => clear_alignRight (clear_digits n) _
  have front := clear_append.mpr ⟨clear_append.mpr ⟨clear_append.mpr ⟨column e.origin, arrow⟩, column e.destination⟩, gap⟩
  exact (Painted.plain front).append e.label_painted

theorem edgeLine_injective (a : Automaton) : Function.Injective (a.edgeLine .off) := by
  intro e f same
  unfold edgeLine at same
  simp only [List.append_assoc] at same
  obtain ⟨origin, arrow⟩ := alignRight_unique same
  have numbers := List.append_cancel_left (show ['-', '>', ' '] ++ _ = ['-', '>', ' '] ++ _ from arrow)
  obtain ⟨destination, gap⟩ := alignRight_unique numbers
  obtain ⟨text, groups⟩ := Edge.label_unique (List.cons.inj gap).2
  cases e
  cases f
  cases origin; cases destination; cases text; cases groups
  rfl

theorem edgeLine_width (width : a.idWidth = b.idWidth) (p : Palette) : a.edgeLine p = b.edgeLine p := by
  funext e
  unfold edgeLine
  rw [width]

def marks (isStart isEnd : Bool) : Text :=
  (if isStart then ' ' :: "[start]".toList else []) ++ (if isEnd then ' ' :: "[end]".toList else [])

theorem marks_unique : ∀ isStart isEnd isStart' isEnd', marks isStart isEnd = marks isStart' isEnd' →
    isStart = isStart' ∧ isEnd = isEnd' := by
  decide

theorem stateLine_off (a : Automaton) (state : State) :
    a.stateLine .off state = alignRight a.idWidth (digits state.id) ++ marks (state.id == a.start) state.terminal := by
  have blue : Palette.off.blue = [] := rfl
  simp only [stateLine, marks, blue, Palette.off_paint, List.append_assoc]

theorem stateLine_painted (a : Automaton) (state : State) : PaintedLine (a.stateLine .on state) (a.stateLine .off state) := by
  have blue : Palette.on.blue ∈ Palette.on.sequences := by decide
  have marker : ∀ (shown : Bool) (name : Text), Clear name →
      PaintedLine (if shown then ' ' :: Palette.on.paint Palette.on.blue name else [])
        (if shown then ' ' :: Palette.off.paint Palette.off.blue name else []) := by
    intro shown name clear
    cases shown with
    | true => exact .char (Char.le_refl _) (PaintedLine.paint blue clear)
    | false => exact .nil
  have id : Clear (alignRight a.idWidth (digits state.id)) := clear_alignRight (clear_digits _) _
  exact ((Painted.plain id).append (marker _ _ (by decide))).append (marker _ _ (by decide))

theorem stateLine_unique {state state' : State} (width : a.idWidth = b.idWidth) (id : state.id = state'.id)
    (same : a.stateLine .off state = b.stateLine .off state') :
    (state.id == a.start) = (state'.id == b.start) ∧ state.terminal = state'.terminal := by
  rw [stateLine_off, stateLine_off, width, id] at same
  rw [id]
  exact marks_unique _ _ _ _ (List.append_cancel_left same)

theorem stateLine_nonempty (a : Automaton) (state : State) : a.stateLine .off state ≠ [] := by
  rw [stateLine_off]
  intro empty
  exact digits_nonempty state.id (List.append_eq_nil_iff.mp (List.append_eq_nil_iff.mp empty).1).2

theorem headerLines_unique (same : a.headerLines .off = b.headerLines .off) :
    a.anchors = b.anchors ∧ a.groupCount = b.groupCount := by
  obtain ⟨anchors, groups⟩ := List.cons.inj (List.cons.inj same).2
  refine ⟨?_, digits_injective (List.append_cancel_left (List.cons.inj groups).1)⟩
  have apart : ∀ fixedStart fixedEnd fixedStart' fixedEnd', (Anchors.mk fixedStart fixedEnd).listing =
      (Anchors.mk fixedStart' fixedEnd').listing → Anchors.mk fixedStart fixedEnd = Anchors.mk fixedStart' fixedEnd' := by
    decide
  exact apart _ _ _ _ (List.append_cancel_left anchors)

theorem headerLines_painted (a : Automaton) : List.Forall₂ PaintedLine (a.headerLines .on) (a.headerLines .off) := by
  have blue : Palette.on.blue ∈ Palette.on.sequences := by decide
  have anchors : Clear ("anchors ".toList ++ a.anchors.listing) := by
    have shown : ∀ fixedStart fixedEnd, Clear ("anchors ".toList ++ (Anchors.mk fixedStart fixedEnd).listing) := by decide
    exact shown _ _
  have groups : Clear ("groups  ".toList ++ digits a.groupCount) := clear_append.mpr ⟨by decide, clear_digits _⟩
  exact .cons (PaintedLine.paint blue (by decide)) (.cons (.plain anchors) (.cons (.plain groups) .nil))

theorem listingLines_painted (a : Automaton) : List.Forall₂ PaintedLine (a.listingLines .on) (a.listingLines .off) := by
  have blue : Palette.on.blue ∈ Palette.on.sequences := by decide
  have blank : List.Forall₂ PaintedLine [[]] [[]] := .cons .nil .nil
  have heading : ∀ name, Clear name →
      PaintedLine (Palette.on.paint Palette.on.blue name) (Palette.off.paint Palette.off.blue name) :=
    fun _ clear => .paint blue clear
  have states := List.Forall₂.cons (heading "[states]".toList (by decide)) (PaintedLine.each a.stateLine_painted a.states)
  have edges := List.Forall₂.cons (heading "[edges]".toList (by decide)) (PaintedLine.each a.edgeLine_painted a.edges)
  exact List.rel_append (List.rel_append (List.rel_append (List.rel_append a.headerLines_painted blank) states) blank) edges

theorem ended_unique {lines lines' : List Text} (clear : ∀ line ∈ lines, Clear line) (clear' : ∀ line ∈ lines', Clear line)
    (same : lines.flatMap (· ++ ['\n']) = lines'.flatMap (· ++ ['\n'])) : lines = lines' := by
  induction lines generalizing lines' with
  | nil =>
    cases lines' with
    | nil => rfl
    | cons line' lines' => simp at same
  | cons line lines ih =>
    cases lines' with
    | nil => simp at same
    | cons line' lines' =>
      obtain ⟨here, later⟩ := List.forall_mem_cons.mp clear
      obtain ⟨here', later'⟩ := List.forall_mem_cons.mp clear'
      rw [List.flatMap_cons, List.flatMap_cons, List.append_assoc, List.append_assoc] at same
      obtain ⟨rfl, behind⟩ := front_unique here here' (by decide) (by decide) same
      rw [ih later later' (List.cons.inj behind).2]

theorem listingLines_unique (same : a.listingLines .off = b.listingLines .off) :
    a.headerLines .off = b.headerLines .off ∧ a.states.map (a.stateLine .off) = b.states.map (b.stateLine .off) ∧
      a.edges.map (a.edgeLine .off) = b.edges.map (b.edgeLine .off) := by
  have header : ∀ (a : Automaton), ∀ line ∈ a.headerLines .off, line ≠ [] := by
    intro a
    refine List.forall_mem_cons.mpr ⟨by decide, List.forall_mem_cons.mpr ⟨?_, List.forall_mem_singleton.mpr ?_⟩⟩ <;>
      exact List.cons_ne_nil _ _
  have states : ∀ (a : Automaton), ∀ line ∈ "[states]".toList :: a.states.map (a.stateLine .off), line ≠ [] := by
    intro a
    refine List.forall_mem_cons.mpr ⟨by decide, List.forall_mem_map.mpr fun state _ => a.stateLine_nonempty state⟩
  unfold listingLines at same
  simp only [List.append_assoc] at same
  obtain ⟨headers, behind⟩ := front_unique (header a) (header b) (not_not.mpr rfl) (not_not.mpr rfl) same
  obtain ⟨lines, later⟩ := front_unique (states a) (states b) (not_not.mpr rfl) (not_not.mpr rfl) (List.cons.inj behind).2
  exact ⟨headers, (List.cons.inj lines).2, (List.cons.inj (List.cons.inj later).2).2⟩

end

theorem Sealed.states_unique {a b : Automaton} (sealed : a.Sealed) (sealed' : b.Sealed)
    (same : a.states.map (a.stateLine .off) = b.states.map (b.stateLine .off)) :
    a.states.length = b.states.length ∧ a.start = b.start ∧ a.states = b.states := by
  have count : a.states.length = b.states.length := by simpa using congrArg List.length same
  have each : ∀ i (inside : i < a.states.length) (inside' : i < b.states.length),
      (i == a.start) = (i == b.start) ∧ a.states[i].terminal = b.states[i].terminal := by
    intro i inside inside'
    have line := List.getElem_of_eq same (i := i) (by simpa using inside)
    rw [List.getElem_map, List.getElem_map] at line
    have shown := stateLine_unique (congrArg widthForCount count) (by rw [sealed.dense, sealed'.dense]) line
    rw [sealed.dense, sealed'.dense] at shown
    exact shown
  refine ⟨count, ?_, ?_⟩
  · have marked := (each a.start sealed.start_live (count ▸ sealed.start_live)).1
    rw [beq_self_eq_true] at marked
    exact beq_iff_eq.mp marked.symm
  · apply List.ext_getElem count
    intro i inside inside'
    have id := (sealed.dense i inside).trans (sealed'.dense i inside').symm
    exact (State.mk.injEq _ _ _ _).mpr ⟨id, (each i inside inside').2⟩

theorem Sealed.listing_injective {a b : Automaton} (sealed : a.Sealed) (sealed' : b.Sealed)
    (same : a.listing .off = b.listing .off) : a = b := by
  have lines := ended_unique (PaintedLine.clear_lines a.listingLines_painted) (PaintedLine.clear_lines b.listingLines_painted) same
  obtain ⟨header, states, edges⟩ := listingLines_unique lines
  obtain ⟨anchors, groups⟩ := headerLines_unique header
  obtain ⟨count, start, states⟩ := sealed.states_unique sealed' states
  rw [← edgeLine_width (congrArg widthForCount count)] at edges
  have edges := List.map_injective_iff.mpr a.edgeLine_injective edges
  cases a
  cases b
  cases anchors; cases groups; cases start; cases states; cases edges
  rfl

theorem listing_painted (a : Automaton) : Painted (· ≠ Palette.escape) Palette.on.sequences (a.listing .on) (a.listing .off) :=
  PaintedLine.ended a.listingLines_painted

-- A listing without color tells the automaton, and a colored one tells the same once its five color sequences are deleted,
-- all at once or one after the other.
theorem listing_faithful :
    (∀ a b : Automaton, a.Sealed → b.Sealed → a.listing .off = b.listing .off →
      a.states = b.states ∧ a.start = b.start ∧ a.anchors = b.anchors ∧ a.groupCount = b.groupCount ∧ a.edges = b.edges) ∧
    ∀ a : Automaton, (a.listing .on).without Palette.on.sequences = a.listing .off ∧
      ∀ order : List Text, order.Perm Palette.on.sequences →
        order.foldl (fun s sequence => s.without [sequence]) (a.listing .on) = a.listing .off := by
  refine ⟨?_, ?_⟩
  · intro a b sealed sealed' same
    rw [sealed.listing_injective sealed' same]
    exact ⟨rfl, rfl, rfl, rfl, rfl⟩
  · intro a
    exact ⟨a.listing_painted.deleted (not_not.mpr rfl), fun order all => a.listing_painted.deleted_each (not_not.mpr rfl) all⟩

-- A text that reads like the end of its label, with a line break and a color in it, and the same text as it is quoted.
def quoting : Automaton :=
  ⟨[⟨0, false⟩, ⟨1, true⟩], [⟨0, 1, "\"  [0]\n\x1b[34m".toList, [0]⟩, ⟨1, 0, [], []⟩], 0, ⟨true, false⟩, 1⟩

def quoted : Automaton := { quoting with edges := [⟨0, 1, "\\\"  [0]\\n\\u\x7b1b\x7d[34m".toList, [0]⟩, ⟨1, 0, [], []⟩] }

theorem quoting_sealed : quoting.Sealed :=
  ⟨⟨quoting.states, quoting.edges⟩, 0, ⟨true, false⟩, 1,
    Arena.Grown.empty.performAll [.addState, .addState, .addEdge ⟨0, 1, "\"  [0]\n\x1b[34m".toList, [0]⟩,
      .addEdge ⟨1, 0, [], []⟩, .markTerminal 1] rfl, rfl⟩

theorem quoted_sealed : quoted.Sealed :=
  ⟨⟨quoted.states, quoted.edges⟩, 0, ⟨true, false⟩, 1,
    Arena.Grown.empty.performAll [.addState, .addState, .addEdge ⟨0, 1, "\\\"  [0]\\n\\u\x7b1b\x7d[34m".toList, [0]⟩,
      .addEdge ⟨1, 0, [], []⟩, .markTerminal 1] rfl, rfl⟩

theorem listing_faithful_quoting :
    quoting.Sealed ∧ quoted.Sealed ∧ quoting.listing .off ≠ quoted.listing .off ∧
    (∃ a : Automaton, a.Sealed ∧ quoting.listing .off = a.listing .off ∧ quoting.edges = a.edges) ∧
    (quoting.listing .on).without Palette.on.sequences = quoting.listing .off := by
  obtain ⟨told, shown⟩ := listing_faithful
  refine ⟨quoting_sealed, quoted_sealed, ?_, ⟨quoting, quoting_sealed, rfl, ?_⟩, (shown quoting).1⟩
  · intro same
    have edges := (told quoting quoted quoting_sealed quoted_sealed same).2.2.2.2
    exact absurd edges (by decide)
  · exact (told quoting quoting quoting_sealed quoting_sealed rfl).2.2.2.2

example : String.ofList (quoting.listing .off) =
    "[automaton]\nanchors ^\ngroups  1\n\n[states]\n0 [start]\n1 [end]\n\n[edges]\n" ++
    "0 -> 1  \"\\\"  [0]\\n\\u\x7b1b\x7d[34m\"  [0]\n1 -> 0  ε\n" := by cbv

end Automaton
end PatternMachine
