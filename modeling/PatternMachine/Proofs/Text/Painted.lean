import PatternMachine.Text.Palette
import PatternMachine.Proofs.Text.Written
import Mathlib.Data.List.Forall2

namespace PatternMachine

-- A text without the occurrences of some sequences, looked for from the left. `skip` characters belong to the one found last.
def Text.withoutFrom (sequences : List Text) : Nat → Text → Text
  | _, [] => []
  | skip + 1, _ :: rest => withoutFrom sequences skip rest
  | 0, c :: rest =>
    match sequences.find? fun sequence => !sequence.isEmpty && sequence.isPrefixOf (c :: rest) with
    | some sequence => withoutFrom sequences (sequence.length - 1) rest
    | none => c :: withoutFrom sequences 0 rest

def Text.without (s : Text) (sequences : List Text) : Text := withoutFrom sequences 0 s

namespace Palette

def sequences (p : Palette) : List Text := [p.blue, p.green, p.dim, p.red, p.reset]

def escape : Char := '\x1b'

theorem on_sequences : ∀ sequence ∈ on.sequences, sequence = escape :: sequence.tail ∧ Text.Clear sequence.tail := by decide

theorem on_sequences_apart {sequence other after : Text} (member : sequence ∈ on.sequences) (member' : other ∈ on.sequences)
    (begins : sequence <+: other ++ after) : sequence = other := by
  have apart : ∀ sequence ∈ on.sequences, ∀ other ∈ on.sequences, sequence <+: other → sequence = other := by decide
  rcases List.prefix_or_prefix_of_prefix begins (List.prefix_append other after) with inside | around
  · exact apart _ member _ member' inside
  · exact (apart _ member' _ member around).symm

theorem off_paint (s : Text) : off.paint [] s = s := List.append_nil s

end Palette

open Palette (escape)

-- A text beside what is shown of it once the sequences of `kept` that stand in it have switched colors.
inductive Painted (shown : Char → Prop) (kept : List Text) : Text → Text → Prop where
  | nil : Painted shown kept [] []
  | char : shown c → Painted shown kept s t → Painted shown kept (c :: s) (c :: t)
  | switch {sequence : Text} : sequence ∈ kept → Painted shown kept s t → Painted shown kept (sequence ++ s) t

namespace Painted

variable {shown shown' : Char → Prop} {kept gone order : List Text} {s t s' t' front : Text} {sequence : Text}

theorem append (painted : Painted shown kept s t) (painted' : Painted shown kept s' t') :
    Painted shown kept (s ++ s') (t ++ t') := by
  induction painted with
  | nil => exact painted'
  | char here _ ih => exact .char here ih
  | @switch sequence s _ member _ ih =>
    rw [List.append_assoc]
    exact .switch member ih

theorem plain (within : ∀ c ∈ s, shown c) : Painted shown kept s s := by
  induction s with
  | nil => exact .nil
  | cons c s ih =>
    obtain ⟨here, later⟩ := List.forall_mem_cons.mp within
    exact .char here (ih later)

theorem within (painted : Painted shown kept s t) : ∀ c ∈ t, shown c := by
  induction painted with
  | nil => exact List.forall_mem_nil _
  | char here _ ih => exact List.forall_mem_cons.mpr ⟨here, ih⟩
  | switch _ _ ih => exact ih

theorem mono (painted : Painted shown kept s t) (wider : ∀ c, shown c → shown' c) : Painted shown' kept s t := by
  induction painted with
  | nil => exact .nil
  | char here _ ih => exact .char (wider _ here) ih
  | switch member _ ih => exact .switch member ih

theorem unswitched (painted : Painted shown [] s t) : s = t := by
  generalize none : ([] : List Text) = kept at painted
  induction painted with
  | nil => rfl
  | char _ _ ih => rw [ih]
  | switch member _ _ =>
    rw [← none] at member
    cases member

theorem without_shown (codes : gone ⊆ Palette.on.sequences) (shown : ∀ c ∈ front, c ≠ escape) (s : Text) :
    (front ++ s).without gone = front ++ s.without gone := by
  induction front with
  | nil => rfl
  | cons c front ih =>
    obtain ⟨here, later⟩ := List.forall_mem_cons.mp shown
    have none : gone.find? (fun sequence => !sequence.isEmpty && sequence.isPrefixOf (c :: (front ++ s))) = none := by
      apply List.find?_eq_none.mpr
      intro sequence member found
      obtain ⟨after, same⟩ := List.isPrefixOf_iff_prefix.mp (Bool.and_eq_true _ _ ▸ found).2
      rw [(Palette.on_sequences sequence (codes member)).1] at same
      exact here (List.cons.inj same).1.symm
    rw [Text.without, List.cons_append, Text.withoutFrom, none]
    exact congrArg (c :: ·) (ih later)

theorem withoutFrom_skip (gone : List Text) (front s : Text) :
    Text.withoutFrom gone front.length (front ++ s) = s.without gone := by
  induction front with
  | nil => rfl
  | cons c front ih => exact ih

theorem without_switch (codes : gone ⊆ Palette.on.sequences) (member : sequence ∈ Palette.on.sequences) (s : Text) :
    (sequence ++ s).without gone = if sequence ∈ gone then s.without gone else sequence ++ s.without gone := by
  obtain ⟨begins, shown⟩ := Palette.on_sequences sequence member
  have whole : sequence ++ s = escape :: (sequence.tail ++ s) := congrArg (· ++ s) begins
  have same : ∀ other ∈ gone, (!other.isEmpty && other.isPrefixOf (escape :: (sequence.tail ++ s))) = true →
      other = sequence := by
    intro other present found
    have front := List.isPrefixOf_iff_prefix.mp (Bool.and_eq_true _ _ ▸ found).2
    exact Palette.on_sequences_apart (codes present) member (whole ▸ front)
  have itself : (!sequence.isEmpty && sequence.isPrefixOf (escape :: (sequence.tail ++ s))) = true := by
    have front : sequence.isPrefixOf (escape :: (sequence.tail ++ s)) = true :=
      List.isPrefixOf_iff_prefix.mpr (whole ▸ List.prefix_append sequence s)
    rw [front, begins]
    rfl
  rw [whole, Text.without, Text.withoutFrom]
  split
  · rename_i other found
    have present := List.mem_of_find?_eq_some found
    have reads := List.find?_some found
    obtain rfl := same other present reads
    rw [if_pos present, ← List.length_tail]
    exact withoutFrom_skip gone other.tail s
  · rename_i none
    have absent : sequence ∉ gone := fun present => List.find?_eq_none.mp none sequence present itself
    have tail : ∀ c ∈ sequence.tail, c ≠ escape := by
      intro c inside equal
      have bound := shown c inside
      rw [equal] at bound
      exact absurd bound (by decide)
    rw [if_neg absent]
    exact (congrArg (escape :: ·) (without_shown codes tail s)).trans (congrArg (· ++ s.without gone) begins).symm

section

variable (outside : ¬shown escape)
include outside

theorem without (painted : Painted shown kept s t) (codes : gone ⊆ Palette.on.sequences)
    (kept_codes : kept ⊆ Palette.on.sequences) : Painted shown (kept.filter (· ∉ gone)) (s.without gone) t := by
  induction painted with
  | nil => exact .nil
  | @char c s _ here _ ih =>
    have apart : c ≠ escape := fun same => outside (same ▸ here)
    have passed : Text.without (c :: s) gone = c :: s.without gone :=
      without_shown codes (List.forall_mem_singleton.mpr apart) s
    rw [passed]
    exact .char here ih
  | @switch sequence s _ member _ ih =>
    rw [without_switch codes (kept_codes member)]
    split
    · exact ih
    · rename_i absent
      exact .switch (List.mem_filter.mpr ⟨member, by simpa using absent⟩) ih

theorem without_each (painted : Painted shown kept s t) (codes : order ⊆ Palette.on.sequences)
    (kept_codes : kept ⊆ Palette.on.sequences) :
    Painted shown (kept.filter (· ∉ order)) (order.foldl (fun s sequence => s.without [sequence]) s) t := by
  induction order generalizing kept s with
  | nil =>
    have all : kept.filter (· ∉ ([] : List Text)) = kept := List.filter_eq_self.mpr fun _ _ => by simp
    rw [all]
    exact painted
  | cons sequence order ih =>
    obtain ⟨here, later⟩ := List.cons_subset.mp codes
    have first := painted.without outside (List.cons_subset.mpr ⟨here, List.nil_subset _⟩) kept_codes
    have rest := ih first later fun other member => kept_codes (List.mem_filter.mp member).1
    have same : (kept.filter (· ∉ [sequence])).filter (· ∉ order) = kept.filter (· ∉ sequence :: order) := by
      rw [List.filter_filter]
      exact List.filter_congr fun other _ => by simp [Bool.and_comm]
    rw [same] at rest
    exact rest

theorem deleted (painted : Painted shown Palette.on.sequences s t) : s.without Palette.on.sequences = t := by
  have none := painted.without outside (List.Subset.refl _) (List.Subset.refl _)
  have empty : Palette.on.sequences.filter (· ∉ Palette.on.sequences) = [] := by simp
  rw [empty] at none
  exact none.unswitched

theorem deleted_each (painted : Painted shown Palette.on.sequences s t) (all : order.Perm Palette.on.sequences) :
    order.foldl (fun s sequence => s.without [sequence]) s = t := by
  have none := painted.without_each outside all.subset (List.Subset.refl _)
  have empty : Palette.on.sequences.filter (· ∉ order) = [] :=
    List.filter_eq_nil_iff.mpr fun sequence member => by simpa using all.symm.subset member
  rw [empty] at none
  exact none.unswitched

end

end Painted

abbrev PaintedLine : Text → Text → Prop := Painted (' ' ≤ ·) Palette.on.sequences

namespace PaintedLine

variable {s t : Text} {lines lines' : List Text}

theorem uncolored (clear : Text.Clear s) : PaintedLine s s := .plain clear

theorem paint {color : Text} (member : color ∈ Palette.on.sequences) (clear : Text.Clear s) :
    PaintedLine (Palette.on.paint color s) (Palette.off.paint [] s) := by
  have reset : Palette.on.reset ∈ Palette.on.sequences := by decide
  have painted : PaintedLine (color ++ (s ++ (Palette.on.reset ++ []))) (s ++ []) :=
    .switch member (Painted.append (uncolored clear) (.switch reset .nil))
  rw [List.append_nil, ← List.append_assoc] at painted
  exact painted

theorem deleted (painted : PaintedLine s t) : s.without Palette.on.sequences = t := Painted.deleted (by decide) painted

theorem unbroken (painted : PaintedLine s t) : '\n' ∉ s := by
  induction painted with
  | nil => exact List.not_mem_nil
  | char shown _ ih => exact List.not_mem_cons_of_ne_of_not_mem (fun same => absurd (same ▸ shown) (by decide)) ih
  | switch member _ ih =>
    have apart : ∀ sequence ∈ Palette.on.sequences, '\n' ∉ sequence := by decide
    exact List.not_mem_append (apart _ member) ih

theorem each {α : Type} {line line' : α → Text} (painted : ∀ x, PaintedLine (line x) (line' x)) (xs : List α) :
    List.Forall₂ PaintedLine (xs.map line) (xs.map line') :=
  List.forall₂_map_left_iff.mpr (List.forall₂_map_right_iff.mpr (List.forall₂_same.mpr fun x _ => painted x))

theorem clear_lines (painted : List.Forall₂ PaintedLine lines lines') : ∀ line ∈ lines', Text.Clear line := by
  induction painted with
  | nil => exact List.forall_mem_nil _
  | cons line _ ih => exact List.forall_mem_cons.mpr ⟨Painted.within line, ih⟩

theorem ended (painted : List.Forall₂ PaintedLine lines lines') :
    Painted (· ≠ escape) Palette.on.sequences (lines.flatMap (· ++ ['\n'])) (lines'.flatMap (· ++ ['\n'])) := by
  have shown : ∀ c, ' ' ≤ c → c ≠ escape := fun c shown same => absurd (same ▸ shown) (by decide)
  have last : Painted (· ≠ escape) Palette.on.sequences ['\n'] ['\n'] := .char (by decide) .nil
  induction painted with
  | nil => exact .nil
  | cons line _ ih => exact ((Painted.mono line shown).append last).append ih

end PaintedLine
end PatternMachine
