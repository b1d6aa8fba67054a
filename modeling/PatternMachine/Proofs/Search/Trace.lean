import PatternMachine.Regex
import PatternMachine.Proofs.Automaton.Listing
import PatternMachine.Proofs.Search.Replay

namespace PatternMachine

open Decimal Text

def Event.advances : Event → Bool
  | .start _ | .edge _ _ | .backtrack _ _ | .accept _ _ => true
  | .reject _ _ | .revisit _ _ | .deadEnd _ _ => false

theorem Verbosity.standard_shows : Verbosity.standard.shows = Event.advances := by
  funext event
  cases event <;> rfl

theorem Verbosity.verbose_shows : Verbosity.verbose.shows = fun _ => true := by
  funext event
  cases event <;> rfl

def Verbosity.print (verbosity : Verbosity) (width : Nat) (p : Palette) (lines : List Text) (event : Event) : List Text :=
  if verbosity.shows event then lines ++ [event.line width p] else lines

theorem Verbosity.print_all (verbosity : Verbosity) (width : Nat) (p : Palette) (lines : List Text) (events : List Event) :
    events.foldl (verbosity.print width p) lines = lines ++ (events.filter verbosity.shows).map (Event.line width p) := by
  induction events generalizing lines with
  | nil => exact (List.append_nil lines).symm
  | cons event events ih =>
    rw [List.foldl_cons, ih, Verbosity.print, List.filter_cons]
    split
    · rw [List.append_assoc]
      rfl
    · rfl

namespace Search

variable (m : Setting) (f : σ → τ) (observe : σ → Event → σ) (other : τ → Event → τ)

theorem Setting.explore_fused (fused : ∀ seen event, f (observe seen event) = other (f seen) event) (seen : σ)
    (run : Run) : m.explore other (f seen) run = (f (m.explore observe seen run).1, (m.explore observe seen run).2) := by
  have each : ∀ seen events, f (List.foldl observe seen events) = List.foldl other (f seen) events := by
    intro seen events
    induction events generalizing seen with
    | nil => rfl
    | cons event events ih => rw [List.foldl_cons, ih, fused, List.foldl_cons]
  fun_induction Setting.explore m observe seen run with
  | case1 seen run events next moved ih => rw [Setting.explore_running moved, ← each, ih]
  | case2 seen run event stack moved => rw [Setting.explore_accepted moved, fused]
  | case3 seen run moved => rw [Setting.explore_failed moved]

theorem Setting.firstMatch_fused (fused : ∀ seen event, f (observe seen event) = other (f seen) event) (seen : σ)
    (starts : List (Nat × Text)) :
    m.firstMatch other (f seen) starts = (f (m.firstMatch observe seen starts).1, (m.firstMatch observe seen starts).2) := by
  induction starts generalizing seen with
  | nil => rfl
  | cons p later ih =>
    obtain ⟨start, rest⟩ := p
    have same := m.explore_fused f observe other fused (observe seen (.start start)) (m.begin start rest)
    rw [fused] at same
    unfold Setting.firstMatch
    rw [same]
    rcases m.explore observe (observe seen (.start start)) (m.begin start rest) with ⟨after, answer⟩
    cases answer with
    | none => exact ih after
    | some stack => rfl

theorem Setting.firstMatch_begin {note : List Event → Event → List Event} (latest : ∀ seen event, note seen event = event :: seen)
    (start : Nat) (rest : Text) (later : List (Nat × Text)) :
    ∃ events, (m.firstMatch note [] ((start, rest) :: later)).1 = events ++ [.start start] := by
  have kept : ∀ seen event, note seen event ++ [.start start] = note (seen ++ [.start start]) event := by
    intro seen event
    rw [latest, latest, List.cons_append]
  have explored := m.explore_fused (· ++ [.start start]) note note kept [] (m.begin start rest)
  rw [List.nil_append] at explored
  unfold Setting.firstMatch
  rw [latest, explored]
  rcases m.explore note [] (m.begin start rest) with ⟨seen, answer⟩
  cases answer with
  | none => exact ⟨_, congrArg (·.1) (m.firstMatch_fused (· ++ [.start start]) note note kept seen later)⟩
  | some stack => exact ⟨seen, rfl⟩

end Search

namespace Automaton

open Search

theorem observeFrom_events (a : Automaton) (observe : σ → Event → σ) (seen : σ) (input : Text) (offset : Nat) :
    a.observeFrom observe seen input offset = ((a.events input offset).1.foldl observe seen, (a.events input offset).2) := by
  have fused : ∀ (latest : List Event) event, (event :: latest).reverse.foldl observe seen =
      observe (latest.reverse.foldl observe seen) event := by
    intro latest event
    rw [List.reverse_cons, List.foldl_append]
    rfl
  exact (Setting.of a input).firstMatch_fused (fun latest => latest.reverse.foldl observe seen) _ observe fused [] _

theorem events_begin (a : Automaton) (input : Text) : ∃ later, (a.events input 0).1 = .start 0 :: later := by
  obtain ⟨later, first⟩ : ∃ later, candidates a.anchors input 0 = (0, input) :: later := by
    cases input <;> exact ⟨_, by simp [candidates, Text.suffixes]; rfl⟩
  obtain ⟨events, begins⟩ := (Setting.of a input).firstMatch_begin (fun _ _ => rfl) 0 input later
  refine ⟨events.reverse, ?_⟩
  unfold Automaton.events Automaton.observeFrom
  rw [first]
  exact (congrArg List.reverse begins).trans List.reverse_append

theorem printed_trace (a : Automaton) (input : Text) (offset : Nat) (verbosity : Verbosity) (p : Palette) :
    a.observeFrom (verbosity.print a.idWidth p) [] input offset = a.trace input offset verbosity p := by
  rw [observeFrom_events, Verbosity.print_all]
  rfl

end Automaton

namespace Event

theorem edgeLine_painted (width : Nat) (e : Edge) {arrow arrow' : Text} (painted : PaintedLine arrow arrow') (position : Nat) :
    PaintedLine (edgeLine width .on e arrow position) (edgeLine width .off e arrow' position) := by
  have column : ∀ n, PaintedLine (alignRight width (digits n)) (alignRight width (digits n)) :=
    fun n => .plain (clear_alignRight (clear_digits n) width)
  have one : PaintedLine [' '] [' '] := .uncolored (by decide)
  have two : PaintedLine [' ', ' '] [' ', ' '] := .uncolored (by decide)
  have place : PaintedLine [' ', ' ', '@'] [' ', ' ', '@'] := .uncolored (by decide)
  have origin := ((two.append (column e.origin)).append one).append painted
  have destination := ((origin.append one).append (column e.destination)).append two
  exact ((destination.append e.label_painted).append place).append (.plain (clear_digits position))

theorem stateLine_painted (width : Nat) (state : StateId) {what what' : Text} (painted : PaintedLine what what')
    (position : Nat) : PaintedLine (stateLine width state what position) (stateLine width state what' position) := by
  have two : PaintedLine [' ', ' '] [' ', ' '] := .uncolored (by decide)
  have one : PaintedLine [' '] [' '] := .uncolored (by decide)
  have place : PaintedLine [' ', '@'] [' ', '@'] := .uncolored (by decide)
  have column : PaintedLine (alignRight width (digits state)) _ := .plain (clear_alignRight (clear_digits state) width)
  have front := ((two.append column).append one).append painted
  exact (front.append place).append (.plain (clear_digits position))

theorem line_painted (width : Nat) (event : Event) : PaintedLine (event.line width .on) (event.line width .off) := by
  have dim : ∀ s, Clear s → PaintedLine (Palette.on.paint Palette.on.dim s) (Palette.off.paint Palette.off.dim s) :=
    fun _ => .paint (by decide)
  have arrow : PaintedLine "->".toList "->".toList := .uncolored (by decide)
  cases event with
  | start offset =>
    have place : PaintedLine [' ', '@'] [' ', '@'] := .uncolored (by decide)
    exact ((PaintedLine.paint (by decide) (by decide)).append place).append (.plain (clear_digits offset))
  | edge e position => exact edgeLine_painted width e arrow position
  | reject e position => exact edgeLine_painted width e (.paint (by decide) (by decide)) position
  | revisit state position => exact stateLine_painted width state (dim _ (by decide)) position
  | deadEnd state position => exact stateLine_painted width state (dim _ (by decide)) position
  | backtrack state position => exact stateLine_painted width state (dim _ (by decide)) position
  | accept state position => exact stateLine_painted width state (.paint (by decide) (by decide)) position

theorem line_unbroken (width : Nat) (enabled : Bool) (event : Event) : '\n' ∉ event.line width (.ofEnabled enabled) := by
  cases enabled with
  | true => exact (line_painted width event).unbroken
  | false =>
    intro member
    exact absurd ((line_painted width event).within _ member) (by decide)

end Event

theorem Text.joinWith_eq_intercalate (separator : Text) (pieces : List Text) :
    joinWith separator pieces = List.intercalate separator pieces := by
  induction pieces with
  | nil => rfl
  | cons piece pieces ih =>
    cases pieces with
    | nil => exact List.intercalate_singleton.symm
    | cons next rest => rw [joinWith, ih, List.intercalate_cons_cons]

namespace Automaton

open Search

section

variable (a : Automaton) (input : Text) (offset : Nat)

theorem verbose_lines (p : Palette) :
    (a.trace input offset .verbose p).1 = (a.events input offset).1.map (Event.line a.idWidth p) := by
  have all : (a.events input offset).1.filter Verbosity.verbose.shows = (a.events input offset).1 := by
    rw [Verbosity.verbose_shows, List.filter_true]
  exact congrArg (List.map (Event.line a.idWidth p)) all

theorem standard_lines (p : Palette) : (a.trace input offset .standard p).1 =
    (((a.events input offset).1.zip (a.trace input offset .verbose p).1).filter (·.1.advances)).map (·.2) := by
  have paired : ∀ events : List Event, events.zip (events.map (Event.line a.idWidth p)) =
      events.map fun event => (event, event.line a.idWidth p) := by
    intro events
    rw [← List.zip_map', List.map_id']
  rw [verbose_lines, paired, List.filter_map, List.map_map]
  exact congrArg (fun shows => ((a.events input offset).1.filter shows).map (Event.line a.idWidth p)) Verbosity.standard_shows

theorem lines_unbroken (verbosity : Verbosity) (enabled : Bool) :
    ∀ line ∈ (a.trace input offset verbosity (.ofEnabled enabled)).1, '\n' ∉ line := by
  intro line member
  obtain ⟨event, _, rfl⟩ := List.mem_map.mp member
  exact event.line_unbroken a.idWidth enabled

theorem lines_nonempty (verbosity : Verbosity) (p : Palette) : (a.trace input 0 verbosity p).1 ≠ [] := by
  obtain ⟨later, begins⟩ := a.events_begin input
  intro none
  have first : Event.start 0 ∈ (a.events input 0).1 := begins ▸ List.mem_cons_self
  exact List.filter_eq_nil_iff.mp (List.map_eq_nil_iff.mp none) _ first rfl

end

-- Verbose lines are one for each event, standard lines those of the events that advance, and either is what the printing search
-- leaves. Without its colors a line is the uncolored one, no line is broken, and the answer is that of a search that prints
-- nothing.
theorem trace_lines (a : Automaton) (input : Text) (offset : Nat) :
    (∀ verbosity p, a.observeFrom (verbosity.print a.idWidth p) [] input offset = a.trace input offset verbosity p) ∧
    (∀ p, (a.trace input offset .verbose p).1 = (a.events input offset).1.map (Event.line a.idWidth p)) ∧
    (∀ p, (a.trace input offset .standard p).1 =
      (((a.events input offset).1.zip (a.trace input offset .verbose p).1).filter (·.1.advances)).map (·.2)) ∧
    (∀ verbosity, (a.trace input offset verbosity .on).1.map (·.without Palette.on.sequences) =
      (a.trace input offset verbosity .off).1) ∧
    (∀ verbosity (order : List Text), order.Perm Palette.on.sequences →
      (a.trace input offset verbosity .on).1.map (order.foldl fun s sequence => s.without [sequence]) =
        (a.trace input offset verbosity .off).1) ∧
    (∀ verbosity enabled, ∀ line ∈ (a.trace input offset verbosity (.ofEnabled enabled)).1, '\n' ∉ line) ∧
    (∀ pattern verbosity enabled, List.splitOn '\n' ((Regex.mk pattern a).trace input verbosity (.ofEnabled enabled)).1 =
      (a.trace input 0 verbosity (.ofEnabled enabled)).1) ∧
    (checkOffset input offset = .ok () → ∀ verbosity p, a.findAt input offset = .ok (a.trace input offset verbosity p).2) ∧
    (∀ pattern verbosity p, ((Regex.mk pattern a).trace input verbosity p).2 = (Regex.mk pattern a).find input) := by
  refine ⟨a.printed_trace input offset, a.verbose_lines input offset, a.standard_lines input offset, ?_,
    ?_, a.lines_unbroken input offset, ?_, ?_, ?_⟩
  · intro verbosity
    rw [trace, trace, List.map_map]
    exact List.map_congr_left fun event _ => (Event.line_painted a.idWidth event).deleted
  · intro verbosity order all
    rw [trace, trace, List.map_map]
    exact List.map_congr_left fun event _ => (Event.line_painted a.idWidth event).deleted_each (by decide) all
  · intro pattern verbosity enabled
    have joined : ((Regex.mk pattern a).trace input verbosity (.ofEnabled enabled)).1 =
        List.intercalate ['\n'] (a.trace input 0 verbosity (.ofEnabled enabled)).1 := joinWith_eq_intercalate _ _
    rw [joined]
    exact List.splitOn_intercalate '\n' (a.lines_unbroken input 0 verbosity enabled) (a.lines_nonempty input verbosity _)
  · intro valid verbosity p
    unfold findAt
    rw [valid, ← events_found]
    rfl
  · intro pattern verbosity p
    exact a.events_found input 0

-- A text with a line break and a color in it, traced line by line.
theorem trace_lines_quoting :
    checkOffset "\"  [0]\n\x1b[34m".toList 0 = .ok () ∧
    quoting.findAt "\"  [0]\n\x1b[34m".toList 0 = .ok (quoting.trace "\"  [0]\n\x1b[34m".toList 0 .verbose .on).2 ∧
    List.splitOn '\n' ((Regex.mk [] quoting).trace "\"  [0]\n\x1b[34m".toList .verbose .on).1 =
      (quoting.trace "\"  [0]\n\x1b[34m".toList 0 .verbose .on).1 := by
  obtain ⟨_, _, _, _, _, _, apart, found, _⟩ := trace_lines quoting "\"  [0]\n\x1b[34m".toList 0
  exact ⟨rfl, found rfl .verbose .on, apart [] .verbose true⟩

example : (quoting.trace "\"  [0]\n\x1b[34m".toList 0 .standard .off).1.map String.ofList =
    ["start @0", "  0 -> 1  \"\\\"  [0]\\n\\u\x7b1b\x7d[34m\"  [0]  @12", "  1 -> 0  ε  @12", "  1 backtrack @12", "  1 accept @12"] :=
  by cbv

end Automaton
end PatternMachine
