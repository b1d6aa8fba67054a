import PatternMachine.Regex
import PatternMachine.Proofs.Construction.Language
import PatternMachine.Proofs.Construction.Scan
import PatternMachine.Proofs.Search.Reach

namespace PatternMachine

open scoped Computability

-- Every valid pattern has a tree and compiles to the sealed automaton laid from it.
theorem Regex.ofPattern_laid {source : Text} {p : Pattern} (parsed : Pattern.parse source = .ok p) :
    ∃ tree r, Tree.read p.body = some tree ∧ Regex.ofPattern source = .ok r ∧ r.automaton.Sealed ∧
      r.automaton.Laid (Item.layAny [] 0 1 tree.body) ∧ r.automaton.anchors = p.anchors ∧
      r.automaton.groupCount = tree.captures ∧
      Item.SpelledAny p.captures [] tree.body (Token.ofText p.body) := by
  obtain ⟨tree, read, spelled, captures⟩ := Tree.read_spelled (Pattern.parse_balanced parsed)
  obtain ⟨a, built, sealed, laid, anchors, count⟩ := Builder.build_laid spelled p.anchors
  have compiled : compile source = .ok a := by
    have built' : p.build = .ok a := built
    simp [compile, parsed, built', Except.mapError, bind, Except.bind]
  refine ⟨tree, ⟨source, a⟩, read, ?_, sealed, laid, anchors, count.trans captures.symm, spelled⟩
  simp [Regex.ofPattern, compiled, Except.map]

-- Some part of the input is in the language: any part, or one that begins or ends with the input
-- where the pattern is anchored.
def Occurs (language : Language Char) (anchors : Anchors) (input : Text) : Prop :=
  ∃ start stop text, Text.slice? input start stop = some text ∧ text ∈ language ∧
    (anchors.fixedStart = true → start = 0) ∧ (anchors.fixedEnd = true → stop = Text.size input)

theorem Automaton.isMatch_iff_path {a : Automaton} (sealed : a.Sealed) (input : Text) :
    a.isMatch input = true ↔
      Occurs {text | ∃ stop, Path a.edges a.start text stop ∧ a.isTerminal stop = true} a.anchors input := by
  rw [Search.isMatch_iff_reaches sealed]
  constructor
  · intro reached
    obtain ⟨start, candidate, reaches⟩ := reached
    obtain ⟨before, rest, cut⟩ := Text.isBoundary_iff.mp candidate.boundary
    have here := Text.from?_eq_some.mpr ⟨before, cut⟩
    obtain ⟨text, after, stop, rfl, path, terminal, ends⟩ := (Search.reaches_iff_path sealed here).mp reaches
    refine ⟨start, start + Text.size text, text, Text.slice?_of_from? here, ⟨stop, path, terminal⟩, candidate.fixed, ?_⟩
    intro fixed
    have whole := Text.from?_size here
    rw [ends fixed] at whole
    simpa using whole
  · intro occurs
    obtain ⟨start, finish, text, sliced, ⟨stop, path, terminal⟩, fixedStart, fixedEnd⟩ := occurs
    obtain ⟨before, after, rfl, rfl, rfl⟩ := Text.slice?_eq_some.mp sliced
    have here : Text.from? (before ++ text ++ after) (Text.size before) = some (text ++ after) :=
      Text.from?_eq_some.mpr ⟨before, by simp, rfl⟩
    refine ⟨Text.size before, ⟨Text.isBoundary_iff.mpr ⟨before, text ++ after, by simp, rfl⟩, Nat.zero_le _, fixedStart⟩, ?_⟩
    refine (Search.reaches_iff_path sealed here).mpr ⟨text, after, stop, rfl, path, terminal, fun fixed => ?_⟩
    have whole := fixedEnd fixed
    simp only [Text.size_append] at whole
    exact Text.size_eq_zero.mp (by omega)

theorem Occurs.mono {language language' : Language Char} {anchors : Anchors} {input : Text}
    (occurs : Occurs language anchors input) (le : ∀ text ∈ language, text ∈ language') :
    Occurs language' anchors input := by
  obtain ⟨start, stop, text, sliced, member, fixed⟩ := occurs
  exact ⟨start, stop, text, sliced, le text member, fixed⟩

namespace Regex

-- A compiled pattern matches wherever its language occurs, and nowhere else as long as no starred
-- item follows one that leaves a loop open.
theorem isMatch_language {source : Text} {p : Pattern} (parsed : Pattern.parse source = .ok p) :
    ∃ tree r, Tree.read p.body = some tree ∧ Regex.ofPattern source = .ok r ∧ ∀ input,
      (Occurs (Item.languageAny tree.body) p.anchors input → r.isMatch input = true) ∧
      (Item.spacedEach tree.body = true → r.isMatch input = true →
        Occurs (Item.languageAny tree.body) p.anchors input) := by
  obtain ⟨tree, r, read, compiled, sealed, laid, anchors, _, _⟩ := Regex.ofPattern_laid parsed
  refine ⟨tree, r, read, compiled, fun input => ?_⟩
  have paths := Automaton.isMatch_iff_path sealed input
  rw [laid.edges, laid.start, anchors] at paths
  constructor
  · intro occurs
    refine paths.mpr (occurs.mono fun text member => ?_)
    obtain ⟨stop, present, path⟩ := Item.layAny_complete Nat.zero_lt_one tree.body text member
    exact ⟨stop, path, (laid.terminal stop).mpr present⟩
  · intro spaced matched
    refine (paths.mp matched).mono ?_
    intro text reads
    obtain ⟨stop, path, terminal⟩ := reads
    exact Item.layAny_sound Nat.zero_lt_one tree.body spaced stop ((laid.terminal stop).mp terminal) text path

-- `a(b|c*)*`
def nested : Pattern :=
  ⟨['a', '(', 'b', '|', 'c', '*', ')', '*'], ['a', '(', 'b', '|', 'c', '*', ')', '*'], ⟨false, false⟩⟩

theorem isMatch_language_nested :
    Pattern.parse nested.source = .ok nested ∧ ∃ tree r, Tree.read nested.body = some tree ∧
      Regex.ofPattern nested.source = .ok r ∧ Item.spacedEach tree.body = true ∧
      ∀ input, r.isMatch input = true ↔ Occurs (Item.languageAny tree.body) nested.anchors input := by
  have parsed : Pattern.parse nested.source = .ok nested := rfl
  obtain ⟨tree, r, read, compiled, matches_iff⟩ := isMatch_language parsed
  have shape : Tree.read nested.body =
      some ⟨[[.char 'a' false, .group (some 0) [[.char 'b' false], [.char 'c' true]] true]], 1⟩ := rfl
  have spaced : Item.spacedEach tree.body = true := by
    rw [read] at shape
    cases shape
    rfl
  exact ⟨parsed, tree, r, read, compiled, spaced,
    fun input => ⟨(matches_iff input).2 spaced, (matches_iff input).1⟩⟩

theorem mem_kstar_singleton {c : Char} {text : Text} (member : text ∈ ({[c]}∗ : Language Char)) : ∀ d ∈ text, d = c := by
  obtain ⟨pieces, rfl, each⟩ := Language.mem_kstar.mp member
  intro d present
  obtain ⟨piece, listed, inside⟩ := List.mem_flatten.mp present
  obtain rfl := Set.mem_singleton_iff.mp (each piece listed)
  exact List.mem_singleton.mp inside

-- `^a*()b*$`
def interleaved : Pattern :=
  ⟨['^', 'a', '*', '(', ')', 'b', '*', '$'], ['a', '*', '(', ')', 'b', '*'], ⟨true, true⟩⟩

-- An empty group adds no state, so both loops are laid on one, and they run in any order.
theorem isMatch_interleaved :
    ∃ tree r, Pattern.parse interleaved.source = .ok interleaved ∧ Tree.read interleaved.body = some tree ∧
      Item.apartEach tree.body = true ∧ Regex.ofPattern interleaved.source = .ok r ∧ r.isMatch ['b', 'a'] = true ∧
      ¬ Occurs (Item.languageAny tree.body) interleaved.anchors ['b', 'a'] := by
  have parsed : Pattern.parse interleaved.source = .ok interleaved := rfl
  have shape : Tree.read interleaved.body =
      some ⟨[[.char 'a' true, .group (some 0) [[]] false, .char 'b' true]], 1⟩ := rfl
  have built : Regex.ofPattern interleaved.source = .ok ⟨interleaved.source, [⟨0, false⟩, ⟨1, true⟩],
      [⟨0, 1, [], []⟩, ⟨1, 1, ['a'], []⟩, ⟨1, 1, ['b'], []⟩], 0, ⟨true, true⟩, 1⟩ := rfl
  obtain ⟨_, r, _, compiled, sealed, _⟩ := Regex.ofPattern_laid parsed
  cases compiled.symm.trans built
  refine ⟨_, _, parsed, shape, rfl, built, ?_, ?_⟩
  · have path : Path [⟨0, 1, [], []⟩, ⟨1, 1, ['a'], []⟩, ⟨1, 1, ['b'], []⟩] 0 ['b', 'a'] 1 :=
      .step (e := ⟨0, 1, [], []⟩) (by simp)
        (.step (e := ⟨1, 1, ['b'], []⟩) (by simp) (.single (e := ⟨1, 1, ['a'], []⟩) (by simp)))
    exact (Automaton.isMatch_iff_path sealed _).mpr ⟨0, 2, ['b', 'a'], rfl, ⟨1, path, rfl⟩, fun _ => rfl, fun _ => rfl⟩
  · intro occurs
    obtain ⟨start, stop, text, sliced, member, fixedStart, fixedEnd⟩ := occurs
    cases fixedStart rfl
    cases fixedEnd rfl
    cases sliced
    simp only [Item.languageAny, Item.languageAll, Item.language, Item.repeated, if_true, Bool.false_eq_true, if_false,
      mul_one, add_zero, one_mul] at member
    obtain ⟨front, as, back, bs, whole⟩ := Language.mem_mul.mp member
    have whole : front ++ back = ['b', 'a'] := whole
    cases front with
    | nil =>
      obtain rfl : back = ['b', 'a'] := whole
      have last := mem_kstar_singleton bs 'a' (by simp)
      cases last
    | cons c front =>
      obtain rfl := mem_kstar_singleton as c List.mem_cons_self
      cases whole

end Regex
end PatternMachine
