import PatternMachine.Proofs.Pattern.Escaped
import PatternMachine.Proofs.Regex.Backtracking

namespace PatternMachine

namespace Item

variable {captures : List Nat} {onward : Onward}

theorem attemptAll_chars (w : Text) : attemptAll captures (w.map (Item.char · false)) onward = takeAll captures w onward := by
  induction w with
  | nil => rfl
  | cons c rest ih =>
    rw [List.map_cons, attemptAll, ih]
    rfl

theorem filledAll_chars (w : Text) : filledAll (w.map (Item.char · false)) = true := by
  induction w with
  | nil => rfl
  | cons c rest ih => exact ih

theorem spacedAfter_chars (w : Text) : spacedAfter false (w.map (Item.char · false)) = true := by
  induction w with
  | nil => rfl
  | cons c rest ih => exact ih

end Item

def Tree.ofText (w : Text) : Tree := ⟨[w.map (Item.char · false)], 0⟩

namespace Tree

variable {anchors : Anchors} {w rest : Text}

theorem ofText_attempt (anchors : Anchors) (w : Text) :
    (ofText w).attempt anchors = Item.takeAll [] w (finish anchors) := by
  funext rest
  cases w with
  | nil => simp [ofText, attempt, Item.orNothing, Item.attemptAny, Item.takeAll]
  | cons c w =>
    have whole : Item.attemptAll [] ((c :: w).map (Item.char · false)) (finish anchors) rest = _ :=
      congrFun (Item.attemptAll_chars (c :: w)) rest
    simpa [ofText, attempt, Item.orNothing, Item.attemptAny] using whole

theorem ofText_attempt_iff {start : Nat} {m : Match} :
    ((ofText w).attempt anchors rest).map (fun consumed => (⟨start, consumed.text, []⟩ : Match)) = some m ↔
      (∃ after, rest = w ++ after ∧ (anchors.fixedEnd = true → after = [])) ∧ m = ⟨start, w, []⟩ := by
  rw [ofText_attempt]
  by_cases next : ∃ after, rest = w ++ after
  · obtain ⟨after, rfl⟩ := next
    have covered : Consumed.text (w.map fun c => (c, [])) = w := by simp [Consumed.text, Function.comp_def]
    rw [Item.takeAll_append]
    cases fixed : anchors.fixedEnd <;> cases after <;> simp [finish, fixed, covered, eq_comm]
  · have misses : ∀ after, rest ≠ w ++ after := fun after same => next ⟨after, same⟩
    rw [Item.takeAll_none misses]
    simp [misses]

theorem ofText_attempt_here (w : Text) (start : Nat) (after : Text) :
    ((ofText w).attempt ⟨false, false⟩ (w ++ after)).map (fun consumed => (⟨start, consumed.text, []⟩ : Match)) =
      some ⟨start, w, []⟩ := ofText_attempt_iff.mpr ⟨⟨after, rfl, nofun⟩, rfl⟩

end Tree

structure Text.FirstAt (s value : Text) (offset : Nat) : Prop where
  occurs : occursAt s offset value = true
  least : ∀ earlier < offset, occursAt s earlier value = false

namespace Text

variable {s value : Text} {offset other : Nat}

theorem FirstAt.unique (first : FirstAt s value offset) (second : FirstAt s value other) : offset = other := by
  rcases Nat.lt_trichotomy offset other with less | same | more
  · have missed := second.least offset less
    rw [first.occurs] at missed
    cases missed
  · exact same
  · have missed := first.least other more
    rw [second.occurs] at missed
    cases missed

theorem occursAt_iff_suffix : occursAt s offset value = true ↔ ∃ after, (offset, value ++ after) ∈ suffixes 0 s := by
  simp only [mem_suffixes, Nat.zero_add]
  constructor
  · intro occurs
    obtain ⟨rest, here, _⟩ := (Option.any_eq_true _ _).mp occurs
    obtain ⟨after, rfl⟩ := (occursAt_iff here).mp occurs
    obtain ⟨before, whole, place⟩ := from?_eq_some.mp here
    exact ⟨after, before, whole, place.symm⟩
  · intro split
    obtain ⟨after, before, whole, place⟩ := split
    exact (occursAt_iff (from?_eq_some.mpr ⟨before, whole, place.symm⟩)).mpr ⟨after, rfl⟩

theorem infix_iff_occursAt : value <:+: s ↔ ∃ offset, occursAt s offset value = true := by
  simp only [occursAt_iff_suffix, mem_suffixes, Nat.zero_add]
  constructor
  · intro inside
    obtain ⟨before, after, rfl⟩ := inside
    exact ⟨size before, after, before, by simp, rfl⟩
  · intro occurs
    obtain ⟨_, after, before, rfl, _⟩ := occurs
    exact ⟨before, after, by simp⟩

end Text

namespace Tree

variable {w input : Text} {m : Match}

theorem ofText_find_none : (ofText w).find ⟨false, false⟩ input = none ↔ ¬ w <:+: input := by
  rw [Text.infix_iff_occursAt, find, starts, if_neg Bool.false_ne_true, List.findSome?_eq_none_iff]
  simp only [Text.occursAt_iff_suffix]
  constructor
  · intro missed occurs
    obtain ⟨offset, after, member⟩ := occurs
    have found := ofText_attempt_here w offset after
    cases found.symm.trans (missed _ member)
  · intro absent p member
    rw [Option.eq_none_iff_forall_ne_some]
    intro m found
    obtain ⟨⟨after, rest, _⟩, _⟩ := ofText_attempt_iff.mp found
    exact absent ⟨p.1, after, rest ▸ member⟩

theorem ofText_find_first (found : (ofText w).find ⟨false, false⟩ input = some m) :
    m.text = w ∧ m.groups = [] ∧ Text.FirstAt input w m.start := by
  obtain ⟨sooner, ⟨start, rest⟩, later, split, here, before⟩ := List.findSome?_eq_some_iff.mp found
  obtain ⟨⟨after, rfl, _⟩, rfl⟩ := ofText_attempt_iff.mp here
  have split : Text.suffixes 0 input = sooner ++ (start, w ++ after) :: later := split
  refine ⟨rfl, rfl, Text.occursAt_iff_suffix.mpr ⟨after, ?_⟩, fun earlier less => ?_⟩
  · rw [split]
    exact List.mem_append_right _ List.mem_cons_self
  · rw [Bool.eq_false_iff]
    intro occurs
    obtain ⟨after', member⟩ := Text.occursAt_iff_suffix.mp occurs
    have ascending := Text.suffixes_ascending input 0
    rw [split] at member ascending
    rcases List.mem_append.mp member with front | back
    · have found' := ofText_attempt_here w earlier after'
      cases found'.symm.trans (before _ front)
    · have beyond : start ≤ earlier := by
        rcases List.mem_cons.mp back with same | back
        · exact Nat.le_of_eq (congrArg Prod.fst same).symm
        · exact Nat.le_of_lt ((List.pairwise_cons.mp (List.pairwise_append.mp ascending).2.1).1 _ back)
      exact Nat.not_lt.mpr beyond less

theorem ofText_find_iff : (ofText w).find ⟨false, false⟩ input = some m ↔
    m.text = w ∧ m.groups = [] ∧ Text.FirstAt input w m.start := by
  refine ⟨ofText_find_first, fun described => ?_⟩
  obtain ⟨text, groups, first⟩ := described
  cases found : (ofText w).find ⟨false, false⟩ input with
  | none => exact (ofText_find_none.mp found (Text.infix_iff_occursAt.mpr ⟨_, first.occurs⟩)).elim
  | some m' =>
    obtain ⟨text', groups', first'⟩ := ofText_find_first found
    obtain ⟨start, _, _⟩ := m
    obtain ⟨start', _, _⟩ := m'
    cases first.unique first'
    cases text.trans text'.symm
    cases groups.trans groups'.symm
    rfl

theorem ofText_find_whole : ((ofText w).find ⟨true, true⟩ input).isSome = true ↔ input = w := by
  have answer : (ofText w).find ⟨true, true⟩ input =
      ((ofText w).attempt ⟨true, true⟩ input).map (fun consumed => (⟨0, consumed.text, []⟩ : Match)) := by
    rw [find, starts, if_pos rfl, List.findSome?_singleton]
    rfl
  rw [answer, Option.isSome_iff_exists]
  constructor
  · intro found
    obtain ⟨m, found⟩ := found
    obtain ⟨⟨after, rest, whole⟩, _⟩ := ofText_attempt_iff.mp found
    rw [rest, whole rfl, List.append_nil]
  · rintro rfl
    exact ⟨_, ofText_attempt_iff.mpr ⟨⟨[], (List.append_nil _).symm, fun _ => rfl⟩, rfl⟩⟩

end Tree

namespace Regex

theorem ofPattern_escaped (w : Text) (anchors : Anchors) :
    ∃ r, Regex.ofPattern (Pattern.wrap anchors (Pattern.escape w)) = .ok r ∧ r.automaton.anchors = anchors ∧
      r.automaton.groupCount = 0 ∧ ∀ input, r.find input = (Tree.ofText w).find anchors input := by
  have settled : (Pattern.escape w).endsEscaping = false := (Text.escaping_eq _).symm.trans (Pattern.escape_settled w)
  have parsed : Pattern.parse (Pattern.wrap anchors (Pattern.escape w)) = .ok _ :=
    Pattern.parse_wrap (Pattern.escape_plain w) fun _ => settled
  obtain ⟨tree, r, read, compiled, sealed, laid, anchored, count, spelled⟩ := Regex.ofPattern_laid parsed
  cases read.symm.trans (Tree.read_escape w)
  have filled : Item.filledEach (Tree.ofText w).body = true := by
    simp [Tree.ofText, Item.filledEach, Item.filledAll_chars]
  have spaced : Item.spacedEach (Tree.ofText w).body = true := by
    simp [Tree.ofText, Item.spacedEach, Item.spacedAfter_chars]
  refine ⟨r, compiled, anchored, count, fun input => ?_⟩
  have anchored : r.automaton.anchors = anchors := anchored
  have finds : r.automaton.find input = (Tree.ofText w).find r.automaton.anchors input :=
    Automaton.find_tree sealed laid count spelled filled spaced input
  rwa [anchored] at finds

-- The pattern of an escaped text compiles to an automaton with no anchor and no capture. It finds the
-- first occurrence of the text, and nothing where there is none; held at both ends, it matches the text
-- and no other.
theorem find_escaped (w : Text) :
    ∃ r held, Regex.ofPattern (Pattern.escape w) = .ok r ∧ r.automaton.anchors = ⟨false, false⟩ ∧
      r.automaton.groupCount = 0 ∧
      (∀ input m, r.find input = some m ↔ m.text = w ∧ m.groups = [] ∧ Text.FirstAt input w m.start) ∧
      (∀ input, r.find input = none ↔ ¬ w <:+: input) ∧
      (w = [] → ∀ input, r.find input = some ⟨0, [], []⟩) ∧
      Regex.ofPattern ('^' :: (Pattern.escape w ++ ['$'])) = .ok held ∧ ∀ input, held.isMatch input = true ↔ input = w := by
  obtain ⟨r, compiled, anchors, count, finds⟩ := ofPattern_escaped w ⟨false, false⟩
  obtain ⟨held, compiled', _, _, finds'⟩ := ofPattern_escaped w ⟨true, true⟩
  have plain : Pattern.wrap ⟨false, false⟩ (Pattern.escape w) = Pattern.escape w := List.append_nil _
  rw [plain] at compiled
  refine ⟨r, held, compiled, anchors, count, fun input m => ?_, fun input => ?_, ?_, compiled', fun input => ?_⟩
  · rw [finds]
    exact Tree.ofText_find_iff
  · rw [finds]
    exact Tree.ofText_find_none
  · rintro rfl input
    rw [finds, Tree.ofText_find_iff]
    refine ⟨rfl, rfl, ?_, fun earlier less => (Nat.not_lt_zero _ less).elim⟩
    exact Text.occursAt_iff_suffix.mpr ⟨input, Text.mem_suffixes.mpr ⟨[], rfl, rfl⟩⟩
  · have searched : held.isMatch input = (held.find input).isSome := rfl
    rw [searched, finds']
    exact Tree.ofText_find_whole

-- `\*\(` against `a(*(`
example : ∃ r, Regex.ofPattern (Pattern.escape ['*', '(']) = .ok r ∧
    r.find ['a', '(', '*', '('] = some ⟨2, ['*', '('], []⟩ := ⟨_, rfl, by cbv⟩

end Regex
end PatternMachine
