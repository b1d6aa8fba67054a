import PatternMachine.Text.Occurrence

namespace PatternMachine.Text

theorem from?_eq_some {s after : Text} {offset : Nat} :
    from? s offset = some after ↔ ∃ before, s = before ++ after ∧ size before = offset := by
  unfold from?
  constructor
  · intro found
    obtain ⟨⟨before, rest⟩, cut, rfl⟩ := Option.map_eq_some_iff.mp found
    exact ⟨before, cut?_eq_some.mp cut⟩
  · intro split
    obtain ⟨before, cut⟩ := split
    rw [cut?_eq_some.mpr cut]
    rfl

theorem before?_eq_some {s before : Text} {offset : Nat} :
    before? s offset = some before ↔ ∃ after, s = before ++ after ∧ size before = offset := by
  unfold before?
  constructor
  · intro found
    obtain ⟨⟨front, after⟩, cut, rfl⟩ := Option.map_eq_some_iff.mp found
    exact ⟨after, cut?_eq_some.mp cut⟩
  · intro split
    obtain ⟨after, cut⟩ := split
    rw [cut?_eq_some.mpr cut]
    rfl

theorem isBoundary_iff {s : Text} {offset : Nat} :
    isBoundary s offset = true ↔ ∃ before after, s = before ++ after ∧ size before = offset := by
  unfold isBoundary
  constructor
  · intro boundary
    obtain ⟨⟨before, after⟩, cut⟩ := Option.isSome_iff_exists.mp boundary
    exact ⟨before, after, cut?_eq_some.mp cut⟩
  · intro split
    obtain ⟨before, after, cut⟩ := split
    rw [cut?_eq_some.mpr cut]
    rfl

theorem from?_zero (s : Text) : from? s 0 = some s := from?_eq_some.mpr ⟨[], rfl, rfl⟩

theorem from?_advance {s value after : Text} {offset : Nat} (here : from? s offset = some (value ++ after)) :
    from? s (offset + size value) = some after := by
  obtain ⟨before, whole, rfl⟩ := from?_eq_some.mp here
  exact from?_eq_some.mpr ⟨before ++ value, by simp [whole], by simp⟩

theorem from?_next {s after : Text} {offset : Nat} {c : Char} (here : from? s offset = some (c :: after)) :
    from? s (offset + c.utf8Size) = some after := by
  have whole : from? s offset = some ([c] ++ after) := here
  exact from?_advance whole

theorem from?_size {s after : Text} {offset : Nat} (here : from? s offset = some after) :
    offset + size after = size s := by
  obtain ⟨before, rfl, rfl⟩ := from?_eq_some.mp here
  simp

theorem size_eq_zero {s : Text} : size s = 0 ↔ s = [] := by
  cases s with
  | nil => simp
  | cons c rest => have positive := c.utf8Size_pos; simp; omega

theorem slice?_of_from? {s middle after : Text} {offset : Nat} (here : from? s offset = some (middle ++ after)) :
    slice? s offset (offset + size middle) = some middle := by
  obtain ⟨before, rfl, rfl⟩ := from?_eq_some.mp here
  have front : before? (before ++ (middle ++ after)) (size before + size middle) = some (before ++ middle) :=
    before?_eq_some.mpr ⟨after, by simp, by simp⟩
  have back : from? (before ++ middle) (size before) = some middle := from?_eq_some.mpr ⟨before, rfl, rfl⟩
  simp [slice?, front, back]

theorem slice?_eq_some {s middle : Text} {start stop : Nat} :
    slice? s start stop = some middle ↔
      ∃ before after, s = before ++ middle ++ after ∧ start = size before ∧ stop = size before + size middle := by
  constructor
  · intro sliced
    unfold slice? at sliced
    split at sliced
    · obtain ⟨front, cutFront, cutBack⟩ := Option.bind_eq_some_iff.mp sliced
      obtain ⟨after, rfl, rfl⟩ := before?_eq_some.mp cutFront
      obtain ⟨before, rfl, rfl⟩ := from?_eq_some.mp cutBack
      exact ⟨before, after, rfl, rfl, by simp⟩
    · cases sliced
  · intro split
    obtain ⟨before, after, rfl, rfl, rfl⟩ := split
    have here : from? (before ++ middle ++ after) (size before) = some (middle ++ after) :=
      from?_eq_some.mpr ⟨before, by simp, rfl⟩
    exact slice?_of_from? here

theorem occursAt_iff {s value rest : Text} {offset : Nat} (here : from? s offset = some rest) :
    occursAt s offset value = true ↔ ∃ after, rest = value ++ after := by
  simp only [occursAt, here, Option.any_some, List.isPrefixOf_iff_prefix]
  constructor
  · intro starts
    obtain ⟨after, whole⟩ := starts
    exact ⟨after, whole.symm⟩
  · intro starts
    obtain ⟨after, whole⟩ := starts
    exact ⟨after, whole.symm⟩

theorem strip?_eq_none {start s : Text} : strip? start s = none ↔ ∀ after, s ≠ start ++ after := by
  rw [Option.eq_none_iff_forall_ne_some]
  simp only [ne_eq, strip?_eq_some]

theorem mem_suffixes {s rest : Text} {start offset : Nat} :
    (offset, rest) ∈ suffixes start s ↔ ∃ before, s = before ++ rest ∧ offset = start + size before := by
  induction s generalizing start with
  | nil =>
    constructor
    · intro member
      cases List.mem_singleton.mp member
      exact ⟨[], rfl, rfl⟩
    · intro split
      obtain ⟨before, whole, rfl⟩ := split
      obtain ⟨rfl, rfl⟩ := List.append_eq_nil_iff.mp whole.symm
      simp [suffixes]
  | cons c s ih =>
    constructor
    · intro member
      rcases List.mem_cons.mp member with here | later
      · cases here
        exact ⟨[], rfl, rfl⟩
      · obtain ⟨before, rfl, rfl⟩ := ih.mp later
        exact ⟨c :: before, rfl, by simp; omega⟩
    · intro split
      obtain ⟨before, whole, rfl⟩ := split
      cases before with
      | nil =>
        cases whole
        exact List.mem_cons_self
      | cons d before =>
        obtain ⟨rfl, rfl⟩ := List.cons.inj whole
        exact List.mem_cons_of_mem _ (ih.mpr ⟨before, rfl, by simp; omega⟩)

theorem suffixes_ascending (s : Text) (start : Nat) :
    (suffixes start s).Pairwise fun earlier later => earlier.1 < later.1 := by
  induction s generalizing start with
  | nil => simp [suffixes]
  | cons c s ih =>
    refine List.Pairwise.cons ?_ (ih _)
    rintro ⟨offset, rest⟩ member
    obtain ⟨before, _, rfl⟩ := mem_suffixes.mp member
    have positive := c.utf8Size_pos
    show start < _
    omega

theorem suffixes_shifted (offset start : Nat) (s : Text) :
    suffixes (offset + start) s = (suffixes start s).map fun p => (offset + p.1, p.2) := by
  induction s generalizing start with
  | nil => rfl
  | cons c s ih => rw [suffixes, suffixes, List.map_cons, Nat.add_assoc, ih]

theorem suffixes_behind (start : Nat) (before after : Text) :
    (suffixes start (before ++ after)).filter (fun p => start + size before ≤ p.1) = suffixes (start + size before) after := by
  induction before generalizing start with
  | nil =>
    apply List.filter_eq_self.mpr
    rintro ⟨position, rest⟩ member
    obtain ⟨front, _, rfl⟩ := mem_suffixes.mp member
    simp
  | cons c before ih =>
    have positive := c.utf8Size_pos
    have first : ¬ start + (c.utf8Size + size before) ≤ start := by omega
    rw [List.cons_append, suffixes, size_cons, List.filter_cons_of_neg (by simpa using first), ← Nat.add_assoc]
    exact ih _

end PatternMachine.Text
