import PatternMachine.Text.Decimal
import PatternMachine.Text.Quoted
import Mathlib.Data.Char

namespace PatternMachine

theorem front_unique {α : Type} {inside : α → Prop} {front front' : List α} {x y : α} {after after' : List α}
    (within : ∀ a ∈ front, inside a) (within' : ∀ a ∈ front', inside a) (outside : ¬inside x) (outside' : ¬inside y)
    (same : front ++ x :: after = front' ++ y :: after') : front = front' ∧ x :: after = y :: after' := by
  induction front generalizing front' with
  | nil =>
    cases front' with
    | nil => exact ⟨rfl, same⟩
    | cons b front' => exact (outside ((List.cons.inj same).1 ▸ within' b List.mem_cons_self)).elim
  | cons a front ih =>
    cases front' with
    | nil => exact (outside' ((List.cons.inj same).1 ▸ within a List.mem_cons_self)).elim
    | cons b front' =>
      obtain ⟨rfl, behind⟩ := List.cons.inj same
      obtain ⟨rfl, later⟩ := ih (fun a member => within a (List.mem_cons_of_mem _ member))
        (fun a member => within' a (List.mem_cons_of_mem _ member)) behind
      exact ⟨rfl, later⟩

section

variable {base : Nat}

theorem mem_toDigits {inside : Char → Prop} (large : 1 < base) (digits : ∀ d < base, inside d.digitChar) (n : Nat) :
    ∀ c ∈ Nat.toDigits base n, inside c := by
  induction n using Nat.strongRecOn with
  | ind n ih =>
    rw [Nat.toDigits_eq_if large]
    split
    · rename_i less
      exact List.forall_mem_singleton.mpr (digits n less)
    · have shorter : n / base < n := Nat.div_lt_self (by omega) large
      have last : n % base < base := Nat.mod_lt n (by omega)
      exact List.forall_mem_append.mpr ⟨ih _ shorter, List.forall_mem_singleton.mpr (digits _ last)⟩

theorem toDigits_injective (large : 1 < base) (apart : ∀ d < base, ∀ e < base, d.digitChar = e.digitChar → d = e) :
    Function.Injective (Nat.toDigits base) := by
  -- A number of one digit is not written as one of several.
  have several : ∀ k d e, [d] ≠ Nat.toDigits base k ++ [e] := by
    intro k d e same
    have some : 0 < (Nat.toDigits base k).length := Nat.length_toDigits_pos
    have count := congrArg List.length same
    rw [List.length_append, List.length_singleton, List.length_singleton] at count
    omega
  intro n
  induction n using Nat.strongRecOn with
  | ind n ih =>
    intro m same
    rw [Nat.toDigits_eq_if large (n := n), Nat.toDigits_eq_if large (n := m)] at same
    split at same <;> split at same
    · rename_i less less'
      exact apart n less m less' (List.singleton_inj.mp same)
    · exact (several _ _ _ same).elim
    · exact (several _ _ _ same.symm).elim
    · obtain ⟨higher, lowest⟩ := List.append_inj' same rfl
      have quotient : n / base = m / base := ih _ (Nat.div_lt_self (by omega) large) higher
      have rest : n % base = m % base :=
        apart _ (Nat.mod_lt n (by omega)) _ (Nat.mod_lt m (by omega)) (List.singleton_inj.mp lowest)
      rw [← Nat.div_add_mod n base, quotient, rest, Nat.div_add_mod]

end

namespace Decimal

theorem digits_eq (n : Nat) : digits n = Nat.toDigits 10 n := by
  have last : ∀ d < 10, Char.ofNat ('0'.toNat + d) = d.digitChar := by decide
  induction n using Nat.strongRecOn with
  | ind n ih =>
    rw [digits, Nat.toDigits_eq_if (by decide)]
    split
    · rename_i less
      rw [digit, Nat.mod_eq_of_lt less, last n less]
    · rw [ih _ (by omega), digit, last _ (Nat.mod_lt n (by decide))]

theorem mem_digits (n : Nat) : ∀ c ∈ digits n, c.isDigit = true := by
  rw [digits_eq]
  exact mem_toDigits (by decide) (by decide) n

theorem digits_nonempty (n : Nat) : digits n ≠ [] := by
  rw [digits_eq]
  exact Nat.toDigits_ne_nil

theorem digits_injective : Function.Injective digits := by
  rw [funext digits_eq]
  exact toDigits_injective (by decide) (by decide)

variable {n m width : Nat} {x y : Char} {after after' : Text}

theorem digits_unique (outside : x.isDigit = false) (outside' : y.isDigit = false)
    (same : digits n ++ x :: after = digits m ++ y :: after') : n = m ∧ x :: after = y :: after' := by
  obtain ⟨front, behind⟩ := front_unique (mem_digits n) (mem_digits m) (by simp [outside]) (by simp [outside']) same
  exact ⟨digits_injective front, behind⟩

theorem alignRight_unique (same : alignRight width (digits n) ++ ' ' :: after = alignRight width (digits m) ++ ' ' :: after') :
    n = m ∧ after = after' := by
  obtain ⟨c, more, first⟩ := List.exists_cons_of_ne_nil (digits_nonempty n)
  obtain ⟨d, more', first'⟩ := List.exists_cons_of_ne_nil (digits_nonempty m)
  have apart : ∀ k c more, digits k = c :: more → c ≠ ' ' := by
    intro k c more first blank
    have digit := mem_digits k c (first ▸ List.mem_cons_self)
    rw [blank] at digit
    cases digit
  unfold alignRight at same
  rw [List.append_assoc, List.append_assoc, first, first', List.cons_append, List.cons_append] at same
  have blank : ∀ count, ∀ c ∈ List.replicate count ' ', c = ' ' := fun _ _ member => List.eq_of_mem_replicate member
  obtain ⟨_, numbers⟩ := front_unique (blank _) (blank _) (apart n c more first) (apart m d more' first') same
  rw [← List.cons_append, ← List.cons_append, ← first, ← first'] at numbers
  obtain ⟨rfl, behind⟩ := digits_unique rfl rfl numbers
  exact ⟨rfl, (List.cons.inj behind).2⟩

end Decimal

namespace Text

def Clear (s : Text) : Prop := ∀ c ∈ s, ' ' ≤ c

instance (s : Text) : Decidable (Clear s) := List.decidableBAll (' ' ≤ ·) s

theorem clear_append {s t : Text} : Clear (s ++ t) ↔ Clear s ∧ Clear t := List.forall_mem_append

theorem clear_digits (n : Nat) : Clear (Decimal.digits n) := by
  rw [Decimal.digits_eq]
  exact mem_toDigits (by decide) (by decide) n

theorem clear_alignRight {s : Text} (clear : Clear s) (width : Nat) : Clear (Decimal.alignRight width s) :=
  clear_append.mpr ⟨fun _ member => List.eq_of_mem_replicate member ▸ Char.le_refl _, clear⟩

theorem hex_injective : Function.Injective hex := toDigits_injective (by decide) (by decide)

theorem mem_hex (n : Nat) : ∀ c ∈ hex n, c ≠ '\x7d' ∧ ' ' ≤ c := mem_toDigits (by decide) (by decide) n

def marked : Char → Char
  | 'n' => '\n'
  | 'r' => '\r'
  | 't' => '\t'
  | '0' => '\x00'
  | mark => mark

inductive Quoted (c : Char) : Text → Prop where
  | itself : c ≠ '\\' → c ≠ '"' → ' ' ≤ c → Quoted c [c]
  | mark : mark ≠ 'u' → ' ' ≤ mark → marked mark = c → Quoted c ['\\', mark]
  | code : Quoted c ('\\' :: 'u' :: '\x7b' :: (hex c.toNat ++ ['\x7d']))

theorem isPrintable_le {c : Char} (printable : isPrintable c = true) : ' ' ≤ c := by
  have controls : unprintable = (0x0, 0x1f) :: unprintable.tail := rfl
  rw [isPrintable, controls, Ranges.has, if_neg (Nat.not_lt_zero _)] at printable
  split at printable
  · cases printable
  · rename_i beyond
    exact Char.le_def.mpr (UInt32.le_iff_toNat_le.mpr (Nat.lt_of_not_le beyond))

theorem quoteChar_quoted (c : Char) : Quoted c (quoteChar c) := by
  unfold quoteChar
  split_ifs with quote backslash line carriage tab null code
  · exact .mark (by decide) (by decide) quote.symm
  · exact .mark (by decide) (by decide) backslash.symm
  · exact .mark (by decide) (by decide) line.symm
  · exact .mark (by decide) (by decide) carriage.symm
  · exact .mark (by decide) (by decide) tab.symm
  · exact .mark (by decide) (by decide) null.symm
  · exact .code
  · have shown : isExtending c = false ∧ isPrintable c = true := by simpa using code
    exact .itself backslash quote (isPrintable_le shown.2)

namespace Quoted

variable {c d : Char} {s t after after' : Text}

theorem clear (quoted : Quoted c s) : Clear s := by
  cases quoted with
  | itself _ _ shown => exact List.forall_mem_singleton.mpr shown
  | @mark mark _ shown _ => exact List.forall_mem_cons.mpr ⟨(by decide : ' ' ≤ '\\'), List.forall_mem_singleton.mpr shown⟩
  | code =>
    have digits : Clear (hex c.toNat) := fun d member => (mem_hex _ d member).2
    have front : Clear ['\\', 'u', '\x7b'] := by decide
    have back : Clear ['\x7d'] := by decide
    exact clear_append.mpr ⟨front, clear_append.mpr ⟨digits, back⟩⟩

theorem not_quote (quoted : Quoted c s) : s ++ after ≠ '"' :: after' := by
  intro same
  cases quoted with
  | itself _ other _ => exact other (List.cons.inj same).1
  | mark | code => exact absurd (List.cons.inj same).1 (by decide)

theorem unique (quoted : Quoted c s) (quoted' : Quoted d t) (same : s ++ after = t ++ after') : c = d ∧ after = after' := by
  cases quoted with
  | itself backslash _ _ =>
    cases quoted' with
    | itself => exact List.cons.inj same
    | mark | code => exact (backslash (List.cons.inj same).1).elim
  | mark not_code _ stands =>
    cases quoted' with
    | itself backslash _ _ => exact (backslash (List.cons.inj same).1.symm).elim
    | mark _ _ stands' =>
      obtain ⟨mark, behind⟩ := List.cons.inj (List.cons.inj same).2
      exact ⟨by rw [← stands, mark, stands'], behind⟩
    | code => exact (not_code (List.cons.inj (List.cons.inj same).2).1).elim
  | code =>
    cases quoted' with
    | itself backslash _ _ => exact (backslash (List.cons.inj same).1.symm).elim
    | mark not_code _ _ => exact (not_code (List.cons.inj (List.cons.inj same).2).1.symm).elim
    | code =>
      simp only [List.cons_append, List.append_assoc, List.nil_append, List.cons.injEq, true_and] at same
      have ends : ∀ n, ∀ c ∈ hex n, c ≠ '\x7d' := fun n c member => (mem_hex n c member).1
      obtain ⟨digits, behind⟩ := front_unique (ends _) (ends _) (not_not.mpr rfl) (not_not.mpr rfl) same
      exact ⟨Char.toNat_inj.mp (hex_injective digits), (List.cons.inj behind).2⟩

end Quoted

variable {s t after after' : Text}

theorem clear_quote (s : Text) : Clear (quote s) := by
  have inner : Clear (s.flatMap quoteChar) := by
    intro c member
    obtain ⟨d, _, within⟩ := List.mem_flatMap.mp member
    exact (quoteChar_quoted d).clear c within
  have bound : Clear ['"'] := by decide
  exact clear_append.mpr ⟨clear_append.mpr ⟨bound, inner⟩, bound⟩

theorem quoteChars_unique (same : s.flatMap quoteChar ++ '"' :: after = t.flatMap quoteChar ++ '"' :: after') :
    s = t ∧ after = after' := by
  induction s generalizing t with
  | nil =>
    cases t with
    | nil => exact ⟨rfl, (List.cons.inj same).2⟩
    | cons d t =>
      rw [List.flatMap_cons, List.append_assoc] at same
      exact ((quoteChar_quoted d).not_quote same.symm).elim
  | cons c s ih =>
    rw [List.flatMap_cons, List.append_assoc] at same
    cases t with
    | nil => exact ((quoteChar_quoted c).not_quote same).elim
    | cons d t =>
      rw [List.flatMap_cons, List.append_assoc] at same
      obtain ⟨rfl, behind⟩ := (quoteChar_quoted c).unique (quoteChar_quoted d) same
      obtain ⟨rfl, later⟩ := ih behind
      exact ⟨rfl, later⟩

theorem quote_unique (same : quote s ++ after = quote t ++ after') : s = t ∧ after = after' := by
  simp only [quote, List.cons_append, List.append_assoc, List.nil_append, List.cons.injEq, true_and] at same
  exact quoteChars_unique same

end Text
end PatternMachine
