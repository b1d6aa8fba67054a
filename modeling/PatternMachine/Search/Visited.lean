import PatternMachine.Automaton.Basic

namespace PatternMachine

structure Visited where
  width : Nat
  marks : Array Bool
  deriving DecidableEq

namespace Visited

def empty (states width : Nat) : Visited := ⟨width, Array.replicate (states * width) false⟩

def slot (v : Visited) (state : StateId) (position : Nat) : Nat := state * v.width + position

def seen (v : Visited) (state : StateId) (position : Nat) : Bool :=
  if position < v.width then v.marks.getD (v.slot state position) true else true

def insert (v : Visited) (state : StateId) (position : Nat) : Visited :=
  { v with marks := v.marks.setIfInBounds (v.slot state position) true }

def free (v : Visited) : Nat := v.marks.count false

theorem free_insert_lt {v : Visited} {state : StateId} {position : Nat}
    (fresh : v.seen state position = false) : (v.insert state position).free < v.free := by
  unfold seen at fresh
  split at fresh
  · have inside : v.slot state position < v.marks.size := by
      apply Classical.byContradiction
      intro outside
      simp [Array.getD, outside] at fresh
    have unmarked : v.marks[v.slot state position] = false := by
      simpa [Array.getD, inside] using fresh
    have counted : 0 < v.marks.count false :=
      Array.count_pos_iff.mpr (unmarked ▸ Array.getElem_mem inside)
    unfold insert free
    rw [Array.setIfInBounds, dif_pos inside, Array.count_set, unmarked, if_pos (by decide), if_neg (by decide)]
    omega
  · cases fresh

end Visited
end PatternMachine
