import Mathlib.Algebra.Order.Group.Nat
import Mathlib.Data.Set.Function

namespace SauronId.Lib.FullTree

variable {α : Type} (h : α → α → α)

def up (leaves : ℕ → α) (i : ℕ) : α := h (leaves (2 * i)) (leaves (2 * i + 1))

def root : ℕ → (ℕ → α) → α
  | 0, leaves => leaves 0
  | levels + 1, leaves => root levels (up h leaves)

def level (leaves : ℕ → α) : ℕ → ℕ → α
  | 0 => leaves
  | n + 1 => up h (level leaves n)

def pairs : ℕ → (ℕ → α) → Set (α × α)
  | 0, _ => ∅
  | levels + 1, leaves =>
    {q | ∃ i < 2 ^ levels, q = (leaves (2 * i), leaves (2 * i + 1))} ∪ pairs levels (up h leaves)

def side (index : ℕ) (a s : α) : α × α := if index % 2 = 1 then (s, a) else (a, s)

def climb : List α → ℕ → α → α
  | [], _, a => a
  | s :: ss, index, a => climb ss (index / 2) (Function.uncurry h (side index a s))

def climbed : List α → ℕ → α → Set (α × α)
  | [], _, _ => ∅
  | s :: ss, index, a =>
    insert (side index a s) (climbed ss (index / 2) (Function.uncurry h (side index a s)))

def sibling (index : ℕ) : ℕ := if index % 2 = 1 then index - 1 else index + 1

def opening : ℕ → (ℕ → α) → ℕ → List α
  | 0, _, _ => []
  | levels + 1, leaves, index =>
    leaves (sibling index) :: opening levels (up h leaves) (index / 2)

variable {h} {levels index : ℕ} {leaves : ℕ → α} {a : α}

@[simp] theorem length_opening (levels : ℕ) (leaves : ℕ → α) (index : ℕ) :
    (opening h levels leaves index).length = levels := by
  induction levels generalizing leaves index with
  | zero => rfl
  | succ levels ih => rw [opening, List.length_cons, ih]

theorem side_sibling (leaves : ℕ → α) (index : ℕ) :
    side index (leaves index) (leaves (sibling index)) =
      (leaves (2 * (index / 2)), leaves (2 * (index / 2) + 1)) := by
  unfold side sibling
  split_ifs with hodd
  · exact Prod.ext (congrArg leaves (by omega)) (congrArg leaves (by omega))
  · exact Prod.ext (congrArg leaves (by omega)) (congrArg leaves (by omega))

theorem half_lt (hi : index < 2 ^ (levels + 1)) : index / 2 < 2 ^ levels := by
  rw [Nat.pow_succ] at hi
  omega

theorem climb_opening (hi : index < 2 ^ levels) :
    climb h (opening h levels leaves index) index (leaves index) = root h levels leaves := by
  induction levels generalizing leaves index with
  | zero =>
    obtain rfl : index = 0 := by simpa using hi
    rfl
  | succ levels ih =>
    rw [opening, climb, side_sibling]
    exact ih (half_lt hi)

theorem climbed_opening (hi : index < 2 ^ levels) :
    climbed h (opening h levels leaves index) index (leaves index) ⊆ pairs h levels leaves := by
  induction levels generalizing leaves index with
  | zero => exact Set.empty_subset _
  | succ levels ih =>
    rw [opening, climbed, side_sibling, pairs]
    refine Set.insert_subset (.inl ⟨index / 2, half_lt hi, rfl⟩) ?_
    exact (ih (half_lt hi)).trans Set.subset_union_right

/-- Whatever leads to the root from a place of the tree is the leaf at that place, as long as no
two of the pairs that are joined collide. -/
theorem leaf_of_climb {T : Set (α × α)} (hinj : Set.InjOn (Function.uncurry h) T) {l : List α}
    (hi : index < 2 ^ l.length) (htree : pairs h l.length leaves ⊆ T)
    (hpath : climbed h l index a ⊆ T)
    (hroot : climb h l index a = root h l.length leaves) : leaves index = a := by
  induction l generalizing leaves index a with
  | nil =>
    obtain rfl : index = 0 := by simpa using hi
    exact hroot.symm
  | cons s l ih =>
    rw [List.length_cons, pairs] at htree
    rw [climbed] at hpath
    have hhalf : index / 2 < 2 ^ l.length := half_lt hi
    have hup : up h leaves (index / 2) = Function.uncurry h (side index a s) :=
      ih hhalf (Set.subset_union_right.trans htree) ((Set.subset_insert _ _).trans hpath) hroot
    -- the two pairs below that node are one
    have hpair : (leaves (2 * (index / 2)), leaves (2 * (index / 2) + 1)) = side index a s :=
      hinj (htree (.inl ⟨_, hhalf, rfl⟩)) (hpath (Set.mem_insert _ _)) hup
    unfold side at hpair
    split_ifs at hpair with hodd
    · rw [← (Prod.mk.inj hpair).2]
      congr 1
      omega
    · rw [← (Prod.mk.inj hpair).1]
      congr 1
      omega

theorem level_up (leaves : ℕ → α) (n : ℕ) : level h (up h leaves) n = level h leaves (n + 1) := by
  induction n with
  | zero => rfl
  | succ n ih =>
    rw [level, ih]
    rfl

theorem root_eq_level (levels : ℕ) (leaves : ℕ → α) : root h levels leaves = level h leaves levels 0 := by
  induction levels generalizing leaves with
  | zero => rfl
  | succ levels ih => rw [root, ih, level_up]

end SauronId.Lib.FullTree
