import Mathlib.Data.List.Basic

namespace SauronId.Lib

/-- A Merkle tree library: the root over a list of leaves, the sibling hashes
that prove one leaf, and the fold a verifier computes from a leaf, its index, the
number of leaves and those hashes. -/
structure MerkleScheme (α : Type) where
  root : List α → Option α
  proof : List α → ℕ → List α
  fold : (leaf : α) → (index size : ℕ) → (hashes : List α) → Option α
  fold_proof : ∀ (leaves : List α) (i : ℕ) (leaf : α), leaves[i]? = some leaf →
    fold leaf i leaves.length (proof leaves i) = root leaves

namespace MerkleScheme

variable {α : Type} (h : α → α → α)

def pairUp : List α → List α
  | a :: b :: rest => h a b :: pairUp rest
  | [a] => [a]
  | [] => []

def pairRoot : ℕ → List α → Option α
  | _, [] => none
  | _, [a] => some a
  | 0, _ => none
  | n + 1, l => pairRoot n (pairUp h l)

def siblings : ℕ → List α → ℕ → List α
  | 0, _, _ => []
  | n + 1, l, i =>
    if l.length ≤ 1 then []
    else (l[if i % 2 = 1 then i - 1 else i + 1]?).toList ++ siblings n (pairUp h l) (i / 2)

def climb : ℕ → α → (index size : ℕ) → List α → Option α
  | 0, a, _, _, _ => some a
  | n + 1, a, i, size, hashes =>
    if size ≤ 1 then some a
    else if i % 2 = 1 then
      hashes.head?.bind (fun s ↦ climb n (h s a) (i / 2) ((size + 1) / 2) hashes.tail)
    else if i + 1 < size then
      hashes.head?.bind (fun s ↦ climb n (h a s) (i / 2) ((size + 1) / 2) hashes.tail)
    else climb n a (i / 2) ((size + 1) / 2) hashes

variable {h}

theorem length_pairUp (l : List α) : (pairUp h l).length = (l.length + 1) / 2 := by
  fun_induction pairUp h l with
  | case1 a b rest ih =>
    simp only [List.length_cons, ih]
    omega
  | case2 a => simp
  | case3 => simp

theorem pairUp_getElem? (l : List α) (j : ℕ) :
    (pairUp h l)[j]? =
      l[2 * j]?.map (fun a ↦ (l[2 * j + 1]?).elim a (h a)) := by
  fun_induction pairUp h l generalizing j with
  | case1 a b rest ih =>
    cases j with
    | zero => rfl
    | succ j =>
      rw [List.getElem?_cons_succ, ih, Nat.mul_succ]
      rfl
  | case2 a => cases j <;> simp
  | case3 => simp

variable {n : ℕ} {l : List α}

theorem pairRoot_of_single {i : ℕ} {a : α} (hl : l.length ≤ 1) (ha : l[i]? = some a) :
    pairRoot h n l = some a := by
  match l, i with
  | [], i => simp at ha
  | [b], 0 => cases n <;> exact ha
  | [b], i + 1 => simp at ha
  | _ :: _ :: _, i => simp at hl

theorem pairRoot_succ (hl : ¬ l.length ≤ 1) :
    pairRoot h (n + 1) l = pairRoot h n (pairUp h l) := by
  match l with
  | [] => simp at hl
  | [b] => simp at hl
  | _ :: _ :: _ => rfl

theorem climb_siblings {i : ℕ} {a : α} (hn : l.length ≤ n + 1) (ha : l[i]? = some a) :
    climb h n a i l.length (siblings h n l i) = pairRoot h n l := by
  induction n generalizing l i a with
  | zero => rw [pairRoot_of_single hn ha, climb]
  | succ n ih =>
    by_cases hl : l.length ≤ 1
    · rw [pairRoot_of_single hl ha, climb, if_pos hl]
    have hi : i < l.length := (List.getElem?_eq_some_iff.mp ha).1
    have hup : (pairUp h l).length ≤ n + 1 := by
      rw [length_pairUp]
      omega
    rw [climb, siblings, if_neg hl, if_neg hl, pairRoot_succ hl, ← length_pairUp]
    by_cases hodd : i % 2 = 1
    · obtain ⟨j, rfl⟩ : ∃ j, i = 2 * j + 1 := ⟨i / 2, by omega⟩
      have hs : l[2 * j]? = some l[2 * j] := List.getElem?_eq_getElem (by omega)
      have hj : (2 * j + 1) / 2 = j := by omega
      rw [if_pos hodd, if_pos hodd, Nat.add_sub_cancel, hs, hj]
      exact ih hup (by rw [pairUp_getElem?, hs, ha]; rfl)
    · obtain ⟨j, rfl⟩ : ∃ j, i = 2 * j := ⟨i / 2, by omega⟩
      have hj : 2 * j / 2 = j := by omega
      rw [if_neg hodd, if_neg hodd, hj]
      by_cases hright : 2 * j + 1 < l.length
      · have hs : l[2 * j + 1]? = some l[2 * j + 1] := List.getElem?_eq_getElem hright
        rw [if_pos hright, hs]
        exact ih hup (by rw [pairUp_getElem?, hs, ha]; rfl)
      · have hs : l[2 * j + 1]? = none := List.getElem?_eq_none (by omega)
        rw [if_neg hright, hs]
        exact ih hup (by rw [pairUp_getElem?, hs, ha]; rfl)

section Naturality

variable {β : Type} {f : α → β} {g : β → β → β}

theorem pairUp_map (hf : ∀ a b, f (h a b) = g (f a) (f b)) (l : List α) :
    pairUp g (l.map f) = (pairUp h l).map f := by
  fun_induction pairUp h l with
  | case1 a b rest ih => simp only [List.map_cons, pairUp, ih, hf]
  | case2 a => rfl
  | case3 => rfl

theorem pairRoot_map (hf : ∀ a b, f (h a b) = g (f a) (f b)) (n : ℕ) (l : List α) :
    pairRoot g n (l.map f) = (pairRoot h n l).map f := by
  induction n generalizing l with
  | zero =>
    match l with
    | [] => rfl
    | [a] => rfl
    | a :: b :: rest => rfl
  | succ n ih =>
    match l with
    | [] => rfl
    | [a] => rfl
    | a :: b :: rest =>
      have hup : pairUp g ((a :: b :: rest).map f) = (pairUp h (a :: b :: rest)).map f :=
        pairUp_map hf _
      exact (congrArg (pairRoot g n) hup).trans (ih _)

end Naturality

theorem flatten_pairUp (l : List (List α)) : (pairUp (· ++ ·) l).flatten = l.flatten := by
  fun_induction pairUp (· ++ ·) l with
  | case1 a b rest ih => simp only [List.flatten_cons, ih, List.append_assoc]
  | case2 a => rfl
  | case3 => rfl

theorem pairRoot_append {l : List (List α)} (hn : l.length ≤ n + 1) (hl : l ≠ []) :
    pairRoot (· ++ ·) n l = some l.flatten := by
  induction n generalizing l with
  | zero =>
    match l, hl, hn with
    | [a], _, _ => simp [pairRoot]
  | succ n ih =>
    by_cases hone : l.length ≤ 1
    · match l, hl, hone with
      | [a], _, _ => simp [pairRoot]
    · have hup : (pairUp (· ++ ·) l).length = (l.length + 1) / 2 := length_pairUp l
      rw [pairRoot_succ hone, ih (by omega) (List.ne_nil_of_length_pos (by omega)),
        flatten_pairUp]

def pairwise (h : α → α → α) : MerkleScheme α where
  root l := pairRoot h l.length l
  proof l i := siblings h l.length l i
  fold a i size hashes := climb h size a i size hashes
  fold_proof _ _ _ ha := climb_siblings (Nat.le_succ _) ha

end MerkleScheme

end SauronId.Lib
