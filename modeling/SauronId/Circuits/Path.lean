import SauronId.Circuits.Field
import SauronId.Lib.FullTree
import SauronId.Lib.Gadgets

namespace SauronId.Circuits

open Lib Lib.FullTree Lib.Gadgets

/-- What the circuits take from circomlib besides the gadgets: the hash, which is only assumed to
be a function, and when a signature is valid. -/
structure Circomlib where
  poseidon : List Fr → Fr
  eddsaPoseidon : (Ax Ay S R8x R8y M : Fr) → Prop

namespace Circomlib

def hash2 (K : Circomlib) (left right : Fr) : Fr := K.poseidon [left, right]

/-- `EdDSAPoseidonVerifier()`, which constrains nothing unless it is enabled. -/
def EdDSAPoseidonVerifier (K : Circomlib) (enabled Ax Ay S R8x R8y M : Fr) : Prop :=
  enabled ≠ 0 → K.eddsaPoseidon Ax Ay S R8x R8y M

end Circomlib

def sumKit : Circomlib := ⟨fun l ↦ l.sum + 1, fun _ _ S _ _ M ↦ S = M⟩

theorem fits_32_iff {x : Fr} : Fits 32 x ↔ x.val < 2 ^ 32 :=
  fits_iff (two_pow_le_scalarModulus (by decide))

theorem fits_64_iff {x : Fr} : Fits 64 x ↔ x.val < 2 ^ 64 := fits_iff two_pow_64_le

/-- The loop over the levels of a path: at each one the current hash and its sibling are put in
order and hashed. -/
def HashLevels (K : Circomlib) {levels : ℕ} (leaf : Fr) (pathElements pathIndices : Fin levels → Fr)
    (root : Fr) : Prop :=
  ∃ (levelHashes : Fin (levels + 1) → Fr) (left right : Fin levels → Fr),
    levelHashes ⟨0, levels.succ_pos⟩ = leaf ∧
    (∀ i, Swap (levelHashes i.castSucc) (pathElements i) (pathIndices i) (left i) (right i)) ∧
    (∀ i, levelHashes i.succ = K.poseidon [left i, right i]) ∧
    root = levelHashes (Fin.last levels)

/-- `MerklePathVerifier(levels)`, and `MerklePath(levels)` of the credential circuit. -/
def MerklePathVerifier (K : Circomlib) {levels : ℕ} (leaf : Fr)
    (pathElements pathIndices : Fin levels → Fr) (root : Fr) : Prop :=
  (∀ i, pathIndices i * (1 - pathIndices i) = 0) ∧
    HashLevels K leaf pathElements pathIndices root

/-- The path at a given index, which the action-log circuits write out: the indicators are the
digits of the index, and the path ends at the root. -/
def IndexedPath (K : Circomlib) {levels : ℕ} (index leaf : Fr)
    (pathElements pathIndices : Fin levels → Fr) (root : Fr) : Prop :=
  ∃ (idxBits : Fin levels → Fr) (top : Fr), Num2Bits levels index idxBits ∧
    (∀ i, pathIndices i = idxBits i) ∧ HashLevels K leaf pathElements pathIndices top ∧
    IsEqual top root 1

/-! ### What the paths compute -/

section Paths

variable {K : Circomlib} {levels : ℕ} {leaf root : Fr}

theorem hashLevels_zero {pathElements pathIndices : Fin 0 → Fr} :
    HashLevels K leaf pathElements pathIndices root ↔ root = leaf := by
  constructor
  · rintro ⟨levelHashes, -, -, hleaf, -, -, hroot⟩
    exact hroot.trans hleaf
  · rintro rfl
    exact ⟨fun _ ↦ root, Fin.elim0, Fin.elim0, rfl, fun i ↦ i.elim0, fun i ↦ i.elim0, rfl⟩

theorem hashLevels_succ {pathElements pathIndices : Fin (levels + 1) → Fr} :
    HashLevels K leaf pathElements pathIndices root ↔
      ∃ left right, Swap leaf (pathElements 0) (pathIndices 0) left right ∧
        HashLevels K (K.hash2 left right) (pathElements ∘ Fin.succ) (pathIndices ∘ Fin.succ)
          root := by
  constructor
  · rintro ⟨levelHashes, left, right, hleaf, hswap, hhash, hroot⟩
    have hfirst : Swap leaf (pathElements 0) (pathIndices 0) (left 0) (right 0) := by
      rw [← hleaf]
      exact hswap 0
    refine ⟨left 0, right 0, hfirst, levelHashes ∘ Fin.succ, left ∘ Fin.succ,
      right ∘ Fin.succ, hhash 0, fun i ↦ hswap i.succ, fun i ↦ hhash i.succ, hroot⟩
  · rintro ⟨l, r, hfirst, levelHashes, left, right, hleaf, hswap, hhash, hroot⟩
    refine ⟨Fin.cons leaf levelHashes, Fin.cons l left, Fin.cons r right, rfl, ?_, ?_, hroot⟩
    · intro i
      cases i using Fin.cases with
      | zero => exact hfirst
      | succ i => exact hswap i
    · intro i
      cases i using Fin.cases with
      | zero => exact hleaf
      | succ i => exact hhash i

theorem digits_succ (m : ℕ) :
    digits scalarModulus (levels + 1) m ∘ Fin.succ = digits scalarModulus levels (m / 2) := by
  funext i
  simp only [Function.comp_apply, digits, Fin.val_succ, Nat.testBit_succ]

theorem swap_digit {m : ℕ} {a s left right : Fr} :
    Swap a s (digits scalarModulus (levels + 1) m 0) left right ↔ (left, right) = side m a s := by
  unfold digits side
  rw [Fin.val_zero, Nat.testBit_zero, Prod.ext_iff]
  by_cases hodd : m % 2 = 1
  · simp only [hodd, decide_true, if_true]
    exact swap_one
  · simp only [hodd, decide_false, if_false, Bool.false_eq_true]
    exact swap_zero

theorem hashLevels_iff {pathElements : Fin levels → Fr} {m : ℕ} :
    HashLevels K leaf pathElements (digits scalarModulus levels m) root ↔
      root = climb K.hash2 (List.ofFn pathElements) m leaf := by
  induction levels generalizing leaf m with
  | zero => rw [hashLevels_zero, List.ofFn_zero, climb]
  | succ levels ih =>
    rw [hashLevels_succ, List.ofFn_succ, climb]
    simp only [digits_succ, swap_digit]
    constructor
    · rintro ⟨left, right, hside, hrest⟩
      rw [← hside]
      exact ih.mp hrest
    · intro hroot
      exact ⟨_, _, rfl, ih.mpr hroot⟩

variable {pathElements pathIndices : Fin levels → Fr}

theorem merklePathVerifier_iff :
    MerklePathVerifier K leaf pathElements pathIndices root ↔
      ∃ m < 2 ^ levels, pathIndices = digits scalarModulus levels m ∧
        root = climb K.hash2 (List.ofFn pathElements) m leaf := by
  constructor
  · rintro ⟨hbinary, hlevels⟩
    have hdigits := digits_fromDigits (fun i ↦ binary_iff'.mp (hbinary i))
    rw [← hdigits, hashLevels_iff] at hlevels
    exact ⟨fromDigits pathIndices, fromDigits_lt _, hdigits.symm, hlevels⟩
  · rintro ⟨m, -, rfl, hroot⟩
    exact ⟨fun i ↦ binary_iff'.mpr (digits_binary levels m i), hashLevels_iff.mpr hroot⟩

theorem indexedPath_iff {index : Fr} :
    IndexedPath K index leaf pathElements pathIndices root ↔
      ∃ m : ℕ, m < 2 ^ levels ∧ (m : Fr) = index ∧ pathIndices = digits scalarModulus levels m ∧
        root = climb K.hash2 (List.ofFn pathElements) m leaf := by
  constructor
  · rintro ⟨idxBits, top, hbits, hindices, hlevels, hroot⟩
    obtain ⟨m, hm, hindex, rfl⟩ := num2Bits_iff.mp hbits
    obtain rfl : pathIndices = digits scalarModulus levels m := funext hindices
    exact ⟨m, hm, hindex, rfl, isEqual_one.mp hroot ▸ hashLevels_iff.mp hlevels⟩
  · rintro ⟨m, hm, hindex, rfl, hroot⟩
    exact ⟨_, root, num2Bits_iff.mpr ⟨m, hm, hindex, rfl⟩, fun _ ↦ rfl, hashLevels_iff.mpr hroot,
      isEqual_one.mpr rfl⟩

end Paths

/-! ### Trees -/

def pathInputs (K : Circomlib) {levels : ℕ} (leaf : Fr) (pathElements pathIndices : Fin levels → Fr) :
    Set (List Fr) :=
  {q | ∃ a b, (a, b) ∈ climbed K.hash2 (List.ofFn pathElements) (fromDigits pathIndices) leaf ∧
    q = [a, b]}

/-- A tree of hashes. Everything that is hashed for it is among the inputs `T`. -/
structure Tree (K : Circomlib) (T : Set (List Fr)) (levels : ℕ) where
  leaves : ℕ → Fr
  asked : ∀ a b, (a, b) ∈ pairs K.hash2 levels leaves → [a, b] ∈ T

namespace Tree

variable {K : Circomlib} {T : Set (List Fr)} {levels : ℕ} {leaf : Fr}

def root (t : Tree K T levels) : Fr := FullTree.root K.hash2 levels t.leaves

theorem hash2_injOn (hT : Set.InjOn K.poseidon T) :
    Set.InjOn (Function.uncurry K.hash2) {q | [q.1, q.2] ∈ T} := by
  rintro ⟨a, b⟩ hab ⟨c, d⟩ hcd he
  have hlist : [a, b] = [c, d] := hT hab hcd he
  simpa using hlist

theorem leaf_of_path (t : Tree K T levels) (hT : Set.InjOn K.poseidon T)
    {pathElements : Fin levels → Fr} {m : ℕ} (hm : m < 2 ^ levels)
    (hin : pathInputs K leaf pathElements (digits scalarModulus levels m) ⊆ T)
    (h : t.root = climb K.hash2 (List.ofFn pathElements) m leaf) : t.leaves m = leaf := by
  have hlen : (List.ofFn pathElements).length = levels := List.length_ofFn
  apply leaf_of_climb (hash2_injOn hT) (l := List.ofFn pathElements)
  · rwa [hlen]
  · rw [hlen]
    rintro ⟨a, b⟩ hab
    exact t.asked a b hab
  · rintro ⟨a, b⟩ hab
    refine hin ⟨a, b, ?_, rfl⟩
    rwa [fromDigits_digits hm]
  · rw [hlen]
    exact h.symm

theorem exists_path (t : Tree K T levels) {m : ℕ} (hm : m < 2 ^ levels) :
    ∃ pathElements : Fin levels → Fr,
      t.root = climb K.hash2 (List.ofFn pathElements) m (t.leaves m) ∧
      pathInputs K (t.leaves m) pathElements (digits scalarModulus levels m) ⊆ T := by
  obtain ⟨pathElements, hpath⟩ :
      ∃ f : Fin levels → Fr, List.ofFn f = opening K.hash2 levels t.leaves m := by
    have hlen := length_opening (h := K.hash2) levels t.leaves m
    exact ⟨fun i ↦ (opening K.hash2 levels t.leaves m).get (i.cast hlen.symm),
      List.ext_getElem (by simp) (by simp)⟩
  refine ⟨pathElements, ?_, ?_⟩
  · rw [hpath, climb_opening hm]
    rfl
  · rintro q ⟨a, b, hab, rfl⟩
    rw [hpath, fromDigits_digits hm] at hab
    exact t.asked a b (climbed_opening hm hab)

end Tree

/-! ### Trees to evaluate with -/

theorem injOn_listed {poseidon : List Fr → Fr} {asked : List (List Fr)}
    (h : (asked.map poseidon).Nodup) : Set.InjOn poseidon {q | q ∈ asked} := by
  intro x hx y hy he
  exact List.inj_on_of_nodup_map h hx hy he

def twoLeaves {K : Circomlib} {T : Set (List Fr)} (leaves : ℕ → Fr)
    (h : [leaves 0, leaves 1] ∈ T) : Tree K T 1 where
  leaves := leaves
  asked a b := by
    rintro (⟨i, hi, hab⟩ | hab)
    · obtain rfl : i = 0 := by simpa using hi
      obtain ⟨rfl, rfl⟩ := Prod.mk.inj hab
      exact h
    · exact hab.elim

end SauronId.Circuits
