import SauronId.Circuits.Path

namespace SauronId.Circuits

open Lib.FullTree Lib.Gadgets

/-- The append-only tree of the SDK. Its layers are rebuilt from the leaves at each insertion, so
they are not part of the state. -/
structure PoseidonMerkleTree where
  depth : ℕ
  leaves : List Fr
  fits : leaves.length ≤ 2 ^ depth

structure MerkleProof where
  pathElements : List Fr
  pathIndices : List ℕ
  (root leaf : Fr)

namespace PoseidonMerkleTree

variable (K : Circomlib)

def init (depth : ℕ) : PoseidonMerkleTree := ⟨depth, [], Nat.zero_le _⟩

def zeroHashes : ℕ → Fr
  | 0 => 0
  | i + 1 => K.hash2 (zeroHashes i) (zeroHashes i)

def nextLayer (zero : Fr) : List Fr → List Fr
  | left :: right :: rest => K.hash2 left right :: nextLayer zero rest
  | [left] => [K.hash2 left zero]
  | [] => []

def layers (t : PoseidonMerkleTree) : ℕ → List Fr
  | 0 => t.leaves
  | level + 1 => nextLayer K (zeroHashes K level) (layers t level)

def insert (t : PoseidonMerkleTree) (leaf : Fr) : Except String (ℕ × PoseidonMerkleTree) :=
  if h : t.leaves.length < 2 ^ t.depth then
    .ok (t.leaves.length, ⟨t.depth, t.leaves ++ [leaf], by simpa using h⟩)
  else .error ("Tree full: max " ++ toString (2 ^ t.depth) ++ " leaves")

def getRoot (t : PoseidonMerkleTree) : Fr :=
  (t.layers K t.depth).head?.getD (zeroHashes K t.depth)

/-- The loop of `getProof` over the remaining levels. -/
def pathElementsFrom (t : PoseidonMerkleTree) : (remaining level currentIndex : ℕ) → List Fr
  | 0, _, _ => []
  | remaining + 1, level, currentIndex =>
    (t.layers K level).getD (sibling currentIndex) (zeroHashes K level) ::
      pathElementsFrom t remaining (level + 1) (currentIndex / 2)

def pathIndicesFrom : (remaining currentIndex : ℕ) → List ℕ
  | 0, _ => []
  | remaining + 1, currentIndex =>
    currentIndex % 2 :: pathIndicesFrom remaining (currentIndex / 2)

def getProof (t : PoseidonMerkleTree) (leafIndex : ℕ) : Except String MerkleProof :=
  match t.leaves[leafIndex]? with
  | none => .error ("Leaf index " ++ toString leafIndex ++ " out of range")
  | some leaf => .ok
    { pathElements := t.pathElementsFrom K t.depth 0 leafIndex
      pathIndices := pathIndicesFrom t.depth leafIndex
      root := t.getRoot K
      leaf := leaf }

def slot (t : PoseidonMerkleTree) (i : ℕ) : Fr := t.leaves.getD i 0

variable {K}

theorem nextLayer_getD (zero : Fr) (l : List Fr) (i : ℕ) :
    (nextLayer K zero l).getD i (K.hash2 zero zero) =
      K.hash2 (l.getD (2 * i) zero) (l.getD (2 * i + 1) zero) := by
  fun_induction nextLayer K zero l generalizing i with
  | case1 left right rest ih =>
    cases i with
    | zero => rfl
    | succ i => exact ih i
  | case2 left => cases i <;> rfl
  | case3 => rfl

theorem layers_getD (t : PoseidonMerkleTree) (n i : ℕ) :
    (t.layers K n).getD i (zeroHashes K n) = level K.hash2 t.slot n i := by
  induction n generalizing i with
  | zero => rfl
  | succ n ih =>
    rw [layers, zeroHashes, nextLayer_getD, ih, ih]
    rfl

theorem getRoot_eq (t : PoseidonMerkleTree) : t.getRoot K = root K.hash2 t.depth t.slot := by
  rw [root_eq_level, ← layers_getD, getRoot, List.getD_eq_getElem?_getD, List.head?_eq_getElem?]

theorem pathElementsFrom_eq (t : PoseidonMerkleTree) (remaining n index : ℕ) :
    t.pathElementsFrom K remaining n index =
      opening K.hash2 remaining (level K.hash2 t.slot n) index := by
  induction remaining generalizing n index with
  | zero => rfl
  | succ remaining ih =>
    rw [pathElementsFrom, opening, layers_getD, ih]
    rfl

theorem pathIndicesFrom_eq (remaining index : ℕ) :
    (fun j : Fin remaining ↦ ((pathIndicesFrom remaining index).getD j 0 : Fr)) =
      digits scalarModulus remaining index := by
  induction remaining generalizing index with
  | zero => exact funext (fun j ↦ j.elim0)
  | succ remaining ih =>
    funext j
    cases j using Fin.cases with
    | zero =>
      rcases Nat.mod_two_eq_zero_or_one index with h | h
      · simp [pathIndicesFrom, digits, h]
      · simp [pathIndicesFrom, digits, h]
    | succ j =>
      have htail := congrFun (ih (index / 2)) j
      rw [← digits_succ] at htail
      exact htail

theorem merklePathVerifier_getProof {t : PoseidonMerkleTree} {leafIndex : ℕ} {proof : MerkleProof}
    (h : t.getProof K leafIndex = .ok proof) :
    MerklePathVerifier K proof.leaf (fun j : Fin t.depth ↦ proof.pathElements.getD j 0)
      (fun j ↦ (proof.pathIndices.getD j 0 : Fr)) proof.root := by
  unfold getProof at h
  split at h
  · cases h
  · rename_i leaf hleaf
    obtain rfl := Except.ok.inj h
    obtain ⟨hlt, hget⟩ := List.getElem?_eq_some_iff.mp hleaf
    have hindex : leafIndex < 2 ^ t.depth := hlt.trans_le t.fits
    have hslot : t.slot leafIndex = leaf := by
      rw [slot, List.getD_eq_getElem?_getD, hleaf, Option.getD_some]
    have hopening := t.pathElementsFrom_eq (K := K) t.depth 0 leafIndex
    have hlen : (t.pathElementsFrom K t.depth 0 leafIndex).length = t.depth := by
      rw [hopening, length_opening]
    have hlist : List.ofFn (fun j : Fin t.depth ↦
        (t.pathElementsFrom K t.depth 0 leafIndex).getD j 0) =
        t.pathElementsFrom K t.depth 0 leafIndex := by
      apply List.ext_getElem
      · rw [List.length_ofFn, hlen]
      · intro j hj hj'
        rw [List.getElem_ofFn, List.getD_eq_getElem _ _ hj']
    refine merklePathVerifier_iff.mpr ⟨leafIndex, hindex, pathIndicesFrom_eq _ _, ?_⟩
    show t.getRoot K = climb K.hash2 (List.ofFn _) leafIndex leaf
    rw [hlist, hopening, ← hslot]
    exact (t.getRoot_eq).trans (climb_opening hindex).symm

theorem merklePathVerifier_unique {levels : ℕ} {leaf r r' : Fr}
    {pathElements pathIndices : Fin levels → Fr}
    (h : MerklePathVerifier K leaf pathElements pathIndices r)
    (h' : MerklePathVerifier K leaf pathElements pathIndices r') : r = r' := by
  obtain ⟨m, hm, hdigits, rfl⟩ := merklePathVerifier_iff.mp h
  obtain ⟨m', hm', hdigits', rfl⟩ := merklePathVerifier_iff.mp h'
  have hindex : m = m' := by
    rw [← fromDigits_digits (p := scalarModulus) hm, ← hdigits, hdigits', fromDigits_digits hm']
  rw [hindex]

theorem pathIndicesFrom_eq_map (remaining index : ℕ) :
    pathIndicesFrom remaining index =
      (List.range remaining).map (fun j ↦ index / 2 ^ j % 2) := by
  induction remaining generalizing index with
  | zero => rfl
  | succ remaining ih =>
    rw [pathIndicesFrom, ih, List.range_succ_eq_map, List.map_cons, List.map_map, pow_zero,
      Nat.div_one]
    refine congrArg _ (List.map_congr_left fun j _ ↦ ?_)
    rw [Function.comp_apply, Nat.pow_succ', Nat.div_div_eq_div_mul]

def insertAll (t : PoseidonMerkleTree) (leaves : List Fr) : Except String PoseidonMerkleTree :=
  leaves.foldlM (fun t leaf ↦ (t.insert leaf).map Prod.snd) t

theorem insertAll_eq_ok (t : PoseidonMerkleTree) (leaves : List Fr)
    (h : t.leaves.length + leaves.length ≤ 2 ^ t.depth) :
    t.insertAll leaves = .ok ⟨t.depth, t.leaves ++ leaves, by rwa [List.length_append]⟩ := by
  induction leaves generalizing t with
  | nil => simp [insertAll, pure, Except.pure]
  | cons leaf leaves ih =>
    have hroom : t.leaves.length < 2 ^ t.depth := by
      rw [List.length_cons] at h
      omega
    have hnext := ih ⟨t.depth, t.leaves ++ [leaf], by simpa using hroom⟩
      (by simpa [Nat.add_assoc, Nat.add_comm 1] using h)
    rw [insertAll, List.foldlM_cons, insert, dif_pos hroom]
    simp only [List.append_assoc, List.singleton_append] at hnext
    exact hnext

/-- The tree of a sequence of insertions has the root of the full tree over the inserted leaves and
zeros, and the paths to its leaves end at that root and nowhere else. -/
theorem append_only_tree (K : Circomlib) (depth : ℕ) (leaves : List Fr)
    (h : leaves.length ≤ 2 ^ depth) :
    ∃ t, (init depth).insertAll leaves = .ok t ∧
      t.getRoot K = root K.hash2 depth (fun i ↦ leaves.getD i 0) ∧
      ∀ i leaf, leaves[i]? = some leaf → ∃ proof, t.getProof K i = .ok proof ∧
        proof.leaf = leaf ∧ proof.root = t.getRoot K ∧ proof.pathElements.length = depth ∧
        proof.pathIndices = (List.range depth).map (fun j ↦ i / 2 ^ j % 2) ∧
        ∀ r, MerklePathVerifier K leaf (fun j : Fin depth ↦ proof.pathElements.getD j 0)
          (fun j ↦ (proof.pathIndices.getD j 0 : Fr)) r ↔ r = t.getRoot K := by
  have hinserted := insertAll_eq_ok (init depth) leaves (by simpa [init] using h)
  refine ⟨_, hinserted, getRoot_eq _, fun i leaf hleaf ↦ ?_⟩
  set t : PoseidonMerkleTree := ⟨depth, [] ++ leaves, h⟩
  have hproof : t.getProof K i = .ok ⟨t.pathElementsFrom K depth 0 i, pathIndicesFrom depth i,
      t.getRoot K, leaf⟩ := by
    unfold getProof
    rw [show t.leaves[i]? = some leaf from hleaf]
  have hpath := merklePathVerifier_getProof hproof
  refine ⟨_, hproof, rfl, rfl, ?_, pathIndicesFrom_eq_map depth i,
    fun r ↦ ⟨fun hr ↦ merklePathVerifier_unique hr hpath, ?_⟩⟩
  · exact (congrArg List.length (t.pathElementsFrom_eq depth 0 i)).trans (length_opening _ _ _)
  · rintro rfl
    exact hpath

theorem append_only_tree_five :
    ∃ t, (init 1).insertAll [5] = .ok t ∧ t.getRoot sumKit = 5 + 0 + 1 := by
  obtain ⟨t, ht, hroot, -⟩ := append_only_tree sumKit 1 [5] (by decide)
  exact ⟨t, ht, hroot.trans (by simp [root, up, Circomlib.hash2, sumKit])⟩

/-- A path that ends at the root of a tree starts at a leaf that was inserted, or at a zero after
the last one, and its bits are those of the index of this leaf. -/
theorem inserted_of_path {T : Set (List Fr)} (hT : Set.InjOn K.poseidon T)
    (t : PoseidonMerkleTree)
    (hasked : ∀ a b, (a, b) ∈ pairs K.hash2 t.depth t.slot → [a, b] ∈ T) {leaf : Fr}
    {pathElements pathIndices : Fin t.depth → Fr}
    (hin : pathInputs K leaf pathElements pathIndices ⊆ T)
    (h : MerklePathVerifier K leaf pathElements pathIndices (t.getRoot K)) :
    ∃ i < 2 ^ t.depth, pathIndices = digits scalarModulus t.depth i ∧
      leaf = t.leaves.getD i 0 := by
  obtain ⟨i, hi, rfl, hroot⟩ := merklePathVerifier_iff.mp h
  let tree : Tree K T t.depth := ⟨t.slot, hasked⟩
  exact ⟨i, hi, rfl, (tree.leaf_of_path hT hi hin (t.getRoot_eq.symm.trans hroot)).symm⟩

theorem inserted_of_path_five :
    ∃ i < 2, digits scalarModulus 1 0 = digits scalarModulus 1 i ∧ (5 : Fr) = [5].getD i 0 := by
  let t : PoseidonMerkleTree := ⟨1, [5], by decide⟩
  let tree : Tree sumKit {[(5 : Fr), 0]} 1 := twoLeaves t.slot rfl
  obtain ⟨pathElements, hroot, hin⟩ := tree.exists_path (show 0 < 2 ^ 1 by decide)
  exact inserted_of_path (Set.injOn_singleton _ _) t tree.asked hin
    (merklePathVerifier_iff.mpr ⟨0, by decide, rfl, t.getRoot_eq.trans hroot⟩)

end PoseidonMerkleTree

end SauronId.Circuits
