import Mathlib.Data.Finset.Sort
import SauronId.Circuits.ActionLog
import SauronId.Lib.Gaps

namespace SauronId.Circuits

open Lib Lib.Gadgets

structure NonMembershipSignals (levels setLevels fields : ℕ) where
  (root denylistRoot entryIndex : Fr)
  entry : Entry fields
  (entryPathElements entryPathIndices : Fin levels → Fr)
  (toolValue low high : Fr)
  (pairPathElements pairPathIndices : Fin setLevels → Fr)

variable {K : Circomlib} {T : Set (List Fr)} {levels setLevels fields : ℕ}

def pairLeaf (K : Circomlib) (low high : Fr) : Fr := K.poseidon [low, high, (2 : ℕ)]

structure ActionSetNonMembership (K : Circomlib) (hfields : 4 ≤ fields)
    (s : NonMembershipSignals levels setLevels fields) (valid : Fr) : Prop where
  tool : toolId hfields s.entry = s.toolValue
  fits : Fits 64 s.toolValue ∧ Fits 64 s.low ∧ Fits 64 s.high
  gap : LessThan 64 s.low s.toolValue 1 ∧ LessThan 64 s.toolValue s.high 1
  path : IndexedPath K s.entryIndex (entryLeaf K s.entry) s.entryPathElements s.entryPathIndices
    s.root
  pair : ∃ top, MerklePathVerifier K (pairLeaf K s.low s.high) s.pairPathElements
    s.pairPathIndices top ∧ IsEqual top s.denylistRoot 1
  valid : valid = 1

def NonMembershipSignals.inputs (K : Circomlib) (s : NonMembershipSignals levels setLevels fields) :
    Set (List Fr) :=
  entryInputs K s.entry s.entryPathElements s.entryPathIndices ∪
    insert [s.low, s.high, (2 : ℕ)]
      (pathInputs K (pairLeaf K s.low s.high) s.pairPathElements s.pairPathIndices)

/-! ### Denylists -/

def maxTool : ℕ := 2 ^ 64 - 1

/-- A denylist: finitely many tool ids strictly between the sentinels. -/
structure Denylist where
  tools : Finset ℕ
  between : ∀ d ∈ tools, 0 < d ∧ d < maxTool

namespace Denylist

def uppers (d : Denylist) : List ℕ := d.tools.sort ++ [maxTool]

def pairs (d : Denylist) : List (ℕ × ℕ) := adjacent (0 :: d.uppers)

variable {d : Denylist}

theorem mem_uppers {x : ℕ} : x ∈ d.uppers ↔ x ∈ d.tools ∨ x = maxTool := by
  simp [uppers]

theorem pairwise_bounds (d : Denylist) : (0 :: d.uppers).Pairwise (· < ·) := by
  refine List.pairwise_cons.mpr ⟨?_, List.pairwise_append.mpr ⟨?_, List.pairwise_singleton _ _, ?_⟩⟩
  · intro x hx
    rcases mem_uppers.mp hx with hx | rfl
    · exact (d.between x hx).1
    · decide
  · exact d.tools.sortedLT_sort.pairwise
  · intro x hx y hy
    rw [List.mem_singleton.mp hy]
    exact (d.between x ((Finset.mem_sort _).mp hx)).2

theorem lt_of_mem_pairs {q : ℕ × ℕ} (hq : q ∈ d.pairs) :
    q.1 < 2 ^ 64 ∧ q.2 < 2 ^ 64 := by
  have hlt : ∀ x ∈ 0 :: d.uppers, x < 2 ^ 64 := by
    intro x hx
    rcases List.mem_cons.mp hx with rfl | hx
    · decide
    · rcases mem_uppers.mp hx with hx | rfl
      · exact (d.between x hx).2.trans (by decide)
      · decide
  exact ⟨hlt _ (mem_of_adjacent hq).1, hlt _ (mem_of_adjacent hq).2⟩

theorem exists_gap_iff {x : ℕ} (hlo : 0 < x) (hhi : x < maxTool) :
    (∃ q ∈ d.pairs, q.1 < x ∧ x < q.2) ↔ x ∉ d.tools := by
  rw [pairs, exists_adjacent_iff d.pairwise_bounds hlo ⟨maxTool, mem_uppers.mpr (.inr rfl), hhi⟩,
    mem_uppers, or_iff_left hhi.ne]

end Denylist

/-- The tree commits the pairs of the denylist in their order. No other leaf is the hash of a
pair. -/
structure Tree.CommitsDenylist (t : Tree K T setLevels) (d : Denylist) : Prop where
  room : d.pairs.length ≤ 2 ^ setLevels
  asked : ∀ q ∈ d.pairs, [(q.1 : Fr), (q.2 : Fr), 2] ∈ T
  leaf : ∀ i q, d.pairs[i]? = some q → t.leaves i = pairLeaf K q.1 q.2
  rest : ∀ i, d.pairs.length ≤ i → i < 2 ^ setLevels →
    ∀ low high, [low, high, 2] ∈ T → t.leaves i ≠ pairLeaf K low high

variable {log : Tree K T levels} {deny : Tree K T setLevels} {d : Denylist}

theorem Tree.CommitsDenylist.pair_of_leaf (hT : Set.InjOn K.poseidon T)
    (hd : deny.CommitsDenylist d) {i : ℕ} (hi : i < 2 ^ setLevels) {low high : Fr}
    (hasked : [low, high, 2] ∈ T) (hleaf : deny.leaves i = pairLeaf K low high) :
    ∃ q ∈ d.pairs, low = (q.1 : Fr) ∧ high = (q.2 : Fr) := by
  cases hq : d.pairs[i]? with
  | none => exact absurd hleaf (hd.rest i (List.getElem?_eq_none_iff.mp hq) hi low high hasked)
  | some q =>
    have hmem : q ∈ d.pairs := List.mem_of_getElem? hq
    have hlist : [low, high, 2] = [(q.1 : Fr), (q.2 : Fr), 2] :=
      hT hasked (hd.asked q hmem) (hleaf.symm.trans (hd.leaf i q hq))
    simp only [List.cons.injEq, and_true] at hlist
    exact ⟨q, hmem, hlist.1, hlist.2⟩

/-- There is a satisfying witness for the row at an index, against the roots of the log and of
the denylist. All that it hashes is among `T`. -/
def NonMembershipProvable (hfields : 4 ≤ fields) (log : Tree K T levels)
    (deny : Tree K T setLevels) (i : ℕ) (e : Entry fields) : Prop :=
  ∃ (s : NonMembershipSignals levels setLevels fields) (valid : Fr),
    ActionSetNonMembership K hfields s valid ∧ s.inputs K ⊆ T ∧ s.root = log.root ∧
    s.denylistRoot = deny.root ∧ s.entryIndex = (i : Fr) ∧ s.entry = e

section

variable {hfields : 4 ≤ fields} {i : ℕ} {e : Entry fields}

theorem exists_gap_of_provable (hT : Set.InjOn K.poseidon T) (hd : deny.CommitsDenylist d)
    (h : NonMembershipProvable hfields log deny i e) :
    ∃ q ∈ d.pairs, q.1 < (toolId hfields e).val ∧ (toolId hfields e).val < q.2 := by
  obtain ⟨s, valid, hs, hin, -, hroot, -, rfl⟩ := h
  obtain ⟨hin, hpairIn⟩ := Set.union_subset_iff.mp hin
  obtain ⟨hasked, hpathIn⟩ := Set.insert_subset_iff.mp hpairIn
  obtain ⟨htool, hlow, hhigh⟩ := hs.fits
  rw [fits_64_iff] at htool hlow hhigh
  obtain ⟨hlo, hhi⟩ := hs.gap
  obtain ⟨top, hpath, heq⟩ := hs.pair
  obtain rfl := isEqual_one.mp heq
  obtain ⟨m, hm, hdigits, hclimb⟩ := merklePathVerifier_iff.mp hpath
  rw [hdigits] at hpathIn
  have hleaf := deny.leaf_of_path hT hm hpathIn (hroot ▸ hclimb)
  obtain ⟨q, hq, hqlow, hqhigh⟩ := hd.pair_of_leaf hT hm hasked hleaf
  obtain ⟨hlt1, hlt2⟩ := Denylist.lt_of_mem_pairs hq
  refine ⟨q, hq, ?_, ?_⟩
  · have hval := (lessThan_one two_pow_65_le hlow htool).mp hlo
    rwa [hqlow, ZMod.val_cast_of_lt (hlt1.trans_le two_pow_64_le), ← hs.tool] at hval
  · have hval := (lessThan_one two_pow_65_le htool hhigh).mp hhi
    rwa [hqhigh, ZMod.val_cast_of_lt (hlt2.trans_le two_pow_64_le), ← hs.tool] at hval

theorem provable_of_gap (hd : deny.CommitsDenylist d) (he : log.EntryAt i e) {q : ℕ × ℕ}
    (hq : q ∈ d.pairs) (hlo : q.1 < (toolId hfields e).val)
    (hhi : (toolId hfields e).val < q.2) : NonMembershipProvable hfields log deny i e := by
  obtain ⟨hlt1, hlt2⟩ := Denylist.lt_of_mem_pairs hq
  have hval1 : (q.1 : Fr).val = q.1 := ZMod.val_cast_of_lt (hlt1.trans_le two_pow_64_le)
  have hval2 : (q.2 : Fr).val = q.2 := ZMod.val_cast_of_lt (hlt2.trans_le two_pow_64_le)
  have htool : (toolId hfields e).val < 2 ^ 64 := hhi.trans hlt2
  have hlow : (q.1 : Fr).val < 2 ^ 64 := by rwa [hval1]
  have hhigh : (q.2 : Fr).val < 2 ^ 64 := by rwa [hval2]
  obtain ⟨pathElements, pathIndices, hpath, hin⟩ := he.exists_path
  obtain ⟨m, hm⟩ := List.mem_iff_getElem?.mp hq
  have hroom : m < 2 ^ setLevels := (List.getElem?_eq_some_iff.mp hm).1.trans_le hd.room
  obtain ⟨pairElements, hclimb, hpairIn⟩ := deny.exists_path hroom
  rw [hd.leaf m q hm] at hclimb hpairIn
  refine ⟨⟨log.root, deny.root, i, e, pathElements, pathIndices, toolId hfields e, q.1, q.2,
    pairElements, digits _ _ m⟩, 1, ?_,
    Set.union_subset hin (Set.insert_subset (hd.asked _ hq) hpairIn), rfl, rfl, rfl, rfl⟩
  exact
    { tool := rfl
      fits := ⟨fits_64_iff.mpr htool, fits_64_iff.mpr hlow,
        fits_64_iff.mpr hhigh⟩
      gap := ⟨(lessThan_one two_pow_65_le hlow htool).mpr (by rwa [hval1]),
        (lessThan_one two_pow_65_le htool hhigh).mpr (by rwa [hval2])⟩
      path := hpath
      pair := ⟨_, merklePathVerifier_iff.mpr ⟨m, hroom, rfl, hclimb⟩, isEqual_one.mpr rfl⟩
      valid := rfl }

end

/-- For a committed row whose tool id lies between the sentinels there is a satisfying witness
exactly when the tool is not on the denylist. -/
theorem nonMembership_iff (hT : Set.InjOn K.poseidon T) (hfields : 4 ≤ fields)
    (hd : deny.CommitsDenylist d) {i : ℕ} {e : Entry fields} (he : log.EntryAt i e)
    (hlo : 0 < (toolId hfields e).val) (hhi : (toolId hfields e).val < maxTool) :
    NonMembershipProvable hfields log deny i e ↔ (toolId hfields e).val ∉ d.tools := by
  rw [← Denylist.exists_gap_iff hlo hhi]
  constructor
  · exact exists_gap_of_provable hT hd
  · rintro ⟨q, hq, hgap⟩
    exact provable_of_gap hd he hq hgap.1 hgap.2

section Demo

def deniedFive : Denylist := ⟨{5}, by decide⟩

theorem pairs_deniedFive : deniedFive.pairs = [(0, 5), (5, maxTool)] := by
  simp [Denylist.pairs, Denylist.uppers, deniedFive, adjacent]

def toolRows (i : ℕ) : Entry 4 :=
  fun j ↦ ((if i = 0 then ![1, 1, 1, 7] else ![2, 2, 2, 5] : Fin 4 → ℕ) j : Fr)

def pairLeaves (i : ℕ) : Fr :=
  if i = 0 then pairLeaf sumKit (0 : ℕ) (5 : ℕ) else pairLeaf sumKit (5 : ℕ) maxTool

def toolAsked : List (List Fr) :=
  [List.ofFn (toolRows 0), List.ofFn (toolRows 1), [entryLeaf sumKit (toolRows 0), entryLeaf sumKit (toolRows 1)],
    [((0 : ℕ) : Fr), ((5 : ℕ) : Fr), ((2 : ℕ) : Fr)],
    [((5 : ℕ) : Fr), (maxTool : Fr), ((2 : ℕ) : Fr)],
    [pairLeaves 0, pairLeaves 1]]

theorem injOn_toolAsked : Set.InjOn sumKit.poseidon {q | q ∈ toolAsked} :=
  injOn_listed (by decide +kernel)

def toolTree : Tree sumKit {q | q ∈ toolAsked} 1 :=
  twoLeaves (fun i ↦ entryLeaf sumKit (toolRows i)) (by simp [toolAsked])

def denyTree : Tree sumKit {q | q ∈ toolAsked} 1 :=
  twoLeaves pairLeaves (by simp [toolAsked])

theorem commitsDenylist_denyTree : denyTree.CommitsDenylist deniedFive where
  room := by rw [pairs_deniedFive]; decide
  asked q hq := by
    rw [pairs_deniedFive] at hq
    rcases List.mem_pair.mp hq with rfl | rfl
    · simp [toolAsked]
    · simp [toolAsked]
  leaf i q hq := by
    rw [pairs_deniedFive] at hq
    match i, hq with
    | 0, rfl => rfl
    | 1, rfl => rfl
  rest i hlen hi := by
    rw [pairs_deniedFive] at hlen
    exact absurd hi (not_lt.mpr hlen)

theorem toolTree_window : toolTree.Window 0 2 toolRows :=
  window_twoLeaves (by simp [toolAsked]) (by simp [toolAsked]) (by simp [toolAsked])

theorem nonMembership_iff_deniedFive :
    NonMembershipProvable le_rfl toolTree denyTree 0 (toolRows 0) ∧
      ¬ NonMembershipProvable le_rfl toolTree denyTree 1 (toolRows 1) := by
  have hseven : (toolId le_rfl (toolRows 0)).val = 7 := by decide +kernel
  have hfive : (toolId le_rfl (toolRows 1)).val = 5 := by decide +kernel
  constructor
  · refine (nonMembership_iff injOn_toolAsked le_rfl commitsDenylist_denyTree
      (toolTree_window 0 (by decide)) (by rw [hseven]; decide) (by rw [hseven]; decide)).mpr ?_
    rw [hseven]
    decide
  · rw [nonMembership_iff injOn_toolAsked le_rfl commitsDenylist_denyTree
      (toolTree_window 1 (by decide)) (by rw [hfive]; decide) (by rw [hfive]; decide), hfive]
    decide

end Demo

end SauronId.Circuits
