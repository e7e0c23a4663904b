import Mathlib.Algebra.BigOperators.Intervals
import Mathlib.Data.Fin.VecNotation
import SauronId.Circuits.Path

namespace SauronId.Circuits

open Lib.Gadgets

abbrev Entry (fields : ℕ) := Fin fields → Fr

/-! The protocol fixes the place of these columns. -/

section Columns

variable {fields : ℕ} (hfields : 6 ≤ fields) (e : Entry fields)

def amount : Fr := e ⟨2, by omega⟩

def timestamp : Fr := e ⟨5, by omega⟩

end Columns

def toolId {fields : ℕ} (hfields : 4 ≤ fields) (e : Entry fields) : Fr := e ⟨3, by omega⟩

variable {K : Circomlib} {T : Set (List Fr)} {levels fields N : ℕ}

def entryLeaf (K : Circomlib) (e : Entry fields) : Fr := K.poseidon (List.ofFn e)

def entryInputs (K : Circomlib) (e : Entry fields) (pathElements pathIndices : Fin levels → Fr) :
    Set (List Fr) :=
  insert (List.ofFn e) (pathInputs K (entryLeaf K e) pathElements pathIndices)

/-! ### Rows in a tree -/

structure Tree.EntryAt (t : Tree K T levels) (i : ℕ) (e : Entry fields) : Prop where
  index_lt : i < 2 ^ levels
  asked : List.ofFn e ∈ T
  leaf : t.leaves i = entryLeaf K e

variable {t : Tree K T levels} {e e' : Entry fields}

theorem Tree.EntryAt.unique (hT : Set.InjOn K.poseidon T) {i : ℕ} (h : t.EntryAt i e)
    (h' : t.EntryAt i e') : e = e' := by
  apply List.ofFn_injective
  exact hT h.asked h'.asked (h.leaf.symm.trans h'.leaf)

theorem entryAt_of_path (hT : Set.InjOn K.poseidon T) (hlevels : levels ≤ 253) {index : Fr}
    {pathElements pathIndices : Fin levels → Fr}
    (hin : entryInputs K e pathElements pathIndices ⊆ T)
    (h : IndexedPath K index (entryLeaf K e) pathElements pathIndices t.root) :
    t.EntryAt index.val e := by
  obtain ⟨m, hm, rfl, rfl, hroot⟩ := indexedPath_iff.mp h
  obtain ⟨hasked, hpath⟩ := Set.insert_subset_iff.mp hin
  rw [ZMod.val_cast_of_lt (hm.trans_le (two_pow_le_scalarModulus hlevels))]
  exact ⟨hm, hasked, t.leaf_of_path hT hm hpath hroot⟩

theorem Tree.EntryAt.exists_path {i : ℕ} (h : t.EntryAt i e) :
    ∃ pathElements pathIndices : Fin levels → Fr,
      IndexedPath K (i : Fr) (entryLeaf K e) pathElements pathIndices t.root ∧
      entryInputs K e pathElements pathIndices ⊆ T := by
  obtain ⟨pathElements, hroot, hin⟩ := t.exists_path h.index_lt
  rw [h.leaf] at hroot hin
  exact ⟨pathElements, _, indexedPath_iff.mpr ⟨i, h.index_lt, rfl, rfl, hroot⟩,
    Set.insert_subset h.asked hin⟩

/-! ### The choice of a column -/

structure FieldSelector (fieldIndex : Fr) (fieldEq : Fin fields → Fr) : Prop where
  equal : ∀ i : Fin fields, IsEqual fieldIndex ((i : ℕ) : Fr) (fieldEq i)
  one : RunningSum fieldEq 1

def Extracted (fieldEq : Fin fields → Fr) (e : Entry fields) (x : Fr) : Prop :=
  RunningSum (fun j ↦ fieldEq j * e j) x

theorem natCast_fin_eq_iff (hfields : fields ≤ scalarModulus) {x : Fr} {i : Fin fields} :
    x = ((i : ℕ) : Fr) ↔ x.val = i := by
  constructor
  · rintro rfl
    exact ZMod.val_cast_of_lt (i.isLt.trans_le hfields)
  · intro h
    rw [← h, ZMod.natCast_zmod_val]

theorem fieldSelector_iff (hfields : fields ≤ scalarModulus) {fieldIndex : Fr}
    {fieldEq : Fin fields → Fr} :
    FieldSelector fieldIndex fieldEq ↔
      ∃ j : Fin fields, fieldIndex.val = j ∧ fieldEq = fun i ↦ if i = j then 1 else 0 := by
  have hflag : ∀ {j : Fin fields}, fieldIndex.val = j →
      ∀ i : Fin fields, fieldIndex = ((i : ℕ) : Fr) ↔ i = j := by
    intro j hj i
    rw [natCast_fin_eq_iff hfields, hj, Fin.ext_iff, eq_comm]
  constructor
  · rintro ⟨hequal, hone⟩
    have hall : fieldEq = fun i : Fin fields ↦ if fieldIndex = ((i : ℕ) : Fr) then 1 else 0 :=
      funext (fun i ↦ isEqual_iff.mp (hequal i))
    by_cases hj : ∃ j : Fin fields, fieldIndex.val = j
    · obtain ⟨j, hj⟩ := hj
      refine ⟨j, hj, ?_⟩
      simpa only [hflag hj] using hall
    · -- no column has this index, so all the flags are zero
      have hzero : ∀ i : Fin fields, fieldEq i = 0 := by
        intro i
        rw [hall]
        exact if_neg (fun h ↦ hj ⟨i, (natCast_fin_eq_iff hfields).mp h⟩)
      rw [runningSum_iff, Finset.sum_eq_zero (fun i _ ↦ hzero i)] at hone
      exact absurd hone one_ne_zero
  · rintro ⟨j, hj, rfl⟩
    constructor
    · intro i
      rw [isEqual_iff]
      simp only [hflag hj]
    · rw [runningSum_iff, Finset.sum_ite_eq' Finset.univ j, if_pos (Finset.mem_univ j)]

theorem extracted_iff {j : Fin fields} {x : Fr} :
    Extracted (fun i ↦ if i = j then 1 else 0) e x ↔ x = e j := by
  simp [Extracted, runningSum_iff]

/-! ### `ActionRangeProof` -/

structure RangeSignals (levels fields : ℕ) where
  (root a b entryIndex fieldIndex : Fr)
  entry : Entry fields
  (pathElements pathIndices : Fin levels → Fr)

def RangeSignals.inputs (K : Circomlib) (s : RangeSignals levels fields) : Set (List Fr) :=
  entryInputs K s.entry s.pathElements s.pathIndices

structure ActionRangeProof (K : Circomlib) (s : RangeSignals levels fields) (valid : Fr) :
    Prop where
  inRange : ∃ fieldEq X, FieldSelector s.fieldIndex fieldEq ∧ Extracted fieldEq s.entry X ∧
    Fits 32 X ∧ Fits 32 s.a ∧ Fits 32 s.b ∧ GreaterEqThan 32 X s.a 1 ∧ LessEqThan 32 X s.b 1
  path : IndexedPath K s.entryIndex (entryLeaf K s.entry) s.pathElements s.pathIndices s.root
  valid : valid = 1

theorem between_iff {n : ℕ} (hn : n ≤ 252) {x a b : Fr} :
    Fits n x ∧ Fits n a ∧ Fits n b ∧ GreaterEqThan n x a 1 ∧ LessEqThan n x b 1 ↔
      b.val < 2 ^ n ∧ a.val ≤ x.val ∧ x.val ≤ b.val := by
  have hle : 2 ^ n ≤ scalarModulus := two_pow_le_scalarModulus (by omega)
  have hwide : 2 ^ (n + 1) ≤ scalarModulus := two_pow_le_scalarModulus (by omega)
  simp only [fits_iff hle]
  constructor
  · rintro ⟨hx, ha, hb, hlo, hhi⟩
    exact ⟨hb, (greaterEqThan_one hwide hx ha).mp hlo, (lessEqThan_one hwide hx hb).mp hhi⟩
  · rintro ⟨hb, hlo, hhi⟩
    have hx : x.val < 2 ^ n := by omega
    have ha : a.val < 2 ^ n := by omega
    exact ⟨hx, ha, hb, (greaterEqThan_one hwide hx ha).mpr hlo,
      (lessEqThan_one hwide hx hb).mpr hhi⟩

variable {valid : Fr}

theorem actionRangeProof_iff (hfields : fields ≤ scalarModulus) {s : RangeSignals levels fields} :
    ActionRangeProof K s valid ↔
      (∃ j : Fin fields, s.fieldIndex.val = j ∧ s.b.val < 2 ^ 32 ∧ s.a.val ≤ (s.entry j).val ∧
        (s.entry j).val ≤ s.b.val) ∧
      IndexedPath K s.entryIndex (entryLeaf K s.entry) s.pathElements s.pathIndices s.root ∧
      valid = 1 := by
  constructor
  · rintro ⟨⟨fieldEq, X, hselector, hX, hbounds⟩, hpath, hvalid⟩
    obtain ⟨j, hj, rfl⟩ := (fieldSelector_iff hfields).mp hselector
    obtain rfl := extracted_iff.mp hX
    exact ⟨⟨j, hj, (between_iff (by decide)).mp hbounds⟩, hpath, hvalid⟩
  · rintro ⟨⟨j, hj, hbounds⟩, hpath, hvalid⟩
    exact ⟨⟨_, _, (fieldSelector_iff hfields).mpr ⟨j, hj, rfl⟩, extracted_iff.mpr rfl,
      (between_iff (by decide)).mpr hbounds⟩, hpath, hvalid⟩

/-! ### `ActionTimeWindow` -/

structure TimeSignals (levels fields : ℕ) where
  (root start finish entryIndex : Fr)
  entry : Entry fields
  (pathElements pathIndices : Fin levels → Fr)

def TimeSignals.inputs (K : Circomlib) (s : TimeSignals levels fields) : Set (List Fr) :=
  entryInputs K s.entry s.pathElements s.pathIndices

structure ActionTimeWindow (K : Circomlib) (hfields : 6 ≤ fields) (s : TimeSignals levels fields)
    (valid : Fr) : Prop where
  inWindow : ∃ ts, ts = timestamp hfields s.entry ∧ Fits 64 ts ∧ Fits 64 s.start ∧
    Fits 64 s.finish ∧ GreaterEqThan 64 ts s.start 1 ∧ LessEqThan 64 ts s.finish 1
  path : IndexedPath K s.entryIndex (entryLeaf K s.entry) s.pathElements s.pathIndices s.root
  valid : valid = 1

theorem actionTimeWindow_iff {hfields : 6 ≤ fields} {s : TimeSignals levels fields} :
    ActionTimeWindow K hfields s valid ↔
      (s.finish.val < 2 ^ 64 ∧ s.start.val ≤ (timestamp hfields s.entry).val ∧
        (timestamp hfields s.entry).val ≤ s.finish.val) ∧
      IndexedPath K s.entryIndex (entryLeaf K s.entry) s.pathElements s.pathIndices s.root ∧
      valid = 1 := by
  constructor
  · rintro ⟨⟨_, rfl, hbounds⟩, hpath, hvalid⟩
    exact ⟨(between_iff (by decide)).mp hbounds, hpath, hvalid⟩
  · rintro ⟨hbounds, hpath, hvalid⟩
    exact ⟨⟨_, rfl, (between_iff (by decide)).mpr hbounds⟩, hpath, hvalid⟩

/-! ### Ranges of indices -/

/-- The rows that the tree commits at `N` indices in a row. -/
def Tree.Window (t : Tree K T levels) (lo N : ℕ) (log : ℕ → Entry fields) : Prop :=
  ∀ i ∈ Finset.Ico lo (lo + N), t.EntryAt i (log i)

theorem Tree.Window.unique (hT : Set.InjOn K.poseidon T) {lo : ℕ} {log log' : ℕ → Entry fields}
    (h : t.Window lo N log) (h' : t.Window lo N log') :
    ∀ i ∈ Finset.Ico lo (lo + N), log i = log' i :=
  fun i hi ↦ (h i hi).unique hT (h' i hi)

structure RangeRows (levels fields N : ℕ) where
  entries : Fin N → Entry fields
  (pathElements pathIndices : Fin N → Fin levels → Fr)

namespace RangeRows

def inputs (K : Circomlib) (r : RangeRows levels fields N) : Set (List Fr) :=
  ⋃ k, entryInputs K (r.entries k) (r.pathElements k) (r.pathIndices k)

def Committed (K : Circomlib) (r : RangeRows levels fields N) (iLo root : Fr) : Prop :=
  ∀ k : Fin N, IndexedPath K (iLo + ((k : ℕ) : Fr)) (entryLeaf K (r.entries k)) (r.pathElements k)
    (r.pathIndices k) root

variable {r : RangeRows levels fields N} {iLo iHi : Fr}

theorem two_pow_add_lt : 2 ^ 252 + 2 ^ 32 < scalarModulus := by decide

theorem val_index (hlo : iLo.val < 2 ^ 252) {k : ℕ} (hk : k < 2 ^ 32) :
    (iLo + (k : Fr)).val = iLo.val + k := by
  have hlt := two_pow_add_lt
  have hval : (k : Fr).val = k := ZMod.val_cast_of_lt (by omega)
  rw [ZMod.val_add_of_lt (by rw [hval]; omega), hval]

theorem entryAt_of_committed (hT : Set.InjOn K.poseidon T) (hlevels : levels ≤ 252)
    (hN : N < 2 ^ 32) (hin : r.inputs K ⊆ T) (h : r.Committed K iLo t.root) (k : Fin N) :
    iLo.val < 2 ^ 252 ∧ t.EntryAt (iLo.val + k) (r.entries k) := by
  have hat : ∀ k : Fin N, t.EntryAt (iLo + ((k : ℕ) : Fr)).val (r.entries k) := by
    intro k
    exact entryAt_of_path hT (by omega) ((Set.subset_iUnion _ k).trans hin) (h k)
  -- the row at `iLo` itself bounds the index
  have hlo : iLo.val < 2 ^ 252 := by
    have hfirst := (hat ⟨0, k.pos⟩).index_lt
    rw [Nat.cast_zero, add_zero] at hfirst
    exact hfirst.trans_le (Nat.pow_le_pow_right Nat.two_pos hlevels)
  have hk := hat k
  rw [val_index hlo (k.isLt.trans hN)] at hk
  exact ⟨hlo, hk⟩

def log (r : RangeRows levels fields N) (lo i : ℕ) : Entry fields :=
  if h : i - lo < N then r.entries ⟨i - lo, h⟩ else fun _ ↦ 0

theorem log_add (r : RangeRows levels fields N) (lo : ℕ) (k : Fin N) :
    r.log lo (lo + k) = r.entries k := by
  unfold log
  simp only [Nat.add_sub_cancel_left, k.isLt, dite_true]

theorem window_of_committed (hT : Set.InjOn K.poseidon T) (hlevels : levels ≤ 252)
    (hN : N < 2 ^ 32) (hin : r.inputs K ⊆ T) (h : r.Committed K iLo t.root) :
    t.Window iLo.val N (r.log iLo.val) := by
  intro i hi
  obtain ⟨hle, hlt⟩ := Finset.mem_Ico.mp hi
  have hk := (entryAt_of_committed hT hlevels hN hin h ⟨i - iLo.val, by omega⟩).2
  rwa [← r.log_add, Nat.add_sub_cancel' hle] at hk

theorem sum_log {β : Type} [AddCommMonoid β] (r : RangeRows levels fields N) (lo : ℕ)
    (f : Entry fields → β) :
    ∑ i ∈ Finset.Ico lo (lo + N), f (r.log lo i) = ∑ k, f (r.entries k) := by
  rw [Finset.sum_Ico_eq_sum_range, Nat.add_sub_cancel_left, Finset.sum_range]
  exact Finset.sum_congr rfl (fun k _ ↦ by rw [log_add])

theorem exists_committed {lo : ℕ} {log : ℕ → Entry fields} (h : t.Window lo N log) :
    ∃ r : RangeRows levels fields N, (∀ k : Fin N, r.entries k = log (lo + k)) ∧
      r.Committed K (lo : Fr) t.root ∧ r.inputs K ⊆ T := by
  have hrow : ∀ k : Fin N, t.EntryAt (lo + k) (log (lo + k)) := by
    intro k
    exact h _ (Finset.mem_Ico.mpr ⟨Nat.le_add_right _ _, Nat.add_lt_add_left k.isLt lo⟩)
  choose pathElements pathIndices hpath hin using fun k ↦ (hrow k).exists_path
  refine ⟨⟨fun k ↦ log (lo + k), pathElements, pathIndices⟩, fun _ ↦ rfl, ?_, Set.iUnion_subset hin⟩
  intro k
  rw [← Nat.cast_add]
  exact hpath k

theorem val_last (hT : Set.InjOn K.poseidon T) (hlevels : levels ≤ 252) (hN : N < 2 ^ 32)
    (hin : r.inputs K ⊆ T) (h : r.Committed K iLo t.root) (hHi : iHi = iLo + ((N : Fr) - 1))
    (hpos : 0 < N) : iHi.val + 1 = iLo.val + N := by
  have hlo := (entryAt_of_committed hT hlevels hN hin h ⟨0, hpos⟩).1
  have hlast : iHi = iLo + ((N - 1 : ℕ) : Fr) := by
    rw [hHi, Nat.cast_sub hpos, Nat.cast_one]
  rw [hlast, val_index hlo (by omega)]
  omega

end RangeRows

/-! ### `ActionSumBound` -/

structure SumSignals (levels fields N : ℕ) extends RangeRows levels fields N where
  (root budget iLo iHi : Fr)

structure ActionSumBound (K : Circomlib) (hfields : 6 ≤ fields) (s : SumSignals levels fields N)
    (valid : Fr) : Prop where
  range : s.iHi = s.iLo + ((N : Fr) - 1)
  amounts : ∀ k, Fits 32 (amount hfields (s.entries k))
  paths : s.Committed K s.iLo s.root
  bound : ∃ total, RunningSum (fun k ↦ amount hfields (s.entries k)) total ∧ Fits 64 total ∧
    Fits 64 s.budget ∧ LessEqThan 64 total s.budget 1
  valid : valid = 1

theorem sum_val_lt {n : ℕ} {terms : Fin N → Fr} (hN : N < 2 ^ 32)
    (hterms : ∀ k, (terms k).val < 2 ^ n) : ∑ k, (terms k).val < 2 ^ (n + 32) := by
  have hle : ∑ k, (terms k).val ≤ N * 2 ^ n := by
    have hcard := Finset.sum_le_card_nsmul Finset.univ (fun k ↦ (terms k).val) (2 ^ n)
      (fun k _ ↦ (hterms k).le)
    simpa using hcard
  calc ∑ k, (terms k).val ≤ N * 2 ^ n := hle
    _ < 2 ^ 32 * 2 ^ n := Nat.mul_lt_mul_of_pos_right hN (Nat.two_pow_pos n)
    _ = 2 ^ (n + 32) := by rw [add_comm, pow_add]

theorem sum_amounts_le {hfields : 6 ≤ fields} {s : SumSignals levels fields N} (hN : N < 2 ^ 32)
    (h : ActionSumBound K hfields s valid) :
    ∑ k, (amount hfields (s.entries k)).val ≤ s.budget.val := by
  have hsmall : ∑ k, (amount hfields (s.entries k)).val < 2 ^ (32 + 32) :=
    sum_val_lt hN (fun k ↦ fits_32_iff.mp (h.amounts k))
  obtain ⟨total, htotal, hfits, hbudget, hbound⟩ := h.bound
  rw [fits_64_iff] at hfits hbudget
  rw [← val_sum (hsmall.trans_le two_pow_64_le), ← runningSum_iff.mp htotal]
  exact (lessEqThan_one two_pow_65_le hfits hbudget).mp hbound

/-! ### `ActionCountInRange` -/

structure CountSignals (levels fields N : ℕ) extends RangeRows levels fields N where
  (root F V limit iLo iHi : Fr)
  matchFlag : Fin N → Fr

structure ActionCountInRange (K : Circomlib) (s : CountSignals levels fields N) (valid : Fr) :
    Prop where
  range : s.iHi = s.iLo + ((N : Fr) - 1)
  flags : ∃ fieldIndexEq, FieldSelector s.F fieldIndexEq ∧ ∀ k : Fin N,
    s.matchFlag k * (1 - s.matchFlag k) = 0 ∧
    ∃ extracted fieldEq, Extracted fieldIndexEq (s.entries k) extracted ∧
      IsEqual extracted s.V fieldEq ∧ s.matchFlag k = fieldEq
  paths : s.Committed K s.iLo s.root
  bound : ∃ total, RunningSum s.matchFlag total ∧ Fits 32 s.limit ∧ LessEqThan 32 total s.limit 1
  valid : valid = 1

variable {s : CountSignals levels fields N}

theorem matchFlag_eq (hfields : fields ≤ scalarModulus) (h : ActionCountInRange K s valid) :
    ∃ j : Fin fields, s.F.val = j ∧
      s.matchFlag = fun k ↦ if s.entries k j = s.V then 1 else 0 := by
  obtain ⟨fieldIndexEq, hselector, hflags⟩ := h.flags
  obtain ⟨j, hj, rfl⟩ := (fieldSelector_iff hfields).mp hselector
  refine ⟨j, hj, funext (fun k ↦ ?_)⟩
  obtain ⟨-, extracted, fieldEq, hextracted, hequal, hflag⟩ := hflags k
  rw [hflag, isEqual_iff.mp hequal, extracted_iff.mp hextracted]

theorem val_flag (a : Prop) [Decidable a] : (if a then 1 else 0 : Fr).val = if a then 1 else 0 := by
  by_cases h : a
  · rw [if_pos h, if_pos h]
    decide
  · rw [if_neg h, if_neg h]
    decide

theorem count_le (hfields : fields ≤ scalarModulus) (hN : N < 2 ^ 32)
    (h : ActionCountInRange K s valid) :
    ∃ j : Fin fields, s.F.val = j ∧
      ∑ k, (if s.entries k j = s.V then 1 else 0) ≤ s.limit.val := by
  obtain ⟨j, hj, hflag⟩ := matchFlag_eq hfields h
  refine ⟨j, hj, ?_⟩
  obtain ⟨total, htotal, hlimit, hbound⟩ := h.bound
  rw [fits_32_iff] at hlimit
  have hle : 2 ^ (32 + 1) ≤ scalarModulus := two_pow_33_le
  have hcount : ∑ k, (s.matchFlag k).val = ∑ k, if s.entries k j = s.V then 1 else 0 := by
    rw [hflag]
    exact Finset.sum_congr rfl (fun k _ ↦ val_flag _)
  have hsmall : ∑ k, (s.matchFlag k).val < 2 ^ 32 := by
    have hsum : ∑ k, (s.matchFlag k).val ≤ N := by
      rw [hcount, Finset.sum_boole]
      simpa using Finset.card_filter_le Finset.univ (fun k : Fin N ↦ s.entries k j = s.V)
    omega
  have hval : total.val = ∑ k, if s.entries k j = s.V then 1 else 0 := by
    rw [runningSum_iff.mp htotal, val_sum (by omega), hcount]
  rw [← hval]
  exact (lessEqThan_one hle (by rw [hval, ← hcount]; exact hsmall) hlimit).mp hbound

/-! ### Soundness -/

section Soundness

variable (hT : Set.InjOn K.poseidon T) (hlevels : levels ≤ 252) {valid : Fr}

include hT hlevels

theorem actionRangeProof_sound (hfields : fields ≤ scalarModulus) {s : RangeSignals levels fields}
    (h : ActionRangeProof K s valid) (hin : s.inputs K ⊆ T) (hroot : s.root = t.root) :
    ∃ j : Fin fields, s.fieldIndex.val = j ∧
      (∃ e : Entry fields, t.EntryAt s.entryIndex.val e) ∧
      ∀ e : Entry fields, t.EntryAt s.entryIndex.val e →
        s.a.val ≤ (e j).val ∧ (e j).val ≤ s.b.val := by
  obtain ⟨⟨j, hj, -, hlo, hhi⟩, hpath, -⟩ := (actionRangeProof_iff hfields).mp h
  have hat : t.EntryAt s.entryIndex.val s.entry :=
    entryAt_of_path hT (by omega) hin (hroot ▸ hpath)
  refine ⟨j, hj, ⟨_, hat⟩, ?_⟩
  intro e he
  obtain rfl := he.unique hT hat
  exact ⟨hlo, hhi⟩

theorem actionTimeWindow_sound {hfields : 6 ≤ fields} {s : TimeSignals levels fields}
    (h : ActionTimeWindow K hfields s valid) (hin : s.inputs K ⊆ T) (hroot : s.root = t.root) :
    (∃ e : Entry fields, t.EntryAt s.entryIndex.val e) ∧
      ∀ e : Entry fields, t.EntryAt s.entryIndex.val e →
        s.start.val ≤ (timestamp hfields e).val ∧ (timestamp hfields e).val ≤ s.finish.val := by
  obtain ⟨⟨-, hlo, hhi⟩, hpath, -⟩ := actionTimeWindow_iff.mp h
  have hat : t.EntryAt s.entryIndex.val s.entry :=
    entryAt_of_path hT (by omega) hin (hroot ▸ hpath)
  refine ⟨⟨_, hat⟩, ?_⟩
  intro e he
  obtain rfl := he.unique hT hat
  exact ⟨hlo, hhi⟩

theorem actionSumBound_sound {hfields : 6 ≤ fields} (hN : N < 2 ^ 32)
    {s : SumSignals levels fields N} (h : ActionSumBound K hfields s valid)
    (hin : s.inputs K ⊆ T) (hroot : s.root = t.root) :
    (0 < N → s.iHi.val + 1 = s.iLo.val + N) ∧
      (∃ log : ℕ → Entry fields, t.Window s.iLo.val N log) ∧
      ∀ log : ℕ → Entry fields, t.Window s.iLo.val N log →
        ∑ i ∈ Finset.Ico s.iLo.val (s.iLo.val + N), (amount hfields (log i)).val ≤
          s.budget.val := by
  have hpaths : s.Committed K s.iLo t.root := hroot ▸ h.paths
  have hwindow := RangeRows.window_of_committed hT hlevels hN hin hpaths
  refine ⟨RangeRows.val_last hT hlevels hN hin hpaths h.range, ⟨_, hwindow⟩, ?_⟩
  intro log hlog
  rw [Finset.sum_congr rfl (fun i hi ↦ by rw [hlog.unique hT hwindow i hi]),
    s.sum_log _ (fun e ↦ (amount hfields e).val)]
  exact sum_amounts_le hN h

theorem actionCountInRange_sound (hfields : fields ≤ scalarModulus) (hN : N < 2 ^ 32)
    {s : CountSignals levels fields N} (h : ActionCountInRange K s valid)
    (hin : s.inputs K ⊆ T) (hroot : s.root = t.root) :
    ∃ j : Fin fields, s.F.val = j ∧ (0 < N → s.iHi.val + 1 = s.iLo.val + N) ∧
      (∃ log : ℕ → Entry fields, t.Window s.iLo.val N log) ∧
      ∀ log : ℕ → Entry fields, t.Window s.iLo.val N log →
        ((Finset.Ico s.iLo.val (s.iLo.val + N)).filter (fun i ↦ log i j = s.V)).card ≤
          s.limit.val := by
  obtain ⟨j, hj, hcount⟩ := count_le hfields hN h
  have hpaths : s.Committed K s.iLo t.root := hroot ▸ h.paths
  have hwindow := RangeRows.window_of_committed hT hlevels hN hin hpaths
  refine ⟨j, hj, RangeRows.val_last hT hlevels hN hin hpaths h.range, ⟨_, hwindow⟩, ?_⟩
  intro log hlog
  rw [Finset.card_filter, Finset.sum_congr rfl (fun i hi ↦ by rw [hlog.unique hT hwindow i hi]),
    s.sum_log _ (fun e ↦ if e j = s.V then 1 else 0)]
  exact hcount

end Soundness

/-- Whatever satisfies one of the four circuits makes its public statement true of the rows that
the tree with that root commits, where values and indices are compared as numbers. There is a row
at every index the statement is about. Two of the circuits take the index of a column as a signal,
and there a row has no more columns than there are signals. -/
theorem action_circuits_sound (hT : Set.InjOn K.poseidon T) (hlevels : levels ≤ 252)
    (hsix : 6 ≤ fields) (hN : N < 2 ^ 32) (t : Tree K T levels) (valid : Fr) :
    (fields ≤ scalarModulus →
      ∀ s : RangeSignals levels fields, ActionRangeProof K s valid → s.inputs K ⊆ T →
      s.root = t.root →
      ∃ j : Fin fields, s.fieldIndex.val = j ∧
        (∃ e : Entry fields, t.EntryAt s.entryIndex.val e) ∧
        ∀ e : Entry fields, t.EntryAt s.entryIndex.val e →
          s.a.val ≤ (e j).val ∧ (e j).val ≤ s.b.val) ∧
    (∀ s : TimeSignals levels fields, ActionTimeWindow K hsix s valid → s.inputs K ⊆ T →
      s.root = t.root →
      (∃ e : Entry fields, t.EntryAt s.entryIndex.val e) ∧
        ∀ e : Entry fields, t.EntryAt s.entryIndex.val e →
          s.start.val ≤ (timestamp hsix e).val ∧ (timestamp hsix e).val ≤ s.finish.val) ∧
    (∀ s : SumSignals levels fields N, ActionSumBound K hsix s valid → s.inputs K ⊆ T →
      s.root = t.root →
      (0 < N → s.iHi.val + 1 = s.iLo.val + N) ∧
        (∃ log : ℕ → Entry fields, t.Window s.iLo.val N log) ∧
        ∀ log : ℕ → Entry fields, t.Window s.iLo.val N log →
          ∑ i ∈ Finset.Ico s.iLo.val (s.iLo.val + N), (amount hsix (log i)).val ≤
            s.budget.val) ∧
    (fields ≤ scalarModulus →
      ∀ s : CountSignals levels fields N, ActionCountInRange K s valid → s.inputs K ⊆ T →
      s.root = t.root →
      ∃ j : Fin fields, s.F.val = j ∧ (0 < N → s.iHi.val + 1 = s.iLo.val + N) ∧
        (∃ log : ℕ → Entry fields, t.Window s.iLo.val N log) ∧
        ∀ log : ℕ → Entry fields, t.Window s.iLo.val N log →
          ((Finset.Ico s.iLo.val (s.iLo.val + N)).filter (fun i ↦ log i j = s.V)).card ≤
            s.limit.val) := by
  refine ⟨?_, ?_, ?_, ?_⟩
  · intro hfields s h hin hroot
    exact actionRangeProof_sound hT hlevels hfields h hin hroot
  · intro s h hin hroot
    exact actionTimeWindow_sound hT hlevels h hin hroot
  · intro s h hin hroot
    exact actionSumBound_sound hT hlevels hN h hin hroot
  · intro hfields s h hin hroot
    exact actionCountInRange_sound hT hlevels hfields hN h hin hroot

/-! ### Completeness -/

section Completeness

variable {lo : ℕ} {log : ℕ → Entry fields}

theorem sum_window {β : Type} [AddCommMonoid β] (lo : ℕ) (f : ℕ → β) :
    ∑ i ∈ Finset.Ico lo (lo + N), f i = ∑ k : Fin N, f (lo + k) := by
  rw [Finset.sum_Ico_eq_sum_range, Nat.add_sub_cancel_left, Finset.sum_range]

theorem actionSumBound_complete (hfields : 6 ≤ fields) (hN : N < 2 ^ 32) (hlog : t.Window lo N log)
    {budget : Fr} (hbudget : budget.val < 2 ^ 64)
    (hamounts : ∀ i ∈ Finset.Ico lo (lo + N), (amount hfields (log i)).val < 2 ^ 32)
    (hle : ∑ i ∈ Finset.Ico lo (lo + N), (amount hfields (log i)).val ≤ budget.val) :
    ∃ s : SumSignals levels fields N, ActionSumBound K hfields s 1 ∧ s.inputs K ⊆ T ∧
      s.root = t.root ∧ s.budget = budget ∧ s.iLo = lo := by
  obtain ⟨r, hrows, hpaths, hin⟩ := RangeRows.exists_committed hlog
  have hfits : ∀ k, (amount hfields (r.entries k)).val < 2 ^ 32 := by
    intro k
    rw [hrows]
    exact hamounts _ (Finset.mem_Ico.mpr ⟨Nat.le_add_right _ _, Nat.add_lt_add_left k.isLt lo⟩)
  rw [sum_window] at hle
  simp only [← hrows] at hle
  have hval := val_sum ((sum_val_lt hN hfits).trans_le two_pow_64_le)
  have htotal := (hval.trans_le hle).trans_lt hbudget
  exact ⟨⟨r, t.root, budget, lo, _⟩, ⟨rfl, fun k ↦ fits_32_iff.mpr (hfits k), hpaths,
    ⟨_, runningSum_iff.mpr rfl, fits_64_iff.mpr htotal, fits_64_iff.mpr hbudget,
      (lessEqThan_one two_pow_65_le htotal hbudget).mpr (hval.trans_le hle)⟩, rfl⟩,
    hin, rfl, rfl, rfl⟩

theorem actionCountInRange_complete (hfields : fields ≤ scalarModulus) (hlog : t.Window lo N log)
    (j : Fin fields) (V : Fr) {limit : Fr} (hlimit : limit.val < 2 ^ 32)
    (hle : ((Finset.Ico lo (lo + N)).filter (fun i ↦ log i j = V)).card ≤ limit.val) :
    ∃ s : CountSignals levels fields N, ActionCountInRange K s 1 ∧ s.inputs K ⊆ T ∧
      s.root = t.root ∧ s.F = (j : ℕ) ∧ s.V = V ∧ s.limit = limit ∧ s.iLo = lo := by
  obtain ⟨r, hrows, hpaths, hin⟩ := RangeRows.exists_committed hlog
  set flag : Fin N → Fr := fun k ↦ if r.entries k j = V then 1 else 0
  have hcount : ∑ k, (flag k).val ≤ limit.val := by
    rw [Finset.card_filter, sum_window] at hle
    simpa only [flag, val_flag, hrows] using hle
  have hval : (∑ k, flag k).val ≤ limit.val := by
    rwa [val_sum (by have := two_pow_33_le; omega)]
  refine ⟨⟨r, t.root, (j : ℕ), V, limit, lo, _, flag⟩, ⟨rfl, ⟨_, (fieldSelector_iff hfields).mpr
    ⟨j, ?_, rfl⟩, fun k ↦ ⟨?_, _, _, extracted_iff.mpr rfl, isEqual_iff.mpr rfl, rfl⟩⟩, hpaths,
    ⟨_, runningSum_iff.mpr rfl, fits_32_iff.mpr hlimit,
      (lessEqThan_one two_pow_33_le (hval.trans_lt hlimit) hlimit).mpr hval⟩, rfl⟩,
    hin, rfl, rfl, rfl, rfl, rfl⟩
  · exact ZMod.val_cast_of_lt (j.isLt.trans_le hfields)
  · by_cases h : r.entries k j = V <;> simp [flag, h]

/-- A budget for a range of rows can be proved against the root exactly if the rows that the
tree commits there keep to it, and their amounts and the budget have the widths of the circuit. -/
theorem sum_provable_iff (hT : Set.InjOn K.poseidon T) (hlevels : levels ≤ 252)
    (hfields : 6 ≤ fields) (hN : N < 2 ^ 32) (t : Tree K T levels) (budget iLo : Fr) :
    (∃ s : SumSignals levels fields N, ActionSumBound K hfields s 1 ∧ s.inputs K ⊆ T ∧
      s.root = t.root ∧ s.budget = budget ∧ s.iLo = iLo) ↔
    budget.val < 2 ^ 64 ∧ ∃ log : ℕ → Entry fields, t.Window iLo.val N log ∧
      (∀ i ∈ Finset.Ico iLo.val (iLo.val + N), (amount hfields (log i)).val < 2 ^ 32) ∧
      ∑ i ∈ Finset.Ico iLo.val (iLo.val + N), (amount hfields (log i)).val ≤ budget.val := by
  constructor
  · rintro ⟨s, h, hin, hroot, rfl, rfl⟩
    obtain ⟨_, -, -, hbudget, -⟩ := h.bound
    refine ⟨fits_64_iff.mp hbudget, _, RangeRows.window_of_committed hT hlevels hN hin
      (hroot ▸ h.paths), ?_, ?_⟩
    · intro i hi
      obtain ⟨hle, hlt⟩ := Finset.mem_Ico.mp hi
      have hk := s.log_add s.iLo.val ⟨i - s.iLo.val, by omega⟩
      rw [Nat.add_sub_cancel' hle] at hk
      rw [hk]
      exact fits_32_iff.mp (h.amounts _)
    · rw [s.sum_log _ (fun e ↦ (amount hfields e).val)]
      exact sum_amounts_le hN h
  · rintro ⟨hbudget, log, hlog, hamounts, hle⟩
    have hs := actionSumBound_complete hfields hN hlog hbudget hamounts hle
    rwa [ZMod.natCast_zmod_val] at hs

/-- A limit on the rows of a range with a value in a column can be proved against the root exactly
if so few of the rows that the tree commits there have it, and the limit has the width of the
circuit. -/
theorem count_provable_iff (hT : Set.InjOn K.poseidon T) (hlevels : levels ≤ 252)
    (hfields : fields ≤ scalarModulus) (hN : N < 2 ^ 32) (t : Tree K T levels)
    (F V limit iLo : Fr) :
    (∃ s : CountSignals levels fields N, ActionCountInRange K s 1 ∧ s.inputs K ⊆ T ∧
      s.root = t.root ∧ s.F = F ∧ s.V = V ∧ s.limit = limit ∧ s.iLo = iLo) ↔
    limit.val < 2 ^ 32 ∧ ∃ (j : Fin fields) (log : ℕ → Entry fields), F.val = j ∧
      t.Window iLo.val N log ∧
      ((Finset.Ico iLo.val (iLo.val + N)).filter (fun i ↦ log i j = V)).card ≤ limit.val := by
  constructor
  · rintro ⟨s, h, hin, hroot, rfl, rfl, rfl, rfl⟩
    obtain ⟨_, -, hlimit, -⟩ := h.bound
    obtain ⟨j, hj, -, ⟨log, hlog⟩, hcount⟩ :=
      actionCountInRange_sound hT hlevels hfields hN h hin hroot
    exact ⟨fits_32_iff.mp hlimit, j, log, hj, hlog, hcount log hlog⟩
  · rintro ⟨hlimit, j, log, hj, hlog, hle⟩
    have hs := actionCountInRange_complete hfields hlog j V hlimit hle
    rwa [ZMod.natCast_zmod_val, ← hj, ZMod.natCast_zmod_val] at hs

end Completeness

section Demo

theorem window_twoLeaves {rows : ℕ → Entry fields} (h0 : List.ofFn (rows 0) ∈ T)
    (h1 : List.ofFn (rows 1) ∈ T) (hroot : [entryLeaf K (rows 0), entryLeaf K (rows 1)] ∈ T) :
    (twoLeaves (K := K) (fun i ↦ entryLeaf K (rows i)) hroot).Window 0 2 rows := by
  intro i hi
  obtain rfl | rfl : i = 0 ∨ i = 1 := by
    have hlt := (Finset.mem_Ico.mp hi).2
    omega
  · exact ⟨by decide, h0, rfl⟩
  · exact ⟨by decide, h1, rfl⟩

def demoRows (i : ℕ) : Entry 6 := if i = 0 then ![0, 0, 5, 7, 0, 100] else ![1, 0, 6, 8, 0, 101]

def demoAsked : List (List Fr) :=
  [List.ofFn (demoRows 0), List.ofFn (demoRows 1), [entryLeaf sumKit (demoRows 0), entryLeaf sumKit (demoRows 1)]]

theorem injOn_demoAsked : Set.InjOn sumKit.poseidon {q | q ∈ demoAsked} :=
  injOn_listed (by decide +kernel)

def demoTree : Tree sumKit {q | q ∈ demoAsked} 1 :=
  twoLeaves (fun i ↦ entryLeaf sumKit (demoRows i)) (by simp [demoAsked])

theorem demoTree_window : demoTree.Window 0 2 demoRows :=
  window_twoLeaves (by simp [demoAsked]) (by simp [demoAsked]) (by simp [demoAsked])

theorem exists_range : ∃ s : RangeSignals 1 6, ActionRangeProof sumKit s 1 ∧
    s.inputs sumKit ⊆ {q | q ∈ demoAsked} ∧ s.root = demoTree.root := by
  obtain ⟨pathElements, pathIndices, hpath, hin⟩ := (demoTree_window 0 (by decide)).exists_path
  have hbounds : (9 : Fr).val < 2 ^ 32 ∧ (1 : Fr).val ≤ (demoRows 0 2).val ∧
      (demoRows 0 2).val ≤ (9 : Fr).val := by decide +kernel
  exact ⟨⟨demoTree.root, 1, 9, (0 : ℕ), (2 : ℕ), demoRows 0, pathElements, pathIndices⟩,
    (actionRangeProof_iff (by decide)).mpr ⟨⟨2, rfl, hbounds⟩, hpath, rfl⟩, hin, rfl⟩

theorem exists_timeWindow : ∃ s : TimeSignals 1 6, ActionTimeWindow sumKit le_rfl s 1 ∧
    s.inputs sumKit ⊆ {q | q ∈ demoAsked} ∧ s.root = demoTree.root := by
  obtain ⟨pathElements, pathIndices, hpath, hin⟩ := (demoTree_window 0 (by decide)).exists_path
  have hbounds : (100 : Fr).val < 2 ^ 64 ∧ (100 : Fr).val ≤ (timestamp le_rfl (demoRows 0)).val ∧
      (timestamp le_rfl (demoRows 0)).val ≤ (100 : Fr).val := by decide +kernel
  exact ⟨⟨demoTree.root, 100, 100, (0 : ℕ), demoRows 0, pathElements, pathIndices⟩,
    actionTimeWindow_iff.mpr ⟨hbounds, hpath, rfl⟩, hin, rfl⟩

theorem exists_sumBound : ∃ s : SumSignals 1 6 2, ActionSumBound sumKit le_rfl s 1 ∧
    s.inputs sumKit ⊆ {q | q ∈ demoAsked} ∧ s.root = demoTree.root := by
  obtain ⟨s, h, hin, hroot, -⟩ := actionSumBound_complete le_rfl (by decide) demoTree_window
    (show (11 : Fr).val < 2 ^ 64 by decide) (by decide +kernel) (by decide +kernel)
  exact ⟨s, h, hin, hroot⟩

theorem exists_count : ∃ s : CountSignals 1 6 2, ActionCountInRange sumKit s 1 ∧
    s.inputs sumKit ⊆ {q | q ∈ demoAsked} ∧ s.root = demoTree.root := by
  obtain ⟨s, h, hin, hroot, -⟩ := actionCountInRange_complete (by decide) demoTree_window 3 7
    (show (1 : Fr).val < 2 ^ 32 by decide) (by decide +kernel)
  exact ⟨s, h, hin, hroot⟩

/-- Two rows, and one assignment of each circuit for their tree. -/
theorem action_circuits_sound_demoTree :
    (∃ s : RangeSignals 1 6, ActionRangeProof sumKit s 1 ∧ ∃ j : Fin 6, s.fieldIndex.val = j ∧
      ∀ e : Entry 6, demoTree.EntryAt s.entryIndex.val e → s.a.val ≤ (e j).val ∧
        (e j).val ≤ s.b.val) ∧
    (∃ s : TimeSignals 1 6, ActionTimeWindow sumKit le_rfl s 1 ∧
      ∀ e : Entry 6, demoTree.EntryAt s.entryIndex.val e →
        s.start.val ≤ (timestamp le_rfl e).val ∧ (timestamp le_rfl e).val ≤ s.finish.val) ∧
    (∃ s : SumSignals 1 6 2, ActionSumBound sumKit le_rfl s 1 ∧
      s.iHi.val + 1 = s.iLo.val + 2) ∧
    (∃ s : CountSignals 1 6 2, ActionCountInRange sumKit s 1 ∧
      s.iHi.val + 1 = s.iLo.val + 2) := by
  obtain ⟨hrange, htime, hsum, hcount⟩ := action_circuits_sound (N := 2) injOn_demoAsked
    (by decide) le_rfl (by decide) demoTree 1
  have hsix : 6 ≤ scalarModulus := by decide
  obtain ⟨r, hr, hrin, hrroot⟩ := exists_range
  obtain ⟨w, hw, hwin, hwroot⟩ := exists_timeWindow
  obtain ⟨b, hb, hbin, hbroot⟩ := exists_sumBound
  obtain ⟨c, hc, hcin, hcroot⟩ := exists_count
  obtain ⟨j, hj, -, hbetween⟩ := hrange hsix r hr hrin hrroot
  obtain ⟨-, -, hlast, -⟩ := hcount hsix c hc hcin hcroot
  exact ⟨⟨r, hr, j, hj, hbetween⟩, ⟨w, hw, (htime w hw hwin hwroot).2⟩,
    ⟨b, hb, (hsum b hb hbin hbroot).1 (by decide)⟩, ⟨c, hc, hlast (by decide)⟩⟩

theorem sum_provable_iff_demoTree : ∃ s : SumSignals 1 6 2, ActionSumBound sumKit le_rfl s 1 ∧
    s.root = demoTree.root ∧ s.budget = 11 := by
  obtain ⟨s, h, -, hroot, hbudget, -⟩ := (sum_provable_iff injOn_demoAsked (by decide) le_rfl
    (by decide) demoTree 11 0).mpr
    ⟨by decide, demoRows, demoTree_window, by decide +kernel, by decide +kernel⟩
  exact ⟨s, h, hroot, hbudget⟩

theorem count_provable_iff_demoTree : ∃ s : CountSignals 1 6 2, ActionCountInRange sumKit s 1 ∧
    s.root = demoTree.root ∧ s.limit = 1 := by
  obtain ⟨s, h, -, hroot, -, -, hlimit, -⟩ := (count_provable_iff injOn_demoAsked (by decide)
    (by decide) (by decide) demoTree 3 7 1 0).mpr
    ⟨by decide, 3, demoRows, rfl, demoTree_window, by decide +kernel⟩
  exact ⟨s, h, hroot, hlimit⟩

end Demo

end SauronId.Circuits
