import Mathlib.Data.List.Sort
import Mathlib.Data.List.Nodup

namespace SauronId.Lib

/-- Rows kept under a primary key: no two of them share it. -/
structure Table {ρ κ : Type} (key : ρ → κ) where
  rows : List ρ
  nodup : (rows.map key).Nodup

namespace Table

variable {ρ κ : Type} {key : ρ → κ}

def empty : Table key := ⟨[], List.nodup_nil⟩

theorem eq_of_key (t : Table key) {r s : ρ} (hr : r ∈ t.rows) (hs : s ∈ t.rows)
    (h : key r = key s) : r = s :=
  List.inj_on_of_nodup_map t.nodup hr hs h

theorem rows_nodup (t : Table key) : t.rows.Nodup := t.nodup.of_map key

/-- `DELETE FROM t WHERE p`. -/
def deleteWhere (t : Table key) (p : ρ → Bool) : Table key :=
  ⟨t.rows.filter (fun r ↦ !p r), t.nodup.sublist (List.filter_sublist.map key)⟩

variable {t : Table key} {p : ρ → Bool} {r : ρ}

@[simp] theorem mem_deleteWhere :
    r ∈ (t.deleteWhere p).rows ↔ r ∈ t.rows ∧ p r = false := by
  simp [deleteWhere]

/-- `UPDATE t SET f WHERE p`, for an update that leaves the key alone. -/
def updateWhere (t : Table key) (p : ρ → Bool) (f : ρ → ρ) (hf : ∀ r, key (f r) = key r) :
    Table key where
  rows := t.rows.map (fun r ↦ if p r then f r else r)
  nodup := by
    have h : key ∘ (fun r ↦ if p r then f r else r) = key := by
      funext r
      by_cases hp : p r <;> simp [hp, hf]
    rw [List.map_map, h]
    exact t.nodup

variable {f : ρ → ρ}

@[simp] theorem mem_updateWhere {hf : ∀ r, key (f r) = key r} :
    r ∈ (t.updateWhere p f hf).rows ↔ ∃ s ∈ t.rows, (if p s then f s else s) = r := by
  simp [updateWhere]

theorem filter_updateWhere {p q : ρ → Bool} {hf : ∀ r, key (f r) = key r}
    (hq : ∀ r, q (f r) = false) :
    (t.updateWhere p f hf).rows.filter q = t.rows.filter (fun r ↦ q r && !p r) := by
  simp only [updateWhere]
  induction t.rows with
  | nil => rfl
  | cons r rows ih =>
    rw [List.map_cons, List.filter_cons, List.filter_cons, ih]
    by_cases hp : p r <;> simp [hp, hq]

theorem perm_updateWhere {p q : ρ → Bool} (hf : ∀ r, key (f r) = key r) (hq : ∀ r, q (f r) = false)
    (hpq : ∀ r, p r = true → q r = true)
    {row : ρ} (hone : t.rows.filter p = [row]) :
    (t.rows.filter q).Perm (row :: (t.updateWhere p f hf).rows.filter q) := by
  have hmatch : (t.rows.filter q).filter p = [row] := by
    rw [List.filter_filter, ← hone]
    exact List.filter_congr (fun r _ ↦ Bool.and_eq_left_iff_imp.mpr (hpq r))
  have hrest : (t.rows.filter q).filter (fun r ↦ !p r) = (t.updateWhere p f hf).rows.filter q := by
    rw [filter_updateWhere hq, List.filter_filter]
    exact List.filter_congr (fun r _ ↦ Bool.and_comm _ _)
  rw [← List.singleton_append, ← hmatch, ← hrest]
  exact (List.filter_append_perm _ _).symm

theorem filter_eq_singleton {row : ρ} (hmem : row ∈ t.rows) (hp : p row = true)
    (hkey : ∀ r ∈ t.rows, p r = true → key r = key row) :
    t.rows.filter p = [row] := by
  refine List.perm_singleton.mp ((List.perm_ext_iff_of_nodup (t.rows_nodup.filter p)
    (List.nodup_singleton row)).mpr (fun r ↦ ?_))
  rw [List.mem_filter, List.mem_singleton]
  constructor
  · rintro ⟨hr, hpr⟩
    exact t.eq_of_key hr hmem (hkey r hr hpr)
  · rintro rfl
    exact ⟨hmem, hp⟩

variable [DecidableEq κ]

def get (t : Table key) (k : κ) : Option ρ := t.rows.find? (fun r ↦ key r = k)

theorem get_eq_some {k : κ} :
    t.get k = some r ↔ r ∈ t.rows ∧ key r = k := by
  constructor
  · intro h
    exact ⟨List.mem_of_find?_eq_some h, by simpa using List.find?_some h⟩
  · rintro ⟨hr, rfl⟩
    cases h : t.get (key r) with
    | none =>
      have hn := List.find?_eq_none.mp h r hr
      simp at hn
    | some s =>
      have hs : key s = key r := by simpa using List.find?_some h
      rw [t.eq_of_key (List.mem_of_find?_eq_some h) hr hs]

theorem get_eq_none {k : κ} : t.get k = none ↔ ∀ r ∈ t.rows, key r ≠ k := by
  simp [get]

theorem get_deleteWhere (k : κ) :
    (t.deleteWhere p).get k = (t.get k).filter (fun r ↦ !p r) := by
  ext r
  simp only [Option.filter_eq_some_iff, get_eq_some, mem_deleteWhere, Bool.not_eq_true']
  tauto

/-- `INSERT INTO t VALUES r`: fails when the key is taken. -/
def insert (t : Table key) (r : ρ) : Option (Table key) :=
  if h : key r ∈ t.rows.map key then none
  else some ⟨t.rows ++ [r], by
    rw [List.map_append, List.map_singleton]
    exact t.nodup.append (List.nodup_singleton _) (by simpa using h)⟩

theorem insert_eq_some {t u : Table key} :
    t.insert r = some u ↔ (∀ s ∈ t.rows, key s ≠ key r) ∧ u.rows = t.rows ++ [r] := by
  rcases u with ⟨rows, hnd⟩
  unfold insert
  split_ifs with h
  · simp only [false_iff, not_and]
    intro hn
    obtain ⟨s, hs, he⟩ := List.mem_map.mp h
    exact absurd he (hn s hs)
  · simp only [Option.some.injEq, mk.injEq]
    constructor
    · intro he
      exact ⟨fun s hs he' ↦ h (List.mem_map.mpr ⟨s, hs, he'⟩), he.symm⟩
    · exact fun he ↦ he.2.symm

theorem insert_eq_none :
    t.insert r = none ↔ ∃ s ∈ t.rows, key s = key r := by
  unfold insert
  split_ifs with h
  · simpa using h
  · simpa using h

/-- `INSERT OR REPLACE INTO t VALUES r`. -/
def replace (t : Table key) (r : ρ) : Table key where
  rows := t.rows.filter (fun s ↦ key s ≠ key r) ++ [r]
  nodup := by
    rw [List.map_append, List.map_singleton]
    refine (t.nodup.sublist (List.filter_sublist.map key)).append (List.nodup_singleton _) ?_
    simp

@[simp] theorem mem_replace {r s : ρ} :
    s ∈ (t.replace r).rows ↔ (s ∈ t.rows ∧ key s ≠ key r) ∨ s = r := by
  simp [replace]

theorem replace_rows_of_fresh (h : ∀ s ∈ t.rows, key s ≠ key r) :
    (t.replace r).rows = t.rows ++ [r] := by
  simp only [replace]
  rw [List.filter_eq_self.mpr (by simpa using h)]

theorem get_replace (k : κ) :
    (t.replace r).get k = if k = key r then some r else t.get k := by
  split_ifs with hk
  · exact get_eq_some.mpr ⟨mem_replace.mpr (.inr rfl), hk.symm⟩
  · ext s
    rw [get_eq_some, get_eq_some, mem_replace]
    constructor
    · rintro ⟨⟨hs, -⟩ | rfl, he⟩
      · exact ⟨hs, he⟩
      · exact absurd he.symm hk
    · rintro ⟨hs, rfl⟩
      exact ⟨.inl ⟨hs, hk⟩, rfl⟩

/-- `INSERT INTO t VALUES r ON CONFLICT (key) DO UPDATE SET f`. -/
def upsert (t : Table key) (r : ρ) (f : ρ → ρ) (hf : ∀ s, key (f s) = key s) : Table key :=
  (t.insert r).getD (t.updateWhere (fun s ↦ key s = key r) f hf)

theorem get_insert {t u : Table key} (h : t.insert r = some u) (k : κ) :
    u.get k = if k = key r then some r else t.get k := by
  obtain ⟨hfresh, hrows⟩ := insert_eq_some.mp h
  split_ifs with hk
  · exact get_eq_some.mpr ⟨by simp [hrows], hk.symm⟩
  · simp only [get, hrows, List.find?_append, List.find?_cons, List.find?_nil, Ne.symm hk,
      decide_false, Option.or_none]

theorem get_updateWhere {hf : ∀ s, key (f s) = key s} (k : κ) :
    (t.updateWhere p f hf).get k = (t.get k).map (fun s ↦ if p s then f s else s) := by
  have hkey : ∀ s, key (if p s then f s else s) = key s := by
    intro s
    split_ifs
    · exact hf s
    · rfl
  simp only [get, updateWhere, List.find?_map, Function.comp_def, hkey]

theorem get_updateWhere_key {k₀ : κ} (hf : ∀ s, key (f s) = key s) (k : κ) :
    (t.updateWhere (fun s ↦ key s = k₀) f hf).get k =
      if k = k₀ then (t.get k).map f else t.get k := by
  rw [get_updateWhere]
  cases h : t.get k with
  | none => simp
  | some s =>
    obtain ⟨-, rfl⟩ := get_eq_some.mp h
    split_ifs with hk
    · simp [hk]
    · simp [hk]

theorem get_upsert {hf : ∀ s, key (f s) = key s} (k : κ) :
    (t.upsert r f hf).get k = if k = key r then some ((t.get k).elim r f) else t.get k := by
  unfold upsert
  cases h : t.insert r with
  | some u =>
    rw [Option.getD_some, get_insert h]
    split_ifs with hk
    · have hn : t.get k = none :=
        get_eq_none.mpr (fun s hs ↦ hk ▸ (insert_eq_some.mp h).1 s hs)
      rw [hn, Option.elim_none]
    · rfl
  | none =>
    rw [Option.getD_none, get_updateWhere_key]
    split_ifs with hk
    · obtain ⟨s, hs, he⟩ := insert_eq_none.mp h
      rw [get_eq_some.mpr ⟨hs, he.trans hk.symm⟩, Option.map_some, Option.elim_some]
    · rfl

end Table

/-- The order in which a storage engine happens to visit the rows of a table.
A query language leaves it open, so it is a parameter of every query whose
result may depend on it. -/
structure Scan (ρ : Type) where
  visit : List ρ → List ρ
  perm : ∀ rows, (visit rows).Perm rows

namespace Scan

variable {ρ κ : Type} [LinearOrder κ]

def stored : Scan ρ := ⟨fun rows ↦ rows, List.Perm.refl⟩

/-- `SELECT * FROM rows WHERE p ORDER BY key ASC`. -/
def select (scan : Scan ρ) (p : ρ → Bool) (key : ρ → κ) (rows : List ρ) : List ρ :=
  ((scan.visit rows).filter p).insertionSort (fun r s ↦ key r ≤ key s)

def first (scan : Scan ρ) (p : ρ → Bool) (key : ρ → κ) (rows : List ρ) : Option ρ :=
  (scan.select p key rows).head?

/-- `SELECT * FROM rows WHERE p ORDER BY key DESC LIMIT 1`. -/
def last (scan : Scan ρ) (p : ρ → Bool) (key : ρ → κ) (rows : List ρ) : Option ρ :=
  scan.first p (fun r ↦ OrderDual.toDual (key r)) rows

variable {scan : Scan ρ} {p : ρ → Bool} {key : ρ → κ} {rows : List ρ} {r : ρ}

theorem select_perm : (scan.select p key rows).Perm (rows.filter p) :=
  (List.perm_insertionSort _ _).trans ((scan.perm rows).filter p)

@[simp] theorem mem_select : r ∈ scan.select p key rows ↔ r ∈ rows ∧ p r = true := by
  rw [select_perm.mem_iff, List.mem_filter]

theorem select_pairwise : (scan.select p key rows).Pairwise (fun r s ↦ key r ≤ key s) := by
  have : Std.Total (fun r s : ρ ↦ key r ≤ key s) := ⟨fun r s ↦ le_total (key r) (key s)⟩
  have : IsTrans ρ (fun r s : ρ ↦ key r ≤ key s) := ⟨fun _ _ _ ↦ le_trans⟩
  exact List.pairwise_insertionSort _ _

theorem first_eq_some (h : scan.first p key rows = some r) :
    r ∈ rows ∧ p r = true ∧ ∀ s ∈ rows, p s = true → key r ≤ key s := by
  have hr := mem_select.mp (List.mem_of_mem_head? (Option.mem_def.mpr h))
  refine ⟨hr.1, hr.2, fun s hs hp ↦ ?_⟩
  obtain ⟨tl, he⟩ := List.head?_eq_some_iff.mp h
  have hsort : (scan.select p key rows).Pairwise (fun r s ↦ key r ≤ key s) := select_pairwise
  have hmem : s ∈ scan.select p key rows := mem_select.mpr ⟨hs, hp⟩
  rw [he] at hsort hmem
  rcases List.mem_cons.mp hmem with rfl | htl
  · exact le_rfl
  · exact List.rel_of_pairwise_cons hsort htl

theorem first_eq_none : scan.first p key rows = none ↔ ∀ s ∈ rows, p s = false := by
  rw [first, List.head?_eq_none_iff, List.eq_nil_iff_forall_not_mem]
  simp only [mem_select, not_and, Bool.not_eq_true]

theorem last_eq_some (h : scan.last p key rows = some r) :
    r ∈ rows ∧ p r = true ∧ ∀ s ∈ rows, p s = true → key s ≤ key r :=
  first_eq_some h

theorem last_eq_none : scan.last p key rows = none ↔ ∀ s ∈ rows, p s = false :=
  first_eq_none

theorem eq_of_pairwise_lt {l m : List ρ} (hl : l.Pairwise (fun r s ↦ key r < key s))
    (hm : m.Pairwise (fun r s ↦ key r < key s)) (h : ∀ r, r ∈ l ↔ r ∈ m) : l = m := by
  have hne : ∀ r s : ρ, key r < key s → r ≠ s := by
    rintro r s hlt rfl
    exact hlt.false
  have hperm : l.Perm m :=
    (List.perm_ext_iff_of_nodup (hl.imp (hne _ _)) (hm.imp (hne _ _))).mpr h
  exact hperm.eq_of_pairwise (fun _ _ _ _ hrs hsr ↦ absurd hrs hsr.asymm) hl hm

theorem select_of_sorted (h : (rows.filter p).Pairwise (fun r s ↦ key r < key s)) :
    scan.select p key rows = rows.filter p := by
  have hinj : ∀ r ∈ rows.filter p, ∀ s ∈ rows.filter p, key r = key s → r = s := by
    have hnd : ((rows.filter p).map key).Nodup := List.pairwise_map.mpr (h.imp ne_of_lt)
    exact fun r hr s hs ↦ List.inj_on_of_nodup_map hnd hr hs
  refine select_perm.eq_of_pairwise (fun r s hr hs hrs hsr ↦ ?_) select_pairwise (h.imp le_of_lt)
  exact hinj r (select_perm.mem_iff.mp hr) s hs (le_antisymm hrs hsr)

theorem select_concat (hr : p r = true)
    (hlt : (scan.select p key rows).Pairwise (fun r s ↦ key r < key s))
    (hlast : ∀ s ∈ rows, p s = true → key s < key r) :
    scan.select p key (rows ++ [r]) = scan.select p key rows ++ [r] := by
  have hperm : (scan.select p key (rows ++ [r])).Perm (scan.select p key rows ++ [r]) := by
    refine select_perm.trans ?_
    rw [List.filter_append, List.filter_singleton, hr]
    exact select_perm.symm.append_right [r]
  have hsorted : (scan.select p key rows ++ [r]).Pairwise (fun r s ↦ key r < key s) := by
    refine List.pairwise_append.mpr ⟨hlt, List.pairwise_singleton _ _, fun s hs t ht ↦ ?_⟩
    obtain ⟨hs, hp⟩ := mem_select.mp hs
    exact List.mem_singleton.mp ht ▸ hlast s hs hp
  have hnd : ((scan.select p key rows ++ [r]).map key).Nodup :=
    List.pairwise_map.mpr (hsorted.imp ne_of_lt)
  refine hperm.eq_of_pairwise (fun a b ha hb hab hba ↦ ?_) select_pairwise (hsorted.imp le_of_lt)
  exact List.inj_on_of_nodup_map hnd (hperm.mem_iff.mp ha) hb (le_antisymm hab hba)

section Strict

variable (hnd : rows.Nodup) (hinj : ∀ r ∈ rows, ∀ s ∈ rows, key r = key s → r = s)

include hnd hinj

theorem select_pairwise_lt :
    (scan.select p key rows).Pairwise (fun r s ↦ key r < key s) := by
  have hsel : (scan.select p key rows).Nodup := select_perm.nodup_iff.mpr (hnd.filter p)
  refine (select_pairwise.and hsel).imp_of_mem (fun {r s} hr hs h ↦ ?_)
  exact lt_of_le_of_ne h.1 (fun he ↦
    h.2 (hinj r (mem_select.mp hr).1 s (mem_select.mp hs).1 he))

theorem mem_take_select {n : ℕ} {e : ρ} (he : ((scan.select p key rows).take n).getLast? = some e) :
    r ∈ (scan.select p key rows).take n ↔ (r ∈ rows ∧ p r = true) ∧ key r ≤ key e := by
  have hsort : (scan.select p key rows).Pairwise (fun r s ↦ key r < key s) :=
    select_pairwise_lt hnd hinj
  have hmem : e ∈ (scan.select p key rows).take n := List.mem_of_getLast? he
  rw [← List.take_append_drop n (scan.select p key rows)] at hsort
  obtain ⟨htake, -, hcross⟩ := List.pairwise_append.mp hsort
  constructor
  · intro hr
    refine ⟨mem_select.mp (List.mem_of_mem_take hr), ?_⟩
    obtain ⟨init, hinit⟩ := List.getLast?_eq_some_iff.mp he
    rw [hinit] at hr htake
    rcases List.mem_append.mp hr with hr | hr
    · exact ((List.pairwise_append.mp htake).2.2 r hr e (List.mem_singleton_self e)).le
    · rw [List.mem_singleton.mp hr]
  · rintro ⟨hr, hle⟩
    have hsel : r ∈ (scan.select p key rows).take n ++ (scan.select p key rows).drop n := by
      rw [List.take_append_drop]
      exact mem_select.mpr hr
    rcases List.mem_append.mp hsel with hr | hr
    · exact hr
    · exact absurd hle (hcross e hmem r hr).not_ge

end Strict

theorem head_take_select_le {n : ℕ} {f : ρ}
    (hf : ((scan.select p key rows).take n).head? = some f) (hr : r ∈ rows) (hp : p r = true) :
    key f ≤ key r := by
  have hfirst : scan.first p key rows = some f := by
    cases n with
    | zero => simp at hf
    | succ n => simpa [first, List.head?_take] using hf
  exact (first_eq_some hfirst).2.2 r hr hp

end Scan

end SauronId.Lib
