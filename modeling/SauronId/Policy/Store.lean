import SauronId.Policy.Enforcement

namespace SauronId.Policy.Store

open Lib Lib.Run

/-- `parse` takes a text whose first character that is not blank is a brace for
JSON. -/
def looksLikeJson (input : String) : Bool :=
  (input.toList.dropWhile Text.isWhitespace).head? = some '\x7b'

/-- What the store takes from the YAML and JSON crates. A policy that was read
from a document is read back from the YAML text written for it. -/
structure Documents where
  (fromYaml fromJson : String → Except String Policy)
  toYaml : Policy → Except String String
  readBack : ∀ p, (∃ doc, fromYaml doc = .ok p ∨ fromJson doc = .ok p) →
    ∀ text, toYaml p = .ok text → looksLikeJson text = false ∧ fromYaml text = .ok p

inductive ParseError
  | invalidYaml (message : String)
  | invalidJson (message : String)
  | rejected (error : PolicyParseError)
  deriving DecidableEq

inductive StoreError
  | db (message : String)
  | parse (error : ParseError)
  | compile (error : CompileError)
  deriving DecidableEq

def validated (L : Engine) (p : Policy) : Except ParseError Policy :=
  match validate L.text L.zones p with
  | .ok () => .ok p
  | .error e => .error (.rejected e)

def parseYaml (L : Engine) (D : Documents) (input : String) : Except ParseError Policy := do
  let policy ← (D.fromYaml input).mapError .invalidYaml
  validated L policy

def parseJson (L : Engine) (D : Documents) (input : String) : Except ParseError Policy := do
  let policy ← (D.fromJson input).mapError .invalidJson
  validated L policy

def parse (L : Engine) (D : Documents) (input : String) : Except ParseError Policy :=
  if looksLikeJson input then parseJson L D input else parseYaml L D input

structure PolicyRow where
  (policyId agent version rawYaml : String)
  (createdAt updatedAt : ℤ)
  tenantId : String

abbrev TenantKey := String × String

structure StoreIndex where
  byId : TenantKey → Option CompiledPolicy
  byAgent : TenantKey → Option String
  updatedAt : TenantKey → Option ℤ

def StoreIndex.empty : StoreIndex := ⟨fun _ ↦ none, fun _ ↦ none, fun _ ↦ none⟩

structure PolicyStore where
  db : Table PolicyRow.policyId
  index : StoreIndex

def PolicyStore.new : PolicyStore := ⟨.empty, .empty⟩

def loadRow (L : Engine) (D : Documents) (row : PolicyRow) : Except StoreError CompiledPolicy := do
  let policy ← (parse L D row.rawYaml).mapError .parse
  (compile L policy).mapError .compile

/-- The three `insert`s with which `hydrate` and `upsert_tenant` file a policy. -/
def StoreIndex.file (idx : StoreIndex) (tenantId id : String) (compiled : CompiledPolicy)
    (now : ℤ) : StoreIndex where
  byId := Function.update idx.byId (tenantId, id) (some compiled)
  byAgent := Function.update idx.byAgent (tenantId, compiled.agent) (some id)
  updatedAt := Function.update idx.updatedAt (tenantId, id) (some now)

def hydrateRow (L : Engine) (D : Documents) (idx : StoreIndex) (row : PolicyRow) :
    Except StoreError StoreIndex := do
  let compiled ← loadRow L D row
  return idx.file row.tenantId row.policyId compiled row.updatedAt

def hydrate (L : Engine) (D : Documents) (scan : Scan PolicyRow)
    (db : Table PolicyRow.policyId) : Except StoreError (StoreIndex × ℕ) := do
  let rows := scan.visit db.rows
  let idx ← rows.foldlM (hydrateRow L D) .empty
  return (idx, rows.length)

def upsertTenant (D : Documents) (s : PolicyStore) (now : ℤ) (tenantId : String)
    (compiled : CompiledPolicy) : Except StoreError PolicyStore := do
  let rawYaml ← (D.toYaml compiled.raw).mapError (fun e ↦ StoreError.db ("serialize: " ++ e))
  let row : PolicyRow := ⟨compiled.policyId, compiled.agent, compiled.raw.version, rawYaml, now, now,
    tenantId⟩
  return {
    db := s.db.upsert row
      (fun r ↦ { r with
        agent := row.agent
        version := row.version
        rawYaml := row.rawYaml
        updatedAt := row.updatedAt
        tenantId := row.tenantId })
      (fun _ ↦ rfl)
    index := s.index.file tenantId compiled.policyId compiled now }

def getByIdTenant (s : PolicyStore) (tenantId id : String) : Option CompiledPolicy :=
  s.index.byId (tenantId, id)

def getByAgentTenant (s : PolicyStore) (tenantId agent : String) : Option CompiledPolicy := do
  let id ← s.index.byAgent (tenantId, agent)
  s.index.byId (tenantId, id)

def deleteTenant (s : PolicyStore) (tenantId id : String) : PolicyStore where
  db := s.db.deleteWhere (fun r ↦ r.policyId = id ∧ r.tenantId = tenantId)
  index :=
    { byId := Function.update s.index.byId (tenantId, id) none
      byAgent :=
        match s.index.byId (tenantId, id) with
        | some cp => Function.update s.index.byAgent (tenantId, cp.agent) none
        | none => s.index.byAgent
      updatedAt := Function.update s.index.updatedAt (tenantId, id) none }

structure Upload (L : Engine) (D : Documents) where
  raw : String
  policy : Policy
  compiled : CompiledPolicy
  parsed : parse L D raw = .ok policy
  compiles : compile L policy = .ok compiled

inductive Call (L : Engine) (D : Documents)
  | upsert (tenantId : String) (upload : Upload L D) (now : ℤ)
  | delete (tenantId id : String)

variable {L : Engine} {D : Documents}

def next (s : PolicyStore) : Call L D → Option PolicyStore
  | .upsert tenantId upload now =>
    some ((upsertTenant D s now tenantId upload.compiled).toOption.getD s)
  | .delete tenantId id => some (deleteTenant s tenantId id)

variable {c : CompiledPolicy} {t id : String} {idx : StoreIndex}

theorem file_byId_self {now : ℤ} :
    (idx.file t id c now).byId (t, id) = some c :=
  Function.update_self ..

theorem file_byId_of_ne {now : ℤ} {key : TenantKey} (h : key ≠ (t, id)) :
    (idx.file t id c now).byId key = idx.byId key :=
  Function.update_of_ne h ..

variable {s : PolicyStore}

theorem deleteTenant_byId_self :
    (deleteTenant s t id).index.byId (t, id) = none :=
  Function.update_self ..

theorem deleteTenant_byId_of_ne {key : TenantKey} (h : key ≠ (t, id)) :
    (deleteTenant s t id).index.byId key = s.index.byId key :=
  Function.update_of_ne h ..

/-! ### Reading the stored text back -/

theorem validated_eq_ok {p q : Policy} :
    validated L p = .ok q ↔ p = q ∧ validate L.text L.zones p = .ok () := by
  unfold validated
  cases validate L.text L.zones p <;> simp

theorem parse_eq_ok {input : String} {p : Policy} (h : parse L D input = .ok p) :
    (D.fromYaml input = .ok p ∨ D.fromJson input = .ok p) ∧
      validate L.text L.zones p = .ok () := by
  unfold parse at h
  split_ifs at h
  · obtain ⟨q, hq, hv⟩ := bind_eq_ok.mp h
    obtain ⟨rfl, hval⟩ := validated_eq_ok.mp hv
    exact ⟨.inr (mapError_eq_ok.mp hq), hval⟩
  · obtain ⟨q, hq, hv⟩ := bind_eq_ok.mp h
    obtain ⟨rfl, hval⟩ := validated_eq_ok.mp hv
    exact ⟨.inl (mapError_eq_ok.mp hq), hval⟩

theorem parse_toYaml {input text : String} {p : Policy} (h : parse L D input = .ok p)
    (ht : D.toYaml p = .ok text) : parse L D text = .ok p := by
  obtain ⟨hread, hval⟩ := parse_eq_ok h
  obtain ⟨hjson, hyaml⟩ := D.readBack p ⟨input, hread⟩ text ht
  rw [parse, hjson, if_neg Bool.false_ne_true]
  exact bind_eq_ok.mpr ⟨p, mapError_eq_ok.mpr hyaml, validated_eq_ok.mpr ⟨rfl, hval⟩⟩

theorem Upload.loadRow (u : Upload L D) {row : PolicyRow}
    (h : D.toYaml u.compiled.raw = .ok row.rawYaml) : loadRow L D row = .ok u.compiled := by
  rw [compile_raw u.compiles] at h
  exact bind_eq_ok.mpr ⟨u.policy, mapError_eq_ok.mpr (parse_toYaml u.parsed h),
    mapError_eq_ok.mpr u.compiles⟩

/-! ### What a hydrated index holds -/

theorem hydrateRow_eq_ok {row : PolicyRow} (h : loadRow L D row = .ok c) :
    hydrateRow L D idx row = .ok (idx.file row.tenantId row.policyId c row.updatedAt) := by
  rw [hydrateRow, h]
  rfl

theorem foldlM_hydrateRow {rows : List PolicyRow} (hload : ∀ r ∈ rows, ∃ c, loadRow L D r = .ok c)
    (hnd : (rows.map PolicyRow.policyId).Nodup) (idx : StoreIndex) :
    ∃ idx', rows.foldlM (hydrateRow L D) idx = .ok idx' ∧ ∀ t id c,
      idx'.byId (t, id) = some c ↔
        (∃ r ∈ rows, r.tenantId = t ∧ r.policyId = id ∧ loadRow L D r = .ok c) ∨
        (∀ r ∈ rows, r.tenantId = t → r.policyId ≠ id) ∧ idx.byId (t, id) = some c := by
  induction rows generalizing idx with
  | nil => exact ⟨idx, rfl, by simp⟩
  | cons row rows ih =>
    obtain ⟨⟨d, hd⟩, hload⟩ := List.forall_mem_cons.mp hload
    obtain ⟨hrow, hnd⟩ := List.nodup_cons.mp hnd
    obtain ⟨idx', hidx', hby⟩ := ih hload hnd (idx.file row.tenantId row.policyId d row.updatedAt)
    refine ⟨idx', by rw [List.foldlM_cons, hydrateRow_eq_ok hd]; exact hidx', fun t id c ↦ ?_⟩
    rw [hby]
    by_cases hkey : (row.tenantId, row.policyId) = (t, id)
    · -- no later row has the id of this one, so what it files stays
      obtain ⟨rfl, rfl⟩ := Prod.mk.inj hkey
      have hlater : ∀ r ∈ rows, r.policyId ≠ row.policyId :=
        fun r hr he ↦ hrow (he ▸ List.mem_map_of_mem hr)
      rw [file_byId_self]
      simp only [List.mem_cons, exists_eq_or_imp, forall_eq_or_imp, true_and, hd]
      constructor
      · rintro (⟨r, hr, -, hid, -⟩ | ⟨-, he⟩)
        · exact absurd hid (hlater r hr)
        · exact .inl (.inl (congrArg Except.ok (Option.some.inj he)))
      · rintro ((he | ⟨r, hr, -, hid, -⟩) | ⟨hne, -⟩)
        · exact .inr ⟨fun r hr _ ↦ hlater r hr, congrArg some (Except.ok.inj he)⟩
        · exact absurd hid (hlater r hr)
        · exact absurd rfl (hne.1 trivial)
    · have hother : row.tenantId = t → row.policyId ≠ id := fun ht hid ↦ hkey (by rw [ht, hid])
      have hnone : ¬ (row.tenantId = t ∧ row.policyId = id ∧ loadRow L D row = .ok c) :=
        fun h ↦ hother h.1 h.2.1
      rw [file_byId_of_ne (Ne.symm hkey)]
      simp only [List.mem_cons, exists_eq_or_imp, forall_eq_or_imp, hnone, false_or]
      rw [and_iff_right hother]

def Loads (L : Engine) (D : Documents) (db : Table PolicyRow.policyId) : Prop :=
  ∀ r ∈ db.rows, ∃ c, loadRow L D r = .ok c

def Holds (L : Engine) (D : Documents) (db : Table PolicyRow.policyId) (t id : String)
    (c : CompiledPolicy) : Prop :=
  ∃ r, db.get id = some r ∧ r.tenantId = t ∧ loadRow L D r = .ok c

variable {db : Table PolicyRow.policyId}

theorem hydrate_holds (h : Loads L D db) (scan : Scan PolicyRow) :
    ∃ idx, hydrate L D scan db = .ok (idx, db.rows.length) ∧
      ∀ t id c, idx.byId (t, id) = some c ↔ Holds L D db t id c := by
  have hperm := scan.perm db.rows
  have hload : ∀ r ∈ scan.visit db.rows, ∃ c, loadRow L D r = .ok c :=
    fun r hr ↦ h r (hperm.mem_iff.mp hr)
  obtain ⟨idx, hidx, hby⟩ :=
    foldlM_hydrateRow hload ((hperm.map _).nodup_iff.mpr db.nodup) .empty
  refine ⟨idx, by rw [hydrate, hidx, hperm.length_eq]; rfl, fun t id c ↦ ?_⟩
  rw [hby]
  simp only [StoreIndex.empty, reduceCtorEq, and_false, or_false, hperm.mem_iff, Holds,
    Table.get_eq_some]
  constructor
  · rintro ⟨r, hr, ht, hid, hc⟩
    exact ⟨r, ⟨hr, hid⟩, ht, hc⟩
  · rintro ⟨r, ⟨hr, hid⟩, ht, hc⟩
    exact ⟨r, hr, ht, hid, hc⟩

/-! ### The database mirrors the live index -/

structure Mirrored (L : Engine) (D : Documents) (s : PolicyStore) : Prop where
  loads : Loads L D s.db
  byId : ∀ t id c, s.index.byId (t, id) = some c ↔ Holds L D s.db t id c

/-- A fresh store filled from the database holds the entries of the live one. -/
def RestartEquivalent (L : Engine) (D : Documents) (scan : Scan PolicyRow) (s : PolicyStore) :
    Prop :=
  ∃ idx n, hydrate L D scan s.db = .ok (idx, n) ∧ idx.byId = s.index.byId

theorem restartEquivalent_iff (h : Loads L D s.db) {scan : Scan PolicyRow} :
    RestartEquivalent L D scan s ↔ Mirrored L D s := by
  obtain ⟨idx, hidx, hby⟩ := hydrate_holds h scan
  constructor
  · rintro ⟨idx', n, hidx', he⟩
    obtain ⟨rfl, -⟩ := Prod.mk.inj (Except.ok.inj (hidx.symm.trans hidx'))
    exact ⟨h, fun t id c ↦ by rw [← he, hby]⟩
  · intro hm
    refine ⟨idx, _, hidx, funext (fun key ↦ Option.ext (fun c ↦ ?_))⟩
    rw [hby key.1 key.2, ← hm.byId]

variable {s : PolicyStore} {tenantId : String} {now : ℤ}

variable {s' : PolicyStore}

theorem upsertTenant_eq_ok (h : upsertTenant D s now tenantId c = .ok s') :
    s'.index = s.index.file tenantId c.policyId c now ∧
      (∀ id, id ≠ c.policyId → s'.db.get id = s.db.get id) ∧
      ∃ r, s'.db.get c.policyId = some r ∧ r.tenantId = tenantId ∧
        D.toYaml c.raw = .ok r.rawYaml := by
  simp only [upsertTenant, bind_eq_ok, pure, Except.pure, Except.ok.injEq] at h
  obtain ⟨text, htext, rfl⟩ := h
  have hyaml : D.toYaml c.raw = .ok text := mapError_eq_ok.mp htext
  refine ⟨rfl, fun id hid ↦ by rw [Table.get_upsert, if_neg hid], ?_⟩
  rw [Table.get_upsert, if_pos rfl]
  cases s.db.get c.policyId with
  | none => exact ⟨_, rfl, rfl, hyaml⟩
  | some r => exact ⟨_, rfl, rfl, hyaml⟩

/-- An upsert does not take a row over from another tenant. -/
def OwnRow (s : PolicyStore) : Call L D → Prop
  | .upsert tenantId upload _ =>
    (D.toYaml upload.policy).isOk = true →
      ∀ r ∈ s.db.rows, r.policyId = upload.compiled.policyId → r.tenantId = tenantId
  | .delete _ _ => True

theorem loads_of_get (h : ∀ id r, db.get id = some r → ∃ c, loadRow L D r = .ok c) : Loads L D db :=
  fun r hr ↦ h r.policyId r (Table.get_eq_some.mpr ⟨hr, rfl⟩)

theorem Loads.get (h : Loads L D db) {id : String} {r : PolicyRow} (hr : db.get id = some r) :
    ∃ c, loadRow L D r = .ok c :=
  h r (Table.get_eq_some.mp hr).1

theorem Loads.next (h : Loads L D s.db) (e : Call L D) (hn : next s e = some s') :
    Loads L D s'.db := by
  cases e with
  | delete t id =>
    obtain rfl := Option.some.inj hn
    exact fun r hr ↦ h r (Table.mem_deleteWhere.mp hr).1
  | upsert t u now =>
    obtain rfl := Option.some.inj hn
    cases hup : upsertTenant D s now t u.compiled with
    | error e => exact h
    | ok s'' =>
      obtain ⟨-, hother, r, hr, -, hyaml⟩ := upsertTenant_eq_ok hup
      refine loads_of_get (fun id row hrow ↦ ?_)
      replace hrow : s''.db.get id = some row := hrow
      by_cases hid : id = u.compiled.policyId
      · rw [hid, hr] at hrow
        exact ⟨u.compiled, u.loadRow (Option.some.inj hrow ▸ hyaml)⟩
      · rw [hother id hid] at hrow
        exact h.get hrow

theorem Mirrored.delete (h : Mirrored L D s) (t id : String) :
    Mirrored L D (deleteTenant s t id) where
  loads := h.loads.next (.delete t id : Call L D) rfl
  byId := by
    intro t' id' c
    have hget : (deleteTenant s t id).db.get id' =
        (s.db.get id').filter (fun r ↦ !decide (r.policyId = id ∧ r.tenantId = t)) :=
      Table.get_deleteWhere id'
    simp only [Holds, hget, Option.filter_eq_some_iff]
    by_cases hkey : (t', id') = (t, id)
    · obtain ⟨rfl, rfl⟩ := Prod.mk.inj hkey
      rw [deleteTenant_byId_self]
      refine iff_of_false (by simp) ?_
      rintro ⟨r, ⟨hr, hkept⟩, ht, -⟩
      simp [(Table.get_eq_some.mp hr).2, ht] at hkept
    · rw [deleteTenant_byId_of_ne hkey, h.byId]
      refine exists_congr (fun r ↦ ?_)
      constructor
      · rintro ⟨hr, ht, hc⟩
        refine ⟨⟨hr, ?_⟩, ht, hc⟩
        have hother : ¬ (id' = id ∧ t' = t) := fun h ↦ hkey (by rw [h.1, h.2])
        simp [(Table.get_eq_some.mp hr).2, ht, hother]
      · rintro ⟨⟨hr, -⟩, ht, hc⟩
        exact ⟨hr, ht, hc⟩

theorem Mirrored.upsert (h : Mirrored L D s) {u : Upload L D}
    (hup : upsertTenant D s now tenantId u.compiled = .ok s') :
    Mirrored L D s' ↔
      ∀ r ∈ s.db.rows, r.policyId = u.compiled.policyId → r.tenantId = tenantId := by
  obtain ⟨hindex, hother, row, hrow, htenant, hyaml⟩ := upsertTenant_eq_ok hup
  have hload : loadRow L D row = .ok u.compiled := u.loadRow hyaml
  have hloads : Loads L D s'.db := by
    refine h.loads.next (.upsert tenantId u now) ?_
    rw [next, hup]
    rfl
  constructor
  · -- the policy of another tenant would stay in the index and lose its row
    intro hm r hr hid
    by_contra hne
    have hget : s.db.get u.compiled.policyId = some r := Table.get_eq_some.mpr ⟨hr, hid⟩
    obtain ⟨c, hc⟩ := h.loads r hr
    have hold : s'.index.byId (r.tenantId, u.compiled.policyId) = some c := by
      rw [hindex]
      have hkey : (r.tenantId, u.compiled.policyId) ≠ (tenantId, u.compiled.policyId) :=
        fun he ↦ hne (Prod.mk.inj he).1
      exact (file_byId_of_ne hkey).trans ((h.byId _ _ _).mpr ⟨r, hget, rfl, hc⟩)
    obtain ⟨r', hr', ht', -⟩ := (hm.byId _ _ _).mp hold
    rw [hrow] at hr'
    exact hne (ht'.symm.trans (Option.some.inj hr' ▸ htenant))
  · intro hown
    refine ⟨hloads, fun t id c ↦ ?_⟩
    rw [hindex, Holds]
    by_cases hid : id = u.compiled.policyId
    · subst hid
      rw [hrow]
      by_cases ht : t = tenantId
      · subst ht
        rw [file_byId_self]
        simp [htenant, hload]
      · rw [file_byId_of_ne (fun he ↦ ht (Prod.mk.inj he).1), h.byId]
        refine iff_of_false ?_ ?_
        · rintro ⟨r, hr, hrt, -⟩
          have hmem := Table.get_eq_some.mp hr
          exact ht (hrt.symm.trans (hown r hmem.1 hmem.2))
        · rintro ⟨r, hr, hrt, -⟩
          exact ht (hrt.symm.trans (Option.some.inj hr ▸ htenant))
    · rw [file_byId_of_ne (fun he ↦ hid (Prod.mk.inj he).2), h.byId, Holds, hother id hid]

theorem upsertTenant_isOk (s : PolicyStore) (now : ℤ) (tenantId : String) (u : Upload L D) :
    (∃ s', upsertTenant D s now tenantId u.compiled = .ok s') ↔
      (D.toYaml u.policy).isOk = true := by
  rw [upsertTenant, compile_raw u.compiles]
  cases D.toYaml u.policy <;> simp [Except.mapError, Except.isOk, Except.toBool, bind, Except.bind,
    pure, Except.pure]

/-- One call keeps the database and the index together exactly when it does not
take a row over. -/
theorem Mirrored.next_iff (h : Mirrored L D s) (e : Call L D) (hn : next s e = some s') :
    Mirrored L D s' ↔ OwnRow s e := by
  cases e with
  | delete t id =>
    obtain rfl := Option.some.inj hn
    exact iff_of_true (h.delete t id) trivial
  | upsert t u now =>
    obtain rfl := Option.some.inj hn
    simp only [OwnRow, ← upsertTenant_isOk s now t u]
    cases hup : upsertTenant D s now t u.compiled with
    | error e => exact iff_of_true h (by simp)
    | ok s'' =>
      rw [← h.upsert hup]
      simp [Except.toOption]

theorem mirrored_new : Mirrored L D .new where
  loads := by simp [Loads, PolicyStore.new, Table.empty]
  byId := by simp [PolicyStore.new, StoreIndex.empty, Holds, Table.get, Table.empty]

/-- A restart brings the live entries back after every call of a sequence exactly
when no upsert of the sequence takes over the row of another tenant. -/
theorem restart_equivalent_iff (scan : Scan PolicyRow) (calls : List (Call L D)) :
    (∀ made s, made <+: calls → run next .new made = some s → RestartEquivalent L D scan s) ↔
      Along next OwnRow .new calls := by
  have hsame : ∀ (made : List (Call L D)) s, run next .new made = some s →
      (RestartEquivalent L D scan s ↔ Mirrored L D s) := by
    intro made s hs
    have hloads : Loads L D s.db := run_invariant
      (fun u e v hu _ hn ↦ Loads.next hu e hn) (mirrored_new (L := L) (D := D)).loads
      (along_true _ _) hs
    exact restartEquivalent_iff hloads
  rw [along_iff_reached (Q := Mirrored L D) (fun s hs ↦ hs)
    (fun s e ↦ by cases e <;> exact ⟨_, rfl⟩)
    (fun s e t hs hn hok ↦ (hs.next_iff e hn).mpr hok)
    (fun s e t hs hn ht ↦ (hs.next_iff e hn).mp ht) mirrored_new]
  refine forall₂_congr (fun made s ↦ forall_congr' (fun _ ↦ ?_))
  exact forall_congr' (fun hs ↦ hsame made s hs)

def tillPolicy : Policy where
  version := "1"
  agent := "till"
  binding := {}
  invariants := []

def tillDocuments : Documents where
  fromYaml text := if text = "till" then .ok tillPolicy else .error "invalid type"
  fromJson _ := .error "expected value"
  toYaml _ := .ok "till"
  readBack := by
    rintro p ⟨doc, hdoc⟩ text ht
    obtain rfl : "till" = text := Except.ok.inj ht
    refine ⟨by decide, ?_⟩
    rcases hdoc with h | h
    · split_ifs at h
      simpa using h
    · cases h

def tillUpload : Upload plainEngine tillDocuments where
  raw := "till"
  policy := tillPolicy
  compiled := .ofBinding plainEngine tillPolicy
  parsed := bind_eq_ok.mpr ⟨tillPolicy, rfl, validated_eq_ok.mpr ⟨rfl, by decide +kernel⟩⟩
  compiles := compile_of_valid (validate_eq_ok.mp (by decide +kernel)) rfl

def sharedCalls : List (Call plainEngine tillDocuments) :=
  [.upsert "acme" tillUpload 1, .upsert "globex" tillUpload 2]

/-- Two tenants upload one policy: the live store holds it for both, a restarted
one only for the second. -/
theorem shared_policy_lost_on_restart :
    ∃ s, run next .new sharedCalls = some s ∧
      (s.index.byId ("acme", "pol_till")).isSome = true ∧
      (s.index.byId ("globex", "pol_till")).isSome = true ∧
      ¬ RestartEquivalent plainEngine tillDocuments .stored s := by
  obtain ⟨s, hs⟩ : ∃ s, run next .new sharedCalls = some s := ⟨_, rfl⟩
  have hlive : (run next .new sharedCalls).map (fun s ↦
      ((s.index.byId ("acme", "pol_till")).isSome, (s.index.byId ("globex", "pol_till")).isSome)) =
      some (true, true) := by
    decide +kernel
  have hlost : (run next .new sharedCalls).map (fun s ↦
      (hydrate plainEngine tillDocuments .stored s.db).toOption.map (fun restarted ↦
        (restarted.1.byId ("acme", "pol_till")).isSome)) = some (some false) := by
    decide +kernel
  rw [hs, Option.map_some, Option.some.injEq] at hlive hlost
  obtain ⟨hacme, hglobex⟩ := Prod.mk.inj hlive
  refine ⟨s, hs, hacme, hglobex, ?_⟩
  rintro ⟨idx, n, hidx, he⟩
  rw [hidx] at hlost
  have hgone : (idx.byId ("acme", "pol_till")).isSome = false := Option.some.inj hlost
  rw [he, hacme] at hgone
  cases hgone

end SauronId.Policy.Store
