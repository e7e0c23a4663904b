import SauronId.He.Correctness
import SauronId.Lib.Base64
import SauronId.Lib.BigEndian
import SauronId.Lib.Fallible
import SauronId.Lib.Run
import SauronId.Lib.Table

namespace SauronId.He

open Lib Lib.Run

inductive AppError
  | badRequest (message : String)
  | notFound (message : String)
  | internal (message : String)
  | serviceUnavailable (message : String)
  deriving DecidableEq

structure HeAggregationRow where
  (aggregationId cohortId metricId : String)
  periodStart : ℤ
  (pkId sumCiphertextB64 : String)
  (nContributions lastUpdated : ℤ)
  deriving DecidableEq

structure EncryptedStatsSubmission where
  (cohortId metricId : String)
  periodStart : ℤ
  (pkId encryptedValueB64 : String)

structure EncryptedStatsResponse where
  aggregatedInto : String
  nContributions : ℤ

abbrev HeDb := Table HeAggregationRow.aggregationId

/-- What the handler reads beside the database. `decodeFailed` is the text the
base64 decoder has for an input it refuses. -/
structure HeEnv where
  enabled : Bool
  registry : String → Option PaillierPublicKey
  decodeFailed : String → String

def ciphertextToB64 (ct : Ciphertext) : String := Base64.encode (BigEndian.toBytesBe ct.c)

def ciphertextFromB64 (env : HeEnv) (s : String) : Except HeError Ciphertext :=
  match Base64.decode s with
  | none => .error (.invalidParameter ("base64 decode failed: " ++ env.decodeFailed s))
  | some [] => .error .invalidCiphertext
  | some bytes => .ok ⟨BigEndian.fromBytesBe bytes⟩

def conflictingCohortForPk (db : HeDb) (pkId expectedCohort : String) : Option String :=
  (db.rows.find? (fun r ↦ r.pkId = pkId ∧ r.cohortId ≠ expectedCohort)).map
    HeAggregationRow.cohortId

theorem aggregationId_overwrite (sum : String) (n now : ℤ) (r : HeAggregationRow) :
    HeAggregationRow.aggregationId
      { r with sumCiphertextB64 := sum, nContributions := n, lastUpdated := now } =
      r.aggregationId := rfl

def upsertHeAggregation (db : HeDb) (row : HeAggregationRow) : HeDb :=
  db.upsert row (fun old ↦ { old with
      sumCiphertextB64 := row.sumCiphertextB64
      nContributions := row.nContributions
      lastUpdated := row.lastUpdated })
    (aggregationId_overwrite row.sumCiphertextB64 row.nContributions row.lastUpdated)

structure AggregateKey where
  (cohortId metricId : String)
  periodStart : ℤ
  pkId : String
  deriving DecidableEq

def EncryptedStatsSubmission.key (body : EncryptedStatsSubmission) : AggregateKey :=
  ⟨body.cohortId, body.metricId, body.periodStart, body.pkId⟩

def HeAggregationRow.key (row : HeAggregationRow) : AggregateKey :=
  ⟨row.cohortId, row.metricId, row.periodStart, row.pkId⟩

def aggregationId (k : AggregateKey) : String :=
  "agg_" ++ k.cohortId ++ "_" ++ k.metricId ++ "_" ++ toString k.periodStart ++ "_" ++ k.pkId

section Handler

variable {σ : Type} (env : HeEnv) (R : RngCore σ)

def resolve (body : EncryptedStatsSubmission) :
    Except AppError (PaillierPublicKey × Ciphertext) :=
  if env.enabled then
    match env.registry body.pkId with
    | none => .error (.notFound ("pk_id not registered: " ++ body.pkId))
    | some pk =>
      match ciphertextFromB64 env body.encryptedValueB64 with
      | .error e => .error (.badRequest ("ciphertext decode: " ++ e.display))
      | .ok incoming => .ok (pk, incoming)
  else
    .error (.serviceUnavailable ("custom Paillier aggregation is quarantined in production; " ++
      "use an independently reviewed HE service or explicitly opt in with " ++
      "SAURON_ENABLE_UNAUDITED_PAILLIER=1"))

def storageFailed (e : String) : AppError := .internal ("he store: storage error: " ++ e)

def refuseConflict (body : EncryptedStatsSubmission) (fault : Option String) (db : HeDb) :
    Except AppError Unit :=
  match fault with
  | some e => .error (storageFailed e)
  | none =>
    match conflictingCohortForPk db body.pkId body.cohortId with
    | none => .ok ()
    | some other => .error (.badRequest ("pk_id '" ++ body.pkId ++
        "' is already bound to cohort '" ++ other ++ "'; refusing to reuse it for cohort '" ++
        body.cohortId ++ "'"))

def restore (pk : PaillierPublicKey) (row : Option HeAggregationRow) (s : σ) :
    Except AppError HeAggregator :=
  match row with
  | some row =>
    match ciphertextFromB64 env row.sumCiphertextB64 with
    | .error e => .error (.internal ("stored ciphertext: " ++ e.display))
    | .ok existing => .ok (.fromParts pk existing (row.nContributions % 2 ^ 32).toNat)
  | none =>
    match (HeAggregator.new R pk s).1 with
    | .error e => .error (.internal ("init aggregator: " ++ e.display))
    | .ok agg => .ok agg

def contribute (agg : HeAggregator) (incoming : Ciphertext) : Except AppError HeAggregator :=
  match agg.addEncrypted incoming with
  | (.error e, _) => .error (.badRequest ("homomorphic add: " ++ e.display))
  | (.ok (), agg') => .ok agg'

def loadAndAdd (body : EncryptedStatsSubmission) (pk : PaillierPublicKey) (incoming : Ciphertext)
    (fault : Option String) (s : σ) (db : HeDb) : Except AppError HeAggregator :=
  match fault with
  | some e => .error (storageFailed e)
  | none => do
    let agg ← restore env R pk (db.get (aggregationId body.key)) s
    contribute agg incoming

def rowOf (body : EncryptedStatsSubmission) (agg : HeAggregator) (now : ℤ) : HeAggregationRow where
  aggregationId := aggregationId body.key
  cohortId := body.cohortId
  metricId := body.metricId
  periodStart := body.periodStart
  pkId := body.pkId
  sumCiphertextB64 := ciphertextToB64 agg.sumCiphertext
  nContributions := agg.nContributions
  lastUpdated := now

def responseOf (body : EncryptedStatsSubmission) (agg : HeAggregator) : EncryptedStatsResponse :=
  ⟨aggregationId body.key, agg.nContributions⟩

/-- One request with what it finds: the randomness, the clock, and the errors
the engine answers its three statements with, if any. -/
structure SubmitCall (σ : Type) where
  body : EncryptedStatsSubmission
  seed : σ
  now : ℤ
  (conflictFault loadFault storeFault : Option String)

def computeSum (call : SubmitCall σ) (db : HeDb) : Except AppError HeAggregator := do
  let (pk, incoming) ← resolve env call.body
  refuseConflict call.body call.conflictFault db
  loadAndAdd env R call.body pk incoming call.loadFault call.seed db

def submitEncryptedHandler (call : SubmitCall σ) (db : HeDb) :
    Except AppError EncryptedStatsResponse × HeDb :=
  match computeSum env R call db with
  | .error e => (.error e, db)
  | .ok agg =>
    match call.storeFault with
    | some e => (.error (storageFailed e), db)
    | none => (.ok (responseOf call.body agg),
        upsertHeAggregation db (rowOf call.body agg call.now))

end Handler

/-- The private keys the operators hold for the registered public keys, each of
them assembled from two primes. -/
structure KeyRing (registry : String → Option PaillierPublicKey) where
  secret : String → Option PaillierPrivateKey
  registered : ∀ id pk, registry id = some pk → ∃ sk, secret id = some sk ∧ sk.public = pk
  assembled : ∀ id sk, secret id = some sk →
    ∃ p q, p.Prime ∧ q.Prime ∧ PaillierPrivateKey.fromPrimes p q = .ok sk

structure Contribution where
  key : AggregateKey
  ciphertext : Ciphertext

def contributedTo (k : AggregateKey) (log : List Contribution) : List Ciphertext :=
  (log.filter (fun c ↦ c.key = k)).map Contribution.ciphertext

/-- The row decrypts to the sum of the plaintexts and counts them. -/
def Sums {env : HeEnv} (ring : KeyRing env.registry) (row : HeAggregationRow)
    (cts : List Ciphertext) : Prop :=
  ∃ sk ms ct, ring.secret row.pkId = some sk ∧ List.Forall₂ sk.Encrypts cts ms ∧
    ciphertextFromB64 env row.sumCiphertextB64 = .ok ct ∧
    sk.Encrypts ct (ms.sum % sk.public.n) ∧ row.nContributions = ms.length

/-- Every row is of what its columns say, and holds what was accepted for it. -/
structure Separated {env : HeEnv} (ring : KeyRing env.registry) (db : HeDb)
    (log : List Contribution) : Prop where
  named : ∀ id row, db.get id = some row → id = aggregationId row.key
  sums : ∀ id row, db.get id = some row → Sums ring row (contributedTo row.key log)
  owned : ∀ id row, db.get id = some row → ∃ c ∈ log, c.key = row.key
  found : ∀ c ∈ log, ∃ row, db.get (aggregationId c.key) = some row ∧ row.key = c.key

section Step

variable {σ : Type} {env : HeEnv} {R : RngCore σ} {ring : KeyRing env.registry}
  {db : HeDb} {log : List Contribution}

theorem ciphertextFromB64_toB64 (env : HeEnv) (ct : Ciphertext) :
    ciphertextFromB64 env (ciphertextToB64 ct) = .ok ct := by
  rw [ciphertextFromB64, ciphertextToB64, Base64.decode_encode]
  cases hbytes : BigEndian.toBytesBe ct.c with
  | nil => exact absurd hbytes (BigEndian.toBytesBe_ne_nil ct.c)
  | cons b bs =>
    show Except.ok (Ciphertext.mk (BigEndian.fromBytesBe (b :: bs))) = _
    rw [← hbytes, BigEndian.fromBytesBe_toBytesBe]

variable {sk : PaillierPrivateKey}

theorem KeyRing.sound (ring : KeyRing env.registry) {id : String} (h : ring.secret id = some sk) :
    sk.Sound := by
  obtain ⟨p, q, hp, hq, hkey⟩ := ring.assembled id sk h
  exact sound_of_fromPrimes hp hq hkey

theorem get_upsertHeAggregation (row : HeAggregationRow) (id : String) :
    (upsertHeAggregation db row).get id =
      if id = row.aggregationId then
        some ((db.get id).elim row (fun old ↦ { old with
          sumCiphertextB64 := row.sumCiphertextB64
          nContributions := row.nContributions
          lastUpdated := row.lastUpdated }))
      else db.get id :=
  Table.get_upsert id

theorem contributedTo_concat_self (c : Contribution) :
    contributedTo c.key (log ++ [c]) = contributedTo c.key log ++ [c.ciphertext] := by
  simp [contributedTo]

variable {k : AggregateKey}

theorem contributedTo_concat_of_ne {c : Contribution} (h : c.key ≠ k) :
    contributedTo k (log ++ [c]) = contributedTo k log := by
  simp [contributedTo, h]

variable {incoming : Ciphertext} {body : EncryptedStatsSubmission} {pk : PaillierPublicKey}

theorem resolve_eq_ok (h : resolve env body = .ok (pk, incoming)) :
    env.registry body.pkId = some pk ∧
      ciphertextFromB64 env body.encryptedValueB64 = .ok incoming := by
  unfold resolve at h
  split at h
  · cases hpk : env.registry body.pkId with
    | none => simp [hpk] at h
    | some pk' =>
      cases hct : ciphertextFromB64 env body.encryptedValueB64 with
      | error e => simp [hpk, hct] at h
      | ok ct => simpa [hpk, hct] using h
  · cases h

variable {agg agg' : HeAggregator}

theorem contribute_eq_ok (h : contribute agg incoming = .ok agg') :
    agg.pk.Member incoming ∧ agg' = (agg.addEncrypted incoming).2 := by
  unfold contribute at h
  rcases agg.addEncrypted_cases incoming with ⟨hmem, hadd⟩ | ⟨-, hadd⟩
  · rw [hadd] at h ⊢
    exact ⟨hmem, (Except.ok.inj h).symm⟩
  · rw [hadd] at h
    cases h

theorem loadAndAdd_eq_ok {fault : Option String} {s : σ} {agg' : HeAggregator}
    (h : loadAndAdd env R body pk incoming fault s db = .ok agg') :
    ∃ agg, restore env R pk (db.get (aggregationId body.key)) s = .ok agg ∧
      contribute agg incoming = .ok agg' := by
  cases fault with
  | some e => cases h
  | none => exact bind_eq_ok.mp h

/-- The aggregator the handler computes with holds what was accepted for the
key, when the row it was restored from is of that key and its counter is below
the largest `u32`. -/
theorem Separated.holds_restore (h : Separated ring db log) (hsk : ring.secret k.pkId = some sk)
    (hkey : ∀ row ∈ db.get (aggregationId k), row.key = k ∧ row.nContributions < 2 ^ 32 - 1)
    {s : σ} {agg : HeAggregator}
    (hagg : restore env R sk.public (db.get (aggregationId k)) s = .ok agg) :
    ∃ ms, List.Forall₂ sk.Encrypts (contributedTo k log) ms ∧
      HeAggregator.Holds sk agg (ms.sum % sk.public.n) ms.length ∧
      ms.length < HeAggregator.u32Max := by
  unfold restore at hagg
  cases hget : db.get (aggregationId k) with
  | none =>
    rw [hget] at hagg
    have hnone : contributedTo k log = [] := by
      simp only [contributedTo, List.map_eq_nil_iff, List.filter_eq_nil_iff, decide_eq_true_eq]
      intro c hc hck
      obtain ⟨row, hrow, -⟩ := h.found c hc
      rw [hck, hget] at hrow
      cases hrow
    refine ⟨[], hnone ▸ .nil, ?_, by decide⟩
    cases hnew : (HeAggregator.new R sk.public s).1 with
    | error e => simp [hnew] at hagg
    | ok fresh =>
      obtain rfl : fresh = agg := by simpa [hnew] using hagg
      rw [List.sum_nil, Nat.zero_mod]
      exact HeAggregator.holds_new (ring.sound hsk) hnew
  | some row =>
    rw [hget] at hagg
    obtain ⟨rfl, hlt⟩ := hkey row hget
    obtain ⟨sk', ms, ct, hsk', hms, hct, hsum, hcount⟩ := h.sums _ row hget
    obtain rfl : sk' = sk := Option.some.inj (hsk'.symm.trans hsk)
    obtain rfl : HeAggregator.fromParts sk'.public ct (row.nContributions % 2 ^ 32).toNat = agg := by
      simpa [hct] using hagg
    have hlen : ms.length < HeAggregator.u32Max := by
      unfold HeAggregator.u32Max
      omega
    refine ⟨ms, hms, ⟨rfl, hsum, ?_⟩, hlen⟩
    show (row.nContributions % 2 ^ 32).toNat = min ms.length HeAggregator.u32Max
    rw [hcount, Nat.min_eq_left hlen.le]
    omega

theorem exists_get_upsert {row : HeAggregationRow} {cts : List Ciphertext}
    (hid : row.aggregationId = aggregationId k) (hrow : row.key = k)
    (hkey : ∀ old ∈ db.get (aggregationId k), old.key = k) (hsums : Sums ring row cts) :
    ∃ new, (upsertHeAggregation db row).get (aggregationId k) = some new ∧ new.key = k ∧
      Sums ring new cts := by
  rw [get_upsertHeAggregation, if_pos hid.symm]
  cases hget : db.get (aggregationId k) with
  | none => exact ⟨row, rfl, hrow, hsums⟩
  | some old =>
    refine ⟨_, rfl, hkey old hget, ?_⟩
    have hpk : old.pkId = row.pkId :=
      congrArg AggregateKey.pkId ((hkey old hget).trans hrow.symm)
    unfold Sums at hsums ⊢
    rw [← hpk] at hsums
    exact hsums

theorem Separated.store (h : Separated ring db log) {row : HeAggregationRow}
    (hid : row.aggregationId = aggregationId k) (hrow : row.key = k)
    (hkey : ∀ old ∈ db.get (aggregationId k), old.key = k)
    (hsums : Sums ring row (contributedTo k log ++ [incoming])) :
    Separated ring (upsertHeAggregation db row) (log ++ [⟨k, incoming⟩]) := by
  have hothers : ∀ id, id ≠ aggregationId k → (upsertHeAggregation db row).get id = db.get id := by
    intro id hne
    rw [get_upsertHeAggregation, if_neg (hid ▸ hne)]
  obtain ⟨new, hnew, hnewKey, hnewSums⟩ := exists_get_upsert hid hrow hkey hsums
  -- a row under another id is of another key, and was there before
  have hcases : ∀ id r, (upsertHeAggregation db row).get id = some r →
      id = aggregationId k ∧ r = new ∨ db.get id = some r ∧ k ≠ r.key := by
    intro id r hr
    by_cases he : id = aggregationId k
    · rw [he, hnew] at hr
      exact .inl ⟨he, (Option.some.inj hr).symm⟩
    · rw [hothers id he] at hr
      refine .inr ⟨hr, ?_⟩
      intro hk
      exact he (hk ▸ h.named id r hr)
  refine ⟨?_, ?_, ?_, ?_⟩
  · intro id r hr
    rcases hcases id r hr with ⟨rfl, rfl⟩ | ⟨hr, -⟩
    · rw [hnewKey]
    · exact h.named id r hr
  · intro id r hr
    rcases hcases id r hr with ⟨rfl, rfl⟩ | ⟨hr, hne⟩
    · rw [hnewKey, contributedTo_concat_self ⟨k, incoming⟩]
      exact hnewSums
    · rw [contributedTo_concat_of_ne hne]
      exact h.sums id r hr
  · intro id r hr
    rcases hcases id r hr with ⟨rfl, rfl⟩ | ⟨hr, -⟩
    · exact ⟨⟨k, incoming⟩, by simp, hnewKey.symm⟩
    · obtain ⟨c, hc, hck⟩ := h.owned id r hr
      exact ⟨c, List.mem_append_left _ hc, hck⟩
  · intro c hc
    rcases List.mem_append.mp hc with hc | hc
    · obtain ⟨r, hr, hrk⟩ := h.found c hc
      by_cases he : aggregationId c.key = aggregationId k
      · rw [he] at hr ⊢
        refine ⟨new, hnew, ?_⟩
        rw [hnewKey, ← hrk, hkey r hr]
      · exact ⟨r, (hothers _ he).trans hr, hrk⟩
    · obtain rfl := List.mem_singleton.mp hc
      exact ⟨new, hnew, hnewKey⟩

theorem Separated.writeBack (h : Separated ring db log) {s : σ}
    (hpk : env.registry body.pkId = some pk)
    (hkey : ∀ row ∈ db.get (aggregationId body.key),
      row.key = body.key ∧ row.nContributions < 2 ^ 32 - 1)
    (hagg : restore env R pk (db.get (aggregationId body.key)) s = .ok agg)
    (hadd : contribute agg incoming = .ok agg') (now : ℤ) :
    Separated ring (upsertHeAggregation db (rowOf body agg' now))
      (log ++ [⟨body.key, incoming⟩]) := by
  obtain ⟨sk, hsk, rfl⟩ := ring.registered _ _ hpk
  have hsound := ring.sound hsk
  obtain ⟨ms, hms, hholds, hlen⟩ := h.holds_restore hsk hkey hagg
  obtain ⟨hmem, rfl⟩ := contribute_eq_ok hadd
  obtain ⟨m, hm⟩ := exists_encrypts hsound (hholds.pk_eq ▸ hmem)
  have hnext := hholds.add hsound hm
  have hid : (rowOf body (agg.addEncrypted incoming).2 now).aggregationId =
      aggregationId body.key := rfl
  have hrow : (rowOf body (agg.addEncrypted incoming).2 now).key = body.key := rfl
  apply h.store hid hrow (fun row hget ↦ (hkey row hget).1)
  refine ⟨sk, ms ++ [m], (agg.addEncrypted incoming).2.sumCiphertext, hsk,
    List.rel_append hms (.cons hm .nil), ciphertextFromB64_toB64 env _, ?_, ?_⟩
  · rw [List.sum_append, List.sum_singleton, ← Nat.mod_add_mod]
    exact hnext.sum
  · have hcount : (agg.addEncrypted incoming).2.nContributions = ms.length + 1 := by
      rw [hnext.counted]
      exact Nat.min_eq_left hlen
    rw [List.length_append, List.length_singleton, ← hcount]
    rfl

end Step

structure SubmitWorld where
  db : HeDb
  accepted : List Contribution

def SubmitWorld.init : SubmitWorld := ⟨.empty, []⟩

section Sequence

variable {σ : Type} (env : HeEnv) (R : RngCore σ)

def contributionOf (body : EncryptedStatsSubmission) : List Contribution :=
  match ciphertextFromB64 env body.encryptedValueB64 with
  | .ok incoming => [⟨body.key, incoming⟩]
  | .error _ => []

def nextSubmit (w : SubmitWorld) (call : SubmitCall σ) : Option SubmitWorld :=
  match submitEncryptedHandler env R call w.db with
  | (.ok _, db) => some ⟨db, w.accepted ++ contributionOf env call.body⟩
  | (.error _, db) => some ⟨db, w.accepted⟩

/-- The step condition: the row that is stored under the submission's id, if
any, is of the same cohort, metric, period and key, and its counter is below the
largest `u32`. -/
def OwnRow (w : SubmitWorld) (call : SubmitCall σ) : Prop :=
  ∀ row ∈ w.db.get (aggregationId call.body.key),
    row.key = call.body.key ∧ row.nContributions < 2 ^ 32 - 1

instance (w : SubmitWorld) (call : SubmitCall σ) : Decidable (OwnRow w call) :=
  inferInstanceAs (Decidable (∀ _ ∈ _, _))

variable {env R} {ring : KeyRing env.registry}

theorem separated_init : Separated ring SubmitWorld.init.db SubmitWorld.init.accepted where
  named id row h := by cases h
  sums id row h := by cases h
  owned id row h := by cases h
  found c hc := by cases hc

theorem computeSum_eq_ok {call : SubmitCall σ} {db : HeDb} {agg' : HeAggregator}
    (h : computeSum env R call db = .ok agg') :
    ∃ pk incoming agg, resolve env call.body = .ok (pk, incoming) ∧
      restore env R pk (db.get (aggregationId call.body.key)) call.seed = .ok agg ∧
      contribute agg incoming = .ok agg' := by
  obtain ⟨⟨pk, incoming⟩, hresolve, h⟩ := bind_eq_ok.mp h
  obtain ⟨-, h⟩ := andThen_eq_ok.mp h
  obtain ⟨agg, hagg, hadd⟩ := loadAndAdd_eq_ok h
  exact ⟨pk, incoming, agg, hresolve, hagg, hadd⟩

theorem nextSubmit_cases {w w' : SubmitWorld} {call : SubmitCall σ}
    (h : nextSubmit env R w call = some w') :
    w' = w ∨ ∃ agg, computeSum env R call w.db = .ok agg ∧
      w' = ⟨upsertHeAggregation w.db (rowOf call.body agg call.now),
        w.accepted ++ contributionOf env call.body⟩ := by
  unfold nextSubmit submitEncryptedHandler at h
  cases hsum : computeSum env R call w.db with
  | error e =>
    rw [hsum] at h
    exact .inl (Option.some.inj h).symm
  | ok agg =>
    rw [hsum] at h
    cases hfault : call.storeFault with
    | some e =>
      rw [hfault] at h
      exact .inl (Option.some.inj h).symm
    | none =>
      rw [hfault] at h
      exact .inr ⟨agg, rfl, (Option.some.inj h).symm⟩

theorem separated_nextSubmit (w : SubmitWorld) (call : SubmitCall σ) (w' : SubmitWorld)
    (hw : Separated ring w.db w.accepted) (hok : OwnRow w call)
    (h : nextSubmit env R w call = some w') : Separated ring w'.db w'.accepted := by
  rcases nextSubmit_cases h with rfl | ⟨agg', hsum, rfl⟩
  · exact hw
  · obtain ⟨pk, incoming, agg, hresolve, hagg, hadd⟩ := computeSum_eq_ok hsum
    obtain ⟨hpk, hincoming⟩ := resolve_eq_ok hresolve
    have hlog : contributionOf env call.body = [⟨call.body.key, incoming⟩] := by
      rw [contributionOf, hincoming]
    rw [hlog]
    exact hw.writeBack hpk hok hagg hadd call.now

/-- In every sequence of requests that meets the step condition, an accepted
submission is in a row of its own cohort, metric, period and key, and every row
decrypts to the sum of what was accepted for exactly these and counts it. -/
theorem aggregates_do_not_mix {calls : List (SubmitCall σ)} {w : SubmitWorld}
    (hok : Along (nextSubmit env R) OwnRow SubmitWorld.init calls)
    (h : run (nextSubmit env R) SubmitWorld.init calls = some w) :
    (∀ c ∈ w.accepted, ∃ row, w.db.get (aggregationId c.key) = some row ∧ row.key = c.key) ∧
    ∀ id row, w.db.get id = some row →
      id = aggregationId row.key ∧ Sums ring row (contributedTo row.key w.accepted) := by
  have hw : Separated ring w.db w.accepted :=
    run_invariant (I := fun w ↦ Separated ring w.db w.accepted) separated_nextSubmit
      separated_init hok h
  exact ⟨hw.found, fun id row hrow ↦ ⟨hw.named id row hrow, hw.sums id row hrow⟩⟩

end Sequence

namespace Demo

def otherKey : PaillierPrivateKey := ⟨⟨35, 1225, 36⟩, 12, 3⟩

def secret (id : String) : Option PaillierPrivateKey :=
  if id = "2_k" then some key else if id = "k" then some otherKey else none

def env : HeEnv := ⟨true, fun id ↦ (secret id).map PaillierPrivateKey.public, fun _ ↦ "refused"⟩

def ring : KeyRing env.registry where
  secret := secret
  registered id pk h := Option.map_eq_some_iff.mp h
  assembled id sk h := by
    unfold secret at h
    split_ifs at h
    · obtain rfl := Option.some.inj h
      exact ⟨3, 5, Nat.prime_three, Nat.prime_five, fromPrimes_eq_ok.mpr (by decide +kernel)⟩
    · obtain rfl := Option.some.inj h
      exact ⟨5, 7, Nat.prime_five, Nat.prime_seven, fromPrimes_eq_ok.mpr (by decide +kernel)⟩

def submit (k : AggregateKey) (c : ℕ) : SubmitCall Unit :=
  ⟨⟨k.cohortId, k.metricId, k.periodStart, k.pkId, ciphertextToB64 ⟨c⟩⟩, (), 1000, none, none,
    none⟩

/-- An aggregate of cohort `a`, and one of cohort `a_b` under another key. -/
def ofA : AggregateKey := ⟨"a", "b", 1, "2_k"⟩

def ofAB : AggregateKey := ⟨"a_b", "1", 2, "k"⟩

def opened (sk : PaillierPrivateKey) (row : HeAggregationRow) : Option ℕ :=
  (ciphertextFromB64 env row.sumCiphertextB64).toOption.bind
    (fun ct ↦ (sk.decrypt ct).bind Except.toOption)

def outcome (w : SubmitWorld) : List AggregateKey × Option (AggregateKey × ℤ × Option ℕ) :=
  (w.accepted.map Contribution.key, (w.db.get (aggregationId ofA)).map
    (fun row ↦ (row.key, row.nContributions, opened key row)))

end Demo

/-- Encryptions of `7` and `9` for the aggregate of one cohort. -/
theorem aggregates_do_not_mix_twoSubmissions :
    ∃ w, run (nextSubmit Demo.env Demo.two) SubmitWorld.init
        [Demo.submit Demo.ofA 83, Demo.submit Demo.ofA 98] = some w ∧
      Demo.outcome w = ([Demo.ofA, Demo.ofA], some (Demo.ofA, 2, some 1)) ∧
      ∀ id row, w.db.get id = some row →
        id = aggregationId row.key ∧ Sums Demo.ring row (contributedTo row.key w.accepted) := by
  have hrun : (run (nextSubmit Demo.env Demo.two) SubmitWorld.init
      [Demo.submit Demo.ofA 83, Demo.submit Demo.ofA 98]).map Demo.outcome =
      some ([Demo.ofA, Demo.ofA], some (Demo.ofA, 2, some 1)) := by
    decide +kernel
  obtain ⟨w, hw, houtcome⟩ := Option.map_eq_some_iff.mp hrun
  exact ⟨w, hw, houtcome, (aggregates_do_not_mix (by decide +kernel) hw).2⟩

/-- The ids of the two aggregates are the same string. The encryption of `5` for
the second cohort is accepted into the aggregate of the first, which then counts
two contributions and no longer decrypts to its one contribution `7`. -/
theorem foreign_contribution_aggregated :
    (run (nextSubmit Demo.env Demo.two) SubmitWorld.init [Demo.submit Demo.ofA 83]).map
      Demo.outcome = some ([Demo.ofA], some (Demo.ofA, 1, some 7)) ∧
    (run (nextSubmit Demo.env Demo.two) SubmitWorld.init
      [Demo.submit Demo.ofA 83, Demo.submit Demo.ofAB 718]).map Demo.outcome =
      some ([Demo.ofA, Demo.ofAB], some (Demo.ofA, 2, some 2)) := by
  constructor
  · decide +kernel
  · decide +kernel

end SauronId.He
