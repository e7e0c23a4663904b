import SauronId.Anchor.Rebuild
import SauronId.Batch.Determined

namespace SauronId.Zk

open SauronId.Action (Rejection actionHash)
open Anchor CryptoProtocol Lib Lib.Encoding Lib.Joined Lib.Run Lib.Text Receipt

structure CheckpointRow where
  (checkpointId tenantId circuit merkleRoot : String)
  treeSize : ℤ
  anchorId : String
  finalizedAt : ℤ

abbrev CheckpointTable := Table CheckpointRow.checkpointId

structure FinalizeProofCheckpointRequest where
  (circuit actionAnchorId : String)

structure FinalizeProofCheckpointResponse where
  (checkpointId anchorId : String)
  finalized : Bool
  statementCommitmentHex : String

def allowedCheckpointCircuits : List String :=
  ["StatsHonestComputation", "TransparentActionPolicy", "ActionRangeProof", "ActionTimeWindow",
    "ActionSetMembership", "ActionSetNonMembership", "ActionSumBound", "ActionCountInRange"]

def transparentCircuits : List String := ["StatsHonestComputation", "TransparentActionPolicy"]

def validCircuitName (circuit : String) : Bool :=
  circuit ≠ "" ∧ circuit.toList.all (fun c ↦ c.isAlphanum || c = '_' || c = '-' || c = '.')

def internalError : Failure → Rejection
  | .panicked message => ⟨500, message⟩
  | .failed message => ⟨500, message⟩

def checkpointBatch (db : Db) (anchorId tenantId : String) : Option AnchorRow :=
  (db.anchors.get anchorId).filter (fun b ↦ b.tenantId = tenantId)

def batchBitcoin (db : Db) (b : AnchorRow) : Option BitcoinRow :=
  (db.bitcoin.get b.btcAnchorId).filter (fun r ↦ r.tenantId = b.tenantId)

def checkpointRows (E : Engine) (db : Db) (tenantId : String) (b : AnchorRow) : List ReceiptRow :=
  E.receipts.select
    (fun r ↦ r.tenantId = tenantId ∧
      (b.fromCreatedAt < r.createdAt ∨
        (r.createdAt = b.fromCreatedAt ∧ b.fromReceiptId ≤ r.receiptId)) ∧
      (r.createdAt < b.toCreatedAt ∨
        (r.createdAt = b.toCreatedAt ∧ r.receiptId ≤ b.toReceiptId)))
    position db.receipts.rows

def compatible (r : ReceiptRow) : Bool :=
  r.agentId ≠ "" ∧ r.ringKeyImageHex ≠ "" ∧ r.signature ≠ "" ∧ r.ringId.getD "" = "" ∧
    r.configDigest.getD "" = ""

def checkTransparentBatch (P : Primitives) (receiptMacSecret : List UInt8) (treeSize : ℤ)
    (rows : List ReceiptRow) : Except Rejection Unit := do
  let macs ← (rows.mapM (fun r ↦ verifyReceiptSignature P receiptMacSecret (.ofRow r))).mapError
    internalError
  ensure ((rows.length : ℤ) = treeSize ∧ (rows.filter compatible).length = rows.length ∧
      (macs.filter id).length = rows.length)
    ⟨409, "transparent checkpoints require a complete, unchanged batch of ordinary action " ++
      "receipts with valid tenant-bound server MACs"⟩

def checkCircuitBatch (P : Primitives) (receiptMacSecret : List UInt8) (circuit : String)
    (treeSize : ℤ) (rows : List ReceiptRow) : Except Rejection Unit :=
  if circuit ∈ transparentCircuits then checkTransparentBatch P receiptMacSecret treeSize rows
  else .ok ()

def checkPublished (development : Bool) (b : AnchorRow) (bitcoin : Option BitcoinRow) :
    Except Rejection Unit := do
  ensure (b.anchorStatus = .submitted ∧ b.btcAnchorId ≠ "")
    ⟨409, "action batch is not fully submitted to its configured anchors"⟩
  ensure (development ∨ (bitcoin.map BitcoinRow.provider).getD "" = "opentimestamps" ∧
      (bitcoin.map BitcoinRow.otsUpgraded).getD 0 = 1)
    ⟨409, "production checkpoint requires an upgraded OpenTimestamps proof committed in Bitcoin"⟩

def checkRootHex (rootHex : String) : Except Rejection Unit := do
  let decodedRoot ← (hexDecode rootHex).elim
    (.error ⟨500, "stored anchor root is not hex"⟩) .ok
  ensure (decodedRoot.length = 32) ⟨500, "stored anchor root is not 32 bytes"⟩

def insertCheckpoint (t : CheckpointTable) (row : CheckpointRow) :
    Except Rejection CheckpointTable := do
  let inserted ← (t.insert row).elim
    (.error ⟨500, "UNIQUE constraint failed: zk_proof_checkpoints.checkpoint_id"⟩) .ok
  ensure (∀ r ∈ t.rows,
      ¬ (r.tenantId = row.tenantId ∧ r.circuit = row.circuit ∧ r.anchorId = row.anchorId))
    ⟨500, "UNIQUE constraint failed: zk_proof_checkpoints.tenant_id, " ++
      "zk_proof_checkpoints.circuit, zk_proof_checkpoints.anchor_id"⟩
  return inserted

structure CheckpointHost where
  development : Bool
  receiptMacSecret : List UInt8
  db : Db

def finalizeProofCheckpoint (P : Primitives) (E : Engine) (H : CheckpointHost)
    (checkpoints : CheckpointTable) (tenantId : String) (body : FinalizeProofCheckpointRequest)
    (random : String) (now : ℤ) :
    Except Rejection (FinalizeProofCheckpointResponse × CheckpointTable) := do
  ensure (validCircuitName body.circuit) ⟨400, "invalid circuit name"⟩
  ensure (body.circuit ∈ allowedCheckpointCircuits) ⟨400, "unsupported checkpoint circuit"⟩
  ensure (trim body.actionAnchorId ≠ "") ⟨400, "action_anchor_id is required"⟩
  let b ← (checkpointBatch H.db body.actionAnchorId tenantId).elim
    (.error ⟨404, "tenant action anchor not found"⟩) .ok
  ensure (0 < b.nActions ∧ b.nActions ≤ 10000) ⟨400, "action anchor has invalid tree size"⟩
  ensure (2 ≤ b.leafVersion)
    ⟨400, "legacy partial receipt leaves cannot back a production proof checkpoint"⟩
  checkCircuitBatch P H.receiptMacSecret body.circuit b.nActions (checkpointRows E H.db tenantId b)
  checkPublished H.development b (batchBitcoin H.db b)
  checkRootHex b.batchRootHex
  let statement ← (canonicalFields "sauron.zk-checkpoint.v2"
    [("tenant_id", tenantId), ("circuit", body.circuit),
      ("action_anchor_id", body.actionAnchorId), ("merkle_root", b.batchRootHex),
      ("tree_size", toString b.nActions)]).mapError internalError
  let checkpointId := "zkc_" ++ random
  let checkpoints ← insertCheckpoint checkpoints
    ⟨checkpointId, tenantId, body.circuit, b.batchRootHex, b.nActions, body.actionAnchorId, now⟩
  return (⟨checkpointId, body.actionAnchorId, true, hexEncode (P.sha256 statement)⟩, checkpoints)

/-! ### What an accepted checkpoint freezes -/

variable {P : Primitives} {E : Engine} {T : Texts} {w w' : World}

theorem mem_of_insertCheckpoint {t u : CheckpointTable} {row : CheckpointRow}
    (h : insertCheckpoint t row = .ok u) : row ∈ u.rows := by
  obtain ⟨inserted, hi, h₁⟩ := bind_eq_ok.mp h
  obtain ⟨-, h₂⟩ := andThen_eq_ok.mp h₁
  obtain rfl := Except.ok.inj h₂
  rw [(Table.insert_eq_some.mp (elim_eq_ok.mp hi)).2]
  exact List.mem_append_right _ (List.mem_singleton_self row)

structure Freezes (c : CheckpointRow) (b : AnchorRow) : Prop where
  anchorId : c.anchorId = b.anchorId
  merkleRoot : c.merkleRoot = b.batchRootHex
  treeSize : c.treeSize = b.nActions
  rootHex : checkRootHex c.merkleRoot = .ok ()

variable {tenantId random : String}

theorem freezes_of_finalize {H : CheckpointHost} {checkpoints checkpoints' : CheckpointTable}
    {body : FinalizeProofCheckpointRequest} {now : ℤ}
    {response : FinalizeProofCheckpointResponse}
    (h : finalizeProofCheckpoint P E H checkpoints tenantId body random now =
      .ok (response, checkpoints')) :
    ∃ b ∈ H.db.anchors.rows, ∃ c ∈ checkpoints'.rows,
      c.checkpointId = response.checkpointId ∧ Freezes c b := by
  obtain ⟨-, h₁⟩ := andThen_eq_ok.mp h
  obtain ⟨-, h₂⟩ := andThen_eq_ok.mp h₁
  obtain ⟨-, h₃⟩ := andThen_eq_ok.mp h₂
  obtain ⟨b, hb, h₄⟩ := bind_eq_ok.mp h₃
  obtain ⟨-, h₅⟩ := andThen_eq_ok.mp h₄
  obtain ⟨-, h₆⟩ := andThen_eq_ok.mp h₅
  obtain ⟨-, h₇⟩ := andThen_eq_ok.mp h₆
  obtain ⟨-, h₈⟩ := andThen_eq_ok.mp h₇
  obtain ⟨hroot, h₉⟩ := andThen_eq_ok.mp h₈
  obtain ⟨statement, -, h₁₀⟩ := bind_eq_ok.mp h₉
  obtain ⟨inserted, hinsert, h₁₁⟩ := bind_eq_ok.mp h₁₀
  obtain ⟨rfl, rfl⟩ := Prod.mk.inj (Except.ok.inj h₁₁)
  obtain ⟨hget, -⟩ := Option.filter_eq_some_iff.mp (elim_eq_ok.mp hb)
  obtain ⟨hmem, hid⟩ := Table.get_eq_some.mp hget
  exact ⟨b, hmem, _, mem_of_insertCheckpoint hinsert, rfl, hid.symm, rfl, rfl, hroot⟩

/-! ### The batches -/

variable {M : MerkleScheme (List UInt8)}

theorem nActions_of_sealBatch {db : Db} {now : ℤ} {b : AnchorRow}
    (h : sealBatch M P E db tenantId random now = .ok (some b)) :
    b.nActions = (pendingRows E db tenantId).length := by
  unfold sealBatch at h
  cases hp : pendingRows E db tenantId with
  | nil =>
    rw [hp] at h
    cases h
  | cons r rows =>
    rw [hp] at h
    obtain ⟨leaves, -, h₁⟩ := bind_eq_ok.mp h
    split at h₁
    · cases h₁
    · obtain rfl := Option.some.inj (Except.ok.inj h₁)
      simp [newBatchRow]

def Counted (w : World) : Prop :=
  ∀ b ∈ w.db.anchors.rows, b.nActions = (w.leaves b.anchorId).length

theorem counted_of_step {e : Event} (h : Step M P E w e w') (hw : Counted w) : Counted w' := by
  cases h with
  | insertReceipt ht => exact hw
  | insertAudit ht => exact hw
  | sealed hb ht =>
    obtain ⟨hfresh, hrows⟩ := Table.insert_eq_some.mp ht
    intro c hc
    simp only [hrows, List.mem_append, List.mem_singleton] at hc
    rcases hc with hc | rfl
    · simp only [Function.update_of_ne (hfresh c hc)]
      exact hw c hc
    · simp only [Function.update_self]
      exact nActions_of_sealBatch hb
  | idle => exact hw
  | settled hb hid hp =>
    intro c hc
    obtain ⟨b, hb, hbody, -⟩ := body_of_mem_settleBatch hc
    have hn : c.body.nActions = b.body.nActions := by rw [hbody]
    simp only [(AnchorRow.eq_of_body_eq hbody).1]
    exact hn.trans (hw b hb)

theorem counted_of_run {es : List Event} (h : run (next M P E) .init es = some w) : Counted w :=
  run_invariant (fun _ _ _ hw _ hs ↦ counted_of_step (step_of_next hs) hw)
    (fun b hb ↦ by cases hb) (along_true _ es) h

theorem leafHashV2_eq_ok {r : AnchoredReceipt} {leaf : List UInt8} :
    leafHashV2 P r = .ok leaf ↔ receiptLeaf P T r = .ok leaf := by
  rw [receiptLeaf_eq_ok]
  have hv2 : leafHashV2 P r = (leafPayload r >>= fun payload ↦ pure (P.sha256 payload)) := rfl
  simp only [hv2, bind_eq_ok, pure, Except.pure, Except.ok.injEq]

variable {receipts : List AnchoredReceipt} {leaves : List (List UInt8)}

theorem mapM_leafHashV2 :
    receipts.mapM (leafHashV2 P) = .ok leaves ↔ receipts.mapM (receiptLeaf P T) = .ok leaves := by
  simp only [mapM_eq_ok, leafHashV2_eq_ok (T := T)]

def auditPayload (tenantId : String) (head : ℤ × String) : Except Failure (List UInt8) :=
  canonicalFields "sauron.audit-head-leaf.v1"
    [("tenant_id", tenantId), ("audit_seq", toString head.1), ("audit_entry_hash", head.2)]

def sealedPayloads (b : AnchorRow) (receipts : List AnchoredReceipt) : List (List UInt8) :=
  leafPayloads receipts ++
    b.auditHead.toList.filterMap (fun head ↦ (auditPayload b.tenantId head).toOption)

theorem length_auditPayload {tenantId : String} {head : ℤ × String} {payload : List UInt8}
    (h : auditPayload tenantId head = .ok payload) : 64 < payload.length := by
  refine lt_of_lt_of_le ?_ (le_length_canonicalFields h)
  simp only [List.map_cons, List.sum_cons]
  decide

theorem sealed_root {b : AnchorRow} {rows : List ReceiptRow} (T : Texts)
    (h : SealedOver (shaTree P) P b rows) :
    (rows.map receiptFromRow).mapM (receiptLeaf P T) =
        .ok ((leafPayloads (rows.map receiptFromRow)).map P.sha256) ∧
      (∀ p ∈ sealedPayloads b (rows.map receiptFromRow), 64 < p.length) ∧
      (sealedPayloads b (rows.map receiptFromRow)).length =
        (leafPayloads (rows.map receiptFromRow)).length + b.auditHead.toList.length ∧
      ∃ root, (shaTree P).root ((sealedPayloads b (rows.map receiptFromRow)).map P.sha256) =
        some root ∧ b.batchRootHex = hexEncode root := by
  obtain ⟨leaves, root, hleaves, hroot, hhex⟩ := h.root
  obtain ⟨own, hown, h₁⟩ := bind_eq_ok.mp hleaves
  have hmap := (mapM_leafHashV2 (T := T)).mp hown
  obtain ⟨-, rfl⟩ := mapM_receiptLeaf hmap
  refine ⟨hmap, ?_⟩
  cases hhead : b.auditHead with
  | none =>
    rw [hhead] at h₁
    obtain rfl := Except.ok.inj h₁
    have hsealed : sealedPayloads b (rows.map receiptFromRow) =
        leafPayloads (rows.map receiptFromRow) := by
      simp [sealedPayloads, hhead]
    rw [hsealed]
    exact ⟨fun p hp ↦ length_of_mem_leafPayloads hp, rfl, root, hroot, hhex⟩
  | some head =>
    rw [hhead] at h₁
    obtain ⟨leaf, hleaf, h₂⟩ := bind_eq_ok.mp h₁
    obtain rfl := Except.ok.inj h₂
    obtain ⟨payload, hpayload, hsha⟩ := bind_eq_ok.mp hleaf
    obtain rfl := Except.ok.inj hsha
    have hsealed : sealedPayloads b (rows.map receiptFromRow) =
        leafPayloads (rows.map receiptFromRow) ++ [payload] := by
      have hp : auditPayload b.tenantId head = .ok payload := hpayload
      simp [sealedPayloads, hhead, hp, Except.toOption]
    rw [hsealed, List.map_append]
    refine ⟨fun p hp ↦ ?_, by simp, root, hroot, hhex⟩
    rcases List.mem_append.mp hp with hp | hp
    · exact length_of_mem_leafPayloads hp
    · rw [List.mem_singleton.mp hp]
      exact length_auditPayload hpayload

theorem recomputed_eq_ok {rootHex : String} {treeSize : ℕ}
    (hleaves : receipts.mapM (receiptLeaf P T) = .ok leaves) :
    recomputed P T receipts = .ok (rootHex, treeSize) ↔
      (∃ root, (shaTree P).root leaves = some root ∧ hexEncode root = rootHex) ∧
        receipts.length = treeSize := by
  simp only [recomputed, hleaves, bind_eq_ok, Except.ok.injEq, exists_eq_left', merkleRoot_eq_ok,
    pure, Except.pure, Prod.mk.injEq]
  constructor
  · rintro ⟨root, hroot, hhex, hsize⟩
    exact ⟨⟨root, hroot, hhex⟩, hsize⟩
  · rintro ⟨⟨root, hroot, hhex⟩, hsize⟩
    exact ⟨root, hroot, hhex, hsize⟩

/-! ### The root in the input of a guest -/

theorem trimStart0x_eq_self {l : List Char} (h : 'x' ∉ l) : trimStart0x l = l := by
  unfold trimStart0x
  split
  · simp at h
  · rfl

theorem expectedRoot_of_hex {input : ProofInput} {root : List UInt8} (hlen : root.length = 32)
    (h : input.expectedMerkleRoot = hexEncode root) :
    expectedRoot input = .ok (hexEncode root) := by
  have hdigit : ∀ d < 16, isWhitespace (Nat.digitChar d) = false ∧ Nat.digitChar d ≠ 'x' ∧
      (Nat.digitChar d).toLower = Nat.digitChar d ∧ (Nat.digitChar d).utf8Size = 1 := by decide
  have hchar : ∀ c ∈ (hexEncode root).toList, isWhitespace c = false ∧ c ≠ 'x' ∧
      c.toLower = c ∧ c.utf8Size = 1 := by
    intro c hc
    obtain ⟨d, hd, rfl⟩ := mem_hexEncode hc
    exact hdigit d hd
  have hlower : toAsciiLowercase (hexEncode root) = hexEncode root := by
    have hmap : (hexEncode root).toList.map Char.toLower = (hexEncode root).toList.map id :=
      List.map_congr_left (fun c hc ↦ (hchar c hc).2.2.1)
    rw [toAsciiLowercase, hmap, List.map_id, String.ofList_toList]
  have hlength : len (hexEncode root) = 64 := by
    rw [len_eq_length (fun c hc ↦ (hchar c hc).2.2.2), hexEncode, String.toList_ofList,
      List.length_flatMap]
    simp [hexPair, hlen]
  have hx : 'x' ∉ (hexEncode root).toList := fun hc ↦ (hchar _ hc).2.1 rfl
  unfold expectedRoot
  rw [h, trim_eq_self (fun c hc ↦ (hchar c hc).1), trimStart0x_eq_self hx, String.ofList_toList,
    hlower, andThen_eq_ok]
  exact ⟨ensure_eq_ok.mpr hlength, rfl⟩

/-- A guest recomputes the root and the size of a checkpoint from these receipts. -/
def Recomputes (P : Primitives) (T : Texts) (receipts : List AnchoredReceipt)
    (c : CheckpointRow) : Prop :=
  recomputed P T receipts = .ok (c.merkleRoot, receipts.length) ∧
    (receipts.length : ℤ) = c.treeSize

/-- A guest that is given these receipts, with envelopes that pass, and the root
of the checkpoint accepts the root. -/
def Accepts (P : Primitives) (T : Texts) (receipts : List AnchoredReceipt)
    (c : CheckpointRow) : Prop :=
  ∀ (input : ProofInput) (checkPeriod : AnchoredReceipt → Except String Unit),
    input.records.map (·.receipt) = receipts →
    (∀ r ∈ input.records, checkRecord P T input checkPeriod r = .ok ()) →
    input.expectedMerkleRoot = c.merkleRoot →
    provenRoot P T input checkPeriod = .ok c.merkleRoot

theorem Recomputes.accepts {c : CheckpointRow} (h : Recomputes P T receipts c)
    (hroot : checkRootHex c.merkleRoot = .ok ()) :
    Accepts P T receipts c := by
  intro input checkPeriod hreceipts hcheck hexpected
  obtain ⟨leaves, hleaves, h₁⟩ := bind_eq_ok.mp h.1
  obtain ⟨root, hmerkle, h₂⟩ := bind_eq_ok.mp h₁
  obtain ⟨hhex, -⟩ := Prod.mk.inj (Except.ok.inj h₂)
  obtain ⟨decoded, hdecoded, hlen⟩ := bind_eq_ok.mp hroot
  rw [elim_eq_ok, ← hhex, hexDecode_hexEncode] at hdecoded
  obtain rfl := Option.some.inj hdecoded
  rw [← hhex] at hexpected ⊢
  refine bind_eq_ok.mpr ⟨_, expectedRoot_of_hex (ensure_eq_ok.mp hlen) hexpected, ?_⟩
  refine bind_eq_ok.mpr ⟨leaves, mapM_recordLeaf.mpr ⟨hcheck, hreceipts ▸ hleaves⟩, ?_⟩
  refine bind_eq_ok.mpr ⟨root, hmerkle, ?_⟩
  exact andThen_eq_ok.mpr ⟨ensure_eq_ok.mpr rfl, rfl⟩

/-- An accepted checkpoint is recomputed and accepted by the guest of its circuit
when its batch was sealed without an audit head. With one it is not, unless two of
the hashed texts collide. -/
theorem checkpoint_provable_iff {es : List Event} {H : CheckpointHost}
    {bitcoin : Table BitcoinRow.anchorId} {checkpoints checkpoints' : CheckpointTable}
    {tenantId random : String} {body : FinalizeProofCheckpointRequest} {now : ℤ}
    {response : FinalizeProofCheckpointResponse} (T : Texts)
    (hrun : run (next (shaTree P) P E) .init es = some w)
    (hdb : H.db = { w.db with bitcoin := bitcoin })
    (hfin : finalizeProofCheckpoint P E H checkpoints tenantId body random now =
      .ok (response, checkpoints')) :
    ∃ b ∈ w.db.anchors.rows, ∃ c ∈ checkpoints'.rows, c.checkpointId = response.checkpointId ∧
      c.anchorId = b.anchorId ∧
      let receipts := (w.leaves b.anchorId).map receiptFromRow
      (b.auditHead = none → Recomputes P T receipts c ∧ Accepts P T receipts c) ∧
      ((∀ p, (P.sha256 p).length = 32) →
        Set.InjOn P.sha256 {p | p ∈ HashTree.hashed P.sha256 (· ++ ·) (leafPayloads receipts) ∨
          p ∈ HashTree.hashed P.sha256 (· ++ ·) (sealedPayloads b receipts)} →
        (Recomputes P T receipts c ↔ b.auditHead = none)) := by
  obtain ⟨b, hb, c, hc, hid, hfreezes⟩ := freezes_of_finalize hfin
  replace hb : b ∈ w.db.anchors.rows := by rwa [hdb] at hb
  obtain ⟨hleaves, hlong, hlength, root, hroot, hhex⟩ :=
    sealed_root T (committed_of_run hrun b hb).1
  have hrecomputes : b.auditHead = none →
      Recomputes P T ((w.leaves b.anchorId).map receiptFromRow) c := by
    intro hhead
    have hsealed : sealedPayloads b ((w.leaves b.anchorId).map receiptFromRow) =
        leafPayloads ((w.leaves b.anchorId).map receiptFromRow) := by
      simp [sealedPayloads, hhead]
    rw [hsealed] at hroot
    refine ⟨(recomputed_eq_ok hleaves).mpr ⟨⟨root, hroot, ?_⟩, rfl⟩, ?_⟩
    · rw [hfreezes.merkleRoot, hhex]
    · rw [hfreezes.treeSize, counted_of_run hrun b hb, List.length_map]
  refine ⟨b, hb, c, hc, hid, hfreezes.anchorId, fun hhead ↦ ?_, fun hlen hinj ↦ ?_⟩
  · exact ⟨hrecomputes hhead, (hrecomputes hhead).accepts hfreezes.rootHex⟩
  · refine ⟨fun hre ↦ ?_, hrecomputes⟩
    obtain ⟨⟨root', hroot', hhex'⟩, -⟩ := (recomputed_eq_ok hleaves).mp hre.1
    rw [hfreezes.merkleRoot, hhex] at hhex'
    obtain rfl := hexEncode_injective hhex'
    have heq := HashTree.leaves_eq_of_root_eq (append_digests_inj hlen)
      (fun p hp ↦ ne_append_digests hlen (length_of_mem_leafPayloads hp))
      (fun p hp ↦ ne_append_digests hlen (hlong p hp)) hinj hroot' hroot
    rw [← heq] at hlength
    exact Option.toList_eq_nil_iff.mp (List.eq_nil_of_length_eq_zero (by omega))

/-! ### A batch with and without an audit head -/

def unsignedPayment : ReceiptRow :=
  { acmeReceipt "r1" 5 with actionHash := actionHash measuringPrimitives (demoEnvelope "n1") }

def payment : ReceiptRow :=
  { unsignedPayment with
    signature := ((signReceipt measuringPrimitives [] (.ofRow unsignedPayment)).toOption).getD "" }

def plainBatch : List Event := .insertReceipt payment :: anchorCall "one" 9

def auditedBatch : List Event := .insertAudit ⟨"a1", some 1, "head"⟩ :: plainBatch

def measuringNext : World → Event → Option World :=
  next (shaTree measuringPrimitives) measuringPrimitives .stored

def finalizeStats (w : World) :
    Except Rejection (FinalizeProofCheckpointResponse × CheckpointTable) :=
  finalizeProofCheckpoint measuringPrimitives .stored ⟨true, [], w.db⟩ .empty "acme"
    ⟨"StatsHonestComputation", "aaa_one"⟩ "c1" 10

theorem checkpoint_provable_iff_plainBatch :
    ∃ w response checkpoints, run measuringNext .init plainBatch = some w ∧
      finalizeStats w = .ok (response, checkpoints) ∧ ∃ c ∈ checkpoints.rows,
        Recomputes measuringPrimitives statsTexts ((w.leaves c.anchorId).map receiptFromRow) c := by
  obtain ⟨w, hw, hsome, hheads⟩ : ∃ w, run measuringNext .init plainBatch = some w ∧
      (finalizeStats w).toOption.isSome ∧ ∀ b ∈ w.db.anchors.rows, b.auditHead = none := by
    decide +kernel
  cases hfin : finalizeStats w with
  | error e =>
    rw [hfin] at hsome
    cases hsome
  | ok accepted =>
    have hdb : (CheckpointHost.mk true [] w.db).db = { w.db with bitcoin := w.db.bitcoin } := rfl
    obtain ⟨b, hb, c, hc, -, hid, hplain, -⟩ := checkpoint_provable_iff statsTexts hw hdb hfin
    refine ⟨w, _, _, hw, hfin, c, hc, ?_⟩
    rw [hid]
    exact (hplain (hheads b hb)).1

def paymentInput (checkpoint : CheckpointRow) : StatsProofInput where
  tenantId := "acme"
  checkpointId := checkpoint.checkpointId
  actionAnchorId := checkpoint.anchorId
  expectedMerkleRoot := checkpoint.merkleRoot
  agentIdOrNone := none
  records := [⟨demoEnvelope "n1", receiptFromRow payment⟩]
  metricId := "cost_total"
  periodStart := 0
  periodEnd := 10

/-- The batch was sealed with the head of the audit chain as its last leaf. The
checkpoint is accepted, and the guest that is given its receipts stops. -/
theorem audited_checkpoint_refused :
    ∃ w response checkpoints, run measuringNext .init auditedBatch = some w ∧
      finalizeStats w = .ok (response, checkpoints) ∧
      ∀ c ∈ checkpoints.rows, c.treeSize = 1 ∧
        (paymentInput c).records.map (·.receipt) = (w.leaves c.anchorId).map receiptFromRow ∧
        statsMain measuringPrimitives (paymentInput c) =
          .error "complete batch Merkle root mismatch" := by
  obtain ⟨w, hw, ⟨response, checkpoints⟩, hfin, h⟩ :
      ∃ w, run measuringNext .init auditedBatch = some w ∧
      ∃ accepted, (finalizeStats w).toOption = some accepted ∧
        ∀ c ∈ accepted.2.rows, c.treeSize = 1 ∧
          (paymentInput c).records.map (·.receipt) = (w.leaves c.anchorId).map receiptFromRow ∧
          statsMain measuringPrimitives (paymentInput c) =
            .error "complete batch Merkle root mismatch" := by
    decide +kernel
  cases hf : finalizeStats w with
  | error e =>
    rw [hf] at hfin
    cases hfin
  | ok accepted =>
    rw [hf] at hfin
    obtain rfl := Option.some.inj hfin
    exact ⟨w, response, checkpoints, hw, hf, h⟩

end SauronId.Zk
