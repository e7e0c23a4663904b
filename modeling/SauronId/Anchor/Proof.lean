import SauronId.Anchor.Batch

namespace SauronId.Anchor

open CryptoProtocol Lib Lib.Encoding Receipt

structure SolanaSurface where
  confirmed : Bool
  slot : Option ℤ
  sig : Option String
  deriving DecidableEq

/-- The reported `block_height` is always null. -/
structure BitcoinSurface where
  provider : String
  otsUpgraded : Bool
  deriving DecidableEq

structure ReceiptProof where
  (anchorId batchRootHex : String)
  leafIndex : ℕ
  leafHex : String
  proofHashesHex : List String
  treeSize : ℕ
  leafVersion : ℤ
  (btcAnchorId solAnchorId : String)
  solana : SolanaSurface
  bitcoin : BitcoinSurface
  anchored : Bool
  deriving DecidableEq

def inScope (tenantId column : String) : Bool := tenantId = "*" ∨ column = tenantId

def receiptCreatedAt (db : Db) (receiptId tenantId : String) : Option ℤ :=
  ((db.receipts.get receiptId).filter (fun r ↦ inScope tenantId r.tenantId)).map
    ReceiptRow.createdAt

def coveringBatch (E : Engine) (db : Db) (createdAt : ℤ) (tenantId : String) : Option AnchorRow :=
  E.anchors.first
    (fun b ↦ b.fromCreatedAt ≤ createdAt ∧ createdAt ≤ b.toCreatedAt ∧ inScope tenantId b.tenantId)
    AnchorRow.createdAt db.anchors.rows

def solanaSurface (db : Db) (tenantId solAnchorId : String) : SolanaSurface :=
  if solAnchorId = "" then ⟨false, none, none⟩
  else
    match (db.solana.get solAnchorId).filter (fun r ↦ inScope tenantId r.tenantId) with
    | some r => ⟨r.confirmed = 1, some r.slot, some r.signature⟩
    | none => ⟨false, none, none⟩

def bitcoinSurface (db : Db) (tenantId btcAnchorId : String) : BitcoinSurface :=
  if btcAnchorId = "" then ⟨"opentimestamps", false⟩
  else
    match (db.bitcoin.get btcAnchorId).filter (fun r ↦ inScope tenantId r.tenantId) with
    | some r => ⟨r.provider, r.otsUpgraded = 1⟩
    | none => ⟨"opentimestamps", false⟩

def rangeRows (E : Engine) (db : Db) (tenantId : String) (b : AnchorRow) : List ReceiptRow :=
  E.receipts.select
    (fun r ↦ inScope tenantId r.tenantId ∧
      (b.fromCreatedAt < r.createdAt ∨
        (r.createdAt = b.fromCreatedAt ∧ b.fromReceiptId ≤ r.receiptId)) ∧
      (r.createdAt < b.toCreatedAt ∨
        (r.createdAt = b.toCreatedAt ∧ r.receiptId ≤ b.toReceiptId)))
    position db.receipts.rows

def leafHash (P : Primitives) (leafVersion : ℤ) (r : AnchoredReceipt) :
    Except Failure (List UInt8) :=
  if 2 ≤ leafVersion then leafHashV2 P r
  else .ok (leafHashV1 P r.receiptId r.actionHash r.createdAt)

def proofInBatch (M : MerkleScheme (List UInt8)) (P : Primitives) (E : Engine) (db : Db)
    (receiptId tenantId : String) (b : AnchorRow) : Except Failure (Option ReceiptProof) := do
  let receipts := (rangeRows E db tenantId b).map receiptFromRow
  let leaves ← receipts.mapM (leafHash P b.leafVersion)
  match receipts.findIdx? (fun r ↦ r.receiptId = receiptId) with
  | none => .error (.failed "receipt not in batch (DB drift?)")
  | some i =>
    let solana := solanaSurface db tenantId b.solAnchorId
    let bitcoin := bitcoinSurface db tenantId b.btcAnchorId
    return some
      { anchorId := b.anchorId
        batchRootHex := b.batchRootHex
        leafIndex := i
        leafHex := hexEncode (leaves.getD i [])
        proofHashesHex := (M.proof leaves i).map hexEncode
        treeSize := leaves.length
        leafVersion := b.leafVersion
        btcAnchorId := b.btcAnchorId
        solAnchorId := b.solAnchorId
        solana := solana
        bitcoin := bitcoin
        anchored :=
          if b.btcAnchorId = "" then solana.confirmed
          else solana.confirmed && bitcoin.otsUpgraded }

def proofForReceiptForTenant (M : MerkleScheme (List UInt8)) (P : Primitives) (E : Engine) (db : Db)
    (receiptId tenantId : String) : Except Failure (Option ReceiptProof) :=
  match receiptCreatedAt db receiptId tenantId with
  | none => .ok none
  | some createdAt =>
    match coveringBatch E db createdAt tenantId with
    | none => .ok none
    | some b => proofInBatch M P E db receiptId tenantId b

def proofForReceipt (M : MerkleScheme (List UInt8)) (P : Primitives) (E : Engine) (db : Db)
    (receiptId : String) : Except Failure (Option ReceiptProof) :=
  proofForReceiptForTenant M P E db receiptId "*"

def ReceiptProof.foldedRootHex (M : MerkleScheme (List UInt8)) (p : ReceiptProof) :
    Option String := do
  let leaf ← hexDecode p.leafHex
  let hashes ← p.proofHashesHex.mapM hexDecode
  let root ← M.fold leaf p.leafIndex p.treeSize hashes
  return hexEncode root

variable {M : MerkleScheme (List UInt8)} {P : Primitives} {E : Engine} {db : Db}
  {receiptId tenantId : String} {b : AnchorRow} {p : ReceiptProof} {r : ReceiptRow}

@[simp] theorem inScope_iff {column : String} (h : tenantId ≠ "*") :
    inScope tenantId column = true ↔ column = tenantId := by
  simp [inScope, h]

theorem mem_rangeRows (h : tenantId ≠ "*") :
    r ∈ rangeRows E db tenantId b ↔
      r ∈ db.receipts.rows ∧ r.tenantId = tenantId ∧ b.first ≤ position r ∧ position r ≤ b.last := by
  rw [rangeRows, Scan.mem_select, decide_eq_true_eq, inScope_iff h, AnchorRow.first, AnchorRow.last,
    position, Prod.Lex.toLex_le_toLex, Prod.Lex.toLex_le_toLex, @eq_comm _ r.createdAt]

theorem rangeRows_sorted :
    (rangeRows E db tenantId b).Pairwise (fun r s ↦ position r < position s) :=
  Scan.select_pairwise_lt db.receipts.rows_nodup (position_inj db.receipts)

theorem mapM_hexDecode (hashes : List (List UInt8)) :
    (hashes.map hexEncode).mapM hexDecode = some hashes := by
  induction hashes with
  | nil => rfl
  | cons h hashes ih => simp [ih]

/-- What a returned proof is worth: it folds to the root of the tree over the
receipts now in the range of the chosen batch. -/
theorem proofInBatch_eq_some (h : proofInBatch M P E db receiptId tenantId b = .ok (some p)) :
    p.anchorId = b.anchorId ∧ p.batchRootHex = b.batchRootHex ∧
      (∃ r ∈ rangeRows E db tenantId b, r.receiptId = receiptId) ∧
      ∃ leaves,
        ((rangeRows E db tenantId b).map receiptFromRow).mapM (leafHash P b.leafVersion) = .ok leaves ∧
        p.foldedRootHex M = (M.root leaves).map hexEncode := by
  obtain ⟨leaves, hl, h⟩ := bind_eq_ok.mp h
  split at h
  · cases h
  · rename_i i hi
    obtain rfl := Option.some.inj (Except.ok.inj h)
    obtain ⟨hlt, hid, -⟩ := List.findIdx?_eq_some_iff_getElem.mp hi
    refine ⟨rfl, rfl, ?_, leaves, hl, ?_⟩
    · obtain ⟨r, hr, he⟩ := List.mem_map.mp (List.getElem_mem hlt)
      rw [← he] at hid
      exact ⟨r, hr, of_decide_eq_true hid⟩
    · have hlen : i < leaves.length := (mapM_eq_ok.mp hl).length_eq ▸ hlt
      have hleaf : leaves[i]? = some (leaves.getD i []) := by
        rw [List.getD_eq_getElem _ _ hlen, List.getElem?_eq_getElem hlen]
      simp only [ReceiptProof.foldedRootHex, hexDecode_hexEncode, mapM_hexDecode,
        Option.bind_eq_bind, Option.bind_some, Option.pure_def, M.fold_proof leaves i _ hleaf]
      cases M.root leaves <;> rfl

theorem proofForReceiptForTenant_eq_some
    (h : proofForReceiptForTenant M P E db receiptId tenantId = .ok (some p)) :
    ∃ createdAt b, receiptCreatedAt db receiptId tenantId = some createdAt ∧
      coveringBatch E db createdAt tenantId = some b ∧
      proofInBatch M P E db receiptId tenantId b = .ok (some p) := by
  unfold proofForReceiptForTenant at h
  split at h
  · cases h
  · rename_i createdAt hc
    split at h
    · cases h
    · rename_i b hb
      exact ⟨createdAt, b, hc, hb, h⟩

end SauronId.Anchor
