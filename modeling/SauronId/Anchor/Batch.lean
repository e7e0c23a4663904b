import SauronId.Anchor.Store

namespace SauronId.Anchor

open CryptoProtocol Lib Lib.Encoding Receipt

def maxReceiptsPerBatch : ℕ := 10000

def watermark (E : Engine) (db : Db) (tenantId : String) : ℤ × String :=
  ((E.anchors.last (fun b ↦ b.tenantId = tenantId ∧ b.anchorStatus = .submitted)
    AnchorRow.toCreatedAt db.anchors.rows).map (fun b ↦ (b.toCreatedAt, b.toReceiptId))).getD (0, "")

def afterWatermark (tenantId : String) (w : ℤ × String) (r : ReceiptRow) : Bool :=
  r.tenantId = tenantId ∧ (w.1 < r.createdAt ∨ (r.createdAt = w.1 ∧ w.2 < r.receiptId))

def pendingRows (E : Engine) (db : Db) (tenantId : String) : List ReceiptRow :=
  (E.receipts.select (afterWatermark tenantId (watermark E db tenantId)) position
    db.receipts.rows).take maxReceiptsPerBatch

def batchLeaves (P : Primitives) (tenantId : String) (receipts : List AnchoredReceipt)
    (auditHead : Option (ℤ × String)) : Except Failure (List (List UInt8)) := do
  let leaves ← receipts.mapM (leafHashV2 P)
  match auditHead with
  | none => return leaves
  | some (seq, entryHash) =>
    let leaf ← auditHeadLeaf P tenantId seq entryHash
    return leaves ++ [leaf]

def newBatchRow (tenantId random : String) (now : ℤ) (root : List UInt8)
    (auditHead : Option (ℤ × String)) (nActions : ℕ) (first last : AnchoredReceipt) :
    AnchorRow where
  anchorId := "aaa_" ++ random
  batchRootHex := hexEncode root
  nActions := nActions
  fromReceiptId := first.receiptId
  toReceiptId := last.receiptId
  fromCreatedAt := first.createdAt
  toCreatedAt := last.createdAt
  btcAnchorId := ""
  solAnchorId := ""
  anchorStatus := .pending
  anchorError := ""
  leafVersion := 2
  createdAt := now
  auditHeadSeq := (auditHead.map Prod.fst).getD 0
  auditHeadHash := (auditHead.map Prod.snd).getD ""
  tenantId := tenantId

/-- Steps 1 to 3 of `anchor_pending_actions_for_tenant`: the row of the next
batch, or `none` when nothing is pending. -/
def sealBatch (M : MerkleScheme (List UInt8)) (P : Primitives) (E : Engine) (db : Db)
    (tenantId random : String) (now : ℤ) : Except Failure (Option AnchorRow) :=
  match (pendingRows E db tenantId).map receiptFromRow with
  | [] => .ok none
  | first :: rest => do
    let receipts := first :: rest
    let auditHead := auditChainHead E.auditLog db.auditLog
    let leaves ← batchLeaves P tenantId receipts auditHead
    match M.root leaves with
    | none => .error (.failed "empty merkle tree (unreachable)")
    | some root =>
      let last := receipts.getLast (List.cons_ne_nil first rest)
      return some (newBatchRow tenantId random now root auditHead receipts.length first last)

def persistBatch (db : Db) (b : AnchorRow) : Except Failure Db :=
  match db.anchors.insert b with
  | some anchors => .ok { db with anchors := anchors }
  | none => .error (.failed ("DB insert agent_action_anchors: " ++
      "UNIQUE constraint failed: agent_action_anchors.anchor_id"))

/-- What a provider's task reports: the row it stored, its error, or the error of
joining the task. -/
inductive Publication (ρ : Type)
  | published (row : ρ)
  | refused (error : String)
  | notJoined (error : String)

/-- The outcome of step 5 for each provider, `none` for one that is not configured. -/
structure Publications where
  bitcoin : Option (Publication BitcoinRow)
  solana : Option (Publication SolanaRow)

structure Outcome {ρ : Type} (key : ρ → String) where
  table : Table key
  id : String
  errors : List String

def publish {ρ : Type} {key : ρ → String} (name tableName : String) (t : Table key) :
    Option (Publication ρ) → Outcome key
  | none => ⟨t, "", []⟩
  | some (.refused e) => ⟨t, "", [name ++ ": " ++ e]⟩
  | some (.notJoined e) => ⟨t, "", [name ++ " task: " ++ e]⟩
  | some (.published row) =>
    match t.insert row with
    | some t => ⟨t, key row, []⟩
    | none => ⟨t, "",
        [name ++ ": DB error: UNIQUE constraint failed: " ++ tableName ++ ".anchor_id"]⟩

def publishBitcoin (db : Db) (pub : Publications) : Outcome BitcoinRow.anchorId :=
  publish "bitcoin" "bitcoin_merkle_anchors" db.bitcoin pub.bitcoin

def publishSolana (db : Db) (pub : Publications) : Outcome SolanaRow.anchorId :=
  publish "solana" "solana_merkle_anchors" db.solana pub.solana

def expectedAnchors (pub : Publications) : ℕ :=
  pub.bitcoin.toList.length + pub.solana.toList.length

def settledStatus (expected : ℕ) (btcId solId : String) : AnchorStatus :=
  let successes := (if btcId = "" then 0 else 1) + (if solId = "" then 0 else 1)
  if 0 < expected ∧ successes = expected then .submitted
  else if 0 < successes then .partlySubmitted
  else .failed

def settledError (expected : ℕ) (errors : List String) : String :=
  if expected = 0 then "no anchor provider configured" else "; ".intercalate errors

def settledRow (expected : ℕ) (btcId solId : String) (errors : List String) (b : AnchorRow) :
    AnchorRow :=
  { b with
    btcAnchorId := btcId
    solAnchorId := solId
    anchorStatus := settledStatus expected btcId solId
    anchorError := settledError expected errors }

def settleBatch (db : Db) (tenantId anchorId : String) (pub : Publications) : Db :=
  let btc := publishBitcoin db pub
  let sol := publishSolana db pub
  { db with
    bitcoin := btc.table.updateWhere (fun r ↦ btc.id ≠ "" ∧ r.anchorId = btc.id)
      (fun r ↦ { r with tenantId := tenantId }) (fun _ ↦ rfl)
    solana := sol.table.updateWhere (fun r ↦ sol.id ≠ "" ∧ r.anchorId = sol.id)
      (fun r ↦ { r with tenantId := tenantId }) (fun _ ↦ rfl)
    anchors := db.anchors.updateWhere (fun b ↦ b.anchorId = anchorId)
      (settledRow (expectedAnchors pub) btc.id sol.id (btc.errors ++ sol.errors)) (fun _ ↦ rfl) }

def anchorPendingActionsForTenant (M : MerkleScheme (List UInt8)) (P : Primitives) (E : Engine)
    (db : Db) (tenantId random : String) (now : ℤ) (pub : Publications) :
    Except Failure (Option String × Db) := do
  match ← sealBatch M P E db tenantId random now with
  | none => return (none, db)
  | some b =>
    let db ← persistBatch db b
    return (some b.anchorId, settleBatch db tenantId b.anchorId pub)

variable {M : MerkleScheme (List UInt8)} {P : Primitives} {E : Engine} {db : Db}
  {tenantId random : String} {now : ℤ} {b : AnchorRow} {r : ReceiptRow}

theorem position_inj (t : ReceiptTable) :
    ∀ r ∈ t.rows, ∀ s ∈ t.rows, position r = position s → r = s := by
  intro r hr s hs h
  have hid : r.receiptId = s.receiptId := congrArg (fun q : Position ↦ (ofLex q).2) h
  exact t.eq_of_key hr hs hid

theorem afterWatermark_iff {w : ℤ × String} :
    afterWatermark tenantId w r = true ↔ r.tenantId = tenantId ∧ toLex w < position r := by
  rw [afterWatermark, position, decide_eq_true_eq, Prod.Lex.toLex_lt_toLex,
    @eq_comm _ r.createdAt]

theorem mem_pendingRows {e : ReceiptRow} (he : (pendingRows E db tenantId).getLast? = some e) :
    r ∈ pendingRows E db tenantId ↔ r ∈ db.receipts.rows ∧ r.tenantId = tenantId ∧
      toLex (watermark E db tenantId) < position r ∧ position r ≤ position e := by
  rw [pendingRows, Scan.mem_take_select db.receipts.rows_nodup (position_inj db.receipts) he,
    afterWatermark_iff]
  simp only [and_assoc]

theorem pendingRows_subset (hr : r ∈ pendingRows E db tenantId) :
    r ∈ db.receipts.rows ∧ r.tenantId = tenantId ∧
      toLex (watermark E db tenantId) < position r := by
  obtain ⟨hmem, hafter⟩ := Scan.mem_select.mp (List.mem_of_mem_take hr)
  exact ⟨hmem, afterWatermark_iff.mp hafter⟩

theorem first_pendingRows_le {f : ReceiptRow} (hf : (pendingRows E db tenantId).head? = some f)
    (hr : r ∈ db.receipts.rows) (ht : r.tenantId = tenantId)
    (hw : toLex (watermark E db tenantId) < position r) : position f ≤ position r :=
  Scan.head_take_select_le hf hr (afterWatermark_iff.mpr ⟨ht, hw⟩)

theorem pendingRows_sorted :
    (pendingRows E db tenantId).Pairwise (fun r s ↦ position r < position s) :=
  (Scan.select_pairwise_lt db.receipts.rows_nodup (position_inj db.receipts)).sublist
    (List.take_sublist _ _)

def AnchorRow.auditHead (b : AnchorRow) : Option (ℤ × String) :=
  if b.auditHeadHash = "" then none else some (b.auditHeadSeq, b.auditHeadHash)

def AnchorRow.body (b : AnchorRow) : AnchorRow :=
  { b with btcAnchorId := "", solAnchorId := "", anchorStatus := .pending, anchorError := "" }

/-- What a stored batch row says about the receipts it was sealed over. -/
structure SealedOver (M : MerkleScheme (List UInt8)) (P : Primitives) (b : AnchorRow)
    (rows : List ReceiptRow) : Prop where
  root : ∃ leaves root,
    batchLeaves P b.tenantId (rows.map receiptFromRow) b.auditHead = .ok leaves ∧
      M.root leaves = some root ∧ b.batchRootHex = hexEncode root
  first : rows.head?.map position = some b.first
  last : rows.getLast?.map position = some b.last
  leafVersion : b.leafVersion = 2

variable {c : AnchorRow}

theorem SealedOver.of_body {rows : List ReceiptRow} (h : SealedOver M P b rows)
    (hc : c.body = b.body) : SealedOver M P c rows := by
  have hb : SealedOver M P c.body rows := hc ▸ ⟨h.root, h.first, h.last, h.leafVersion⟩
  exact ⟨hb.root, hb.first, hb.last, hb.leafVersion⟩

theorem AnchorRow.eq_of_body_eq (h : c.body = b.body) :
    c.anchorId = b.anchorId ∧ c.tenantId = b.tenantId ∧ c.first = b.first ∧ c.last = b.last ∧
      c.auditHead = b.auditHead := by
  have hid : c.body.anchorId = b.body.anchorId := by rw [h]
  have htenant : c.body.tenantId = b.body.tenantId := by rw [h]
  have hfirst : c.body.first = b.body.first := by rw [h]
  have hlast : c.body.last = b.body.last := by rw [h]
  have hhead : c.body.auditHead = b.body.auditHead := by rw [h]
  exact ⟨hid, htenant, hfirst, hlast, hhead⟩

theorem auditChainHead_nonempty {scan : Scan AuditRow} {t : Table AuditRow.auditId}
    {head : ℤ × String} (h : auditChainHead scan t = some head) : head.2 ≠ "" := by
  simpa using (Option.filter_eq_some_iff.mp h).2

theorem sealBatch_eq_none :
    sealBatch M P E db tenantId random now = .ok none ↔ pendingRows E db tenantId = [] := by
  unfold sealBatch
  cases h : pendingRows E db tenantId with
  | nil => simp
  | cons r rows =>
    simp only [List.map_cons, reduceCtorEq, iff_false]
    intro hs
    obtain ⟨leaves, -, hs⟩ := bind_eq_ok.mp hs
    split at hs
    · cases hs
    · cases hs

theorem newBatchRow_auditHead {root : List UInt8} {n : ℕ} {f l : AnchoredReceipt} :
    (newBatchRow tenantId random now root (auditChainHead E.auditLog db.auditLog) n f l).auditHead =
      auditChainHead E.auditLog db.auditLog := by
  cases h : auditChainHead E.auditLog db.auditLog with
  | none => rfl
  | some head => simp [AnchorRow.auditHead, newBatchRow, auditChainHead_nonempty h]

theorem newBatchRow_last {root : List UInt8} {head : Option (ℤ × String)} {n : ℕ}
    {f : AnchoredReceipt} {rows : List ReceiptRow} (hne : rows.map receiptFromRow ≠ []) :
    rows.getLast?.map position =
      some (newBatchRow tenantId random now root head n f
        ((rows.map receiptFromRow).getLast hne)).last := by
  rw [List.getLast_map hne, List.getLast?_eq_getLast_of_ne_nil, Option.map_some]
  rfl

theorem sealBatch_eq_some (h : sealBatch M P E db tenantId random now = .ok (some b)) :
    b.tenantId = tenantId ∧ b.anchorStatus = .pending ∧ b.createdAt = now ∧
      b.auditHead = auditChainHead E.auditLog db.auditLog ∧
      SealedOver M P b (pendingRows E db tenantId) := by
  unfold sealBatch at h
  cases hp : pendingRows E db tenantId with
  | nil =>
    rw [hp] at h
    cases h
  | cons r rows =>
    rw [hp] at h
    obtain ⟨leaves, hl, h⟩ := bind_eq_ok.mp h
    split at h
    · cases h
    · rename_i root hroot
      obtain rfl := Option.some.inj (Except.ok.inj h)
      refine ⟨rfl, rfl, rfl, newBatchRow_auditHead, ⟨leaves, root, ?_, hroot, rfl⟩, rfl, ?_, rfl⟩
      · rw [newBatchRow_auditHead]
        exact hl
      · exact @newBatchRow_last _ _ _ _ _ _ _ (r :: rows) (List.cons_ne_nil _ _)

theorem mem_settleBatch {anchorId : String} {pub : Publications} :
    c ∈ (settleBatch db tenantId anchorId pub).anchors.rows ↔
      ∃ b ∈ db.anchors.rows, c = if b.anchorId = anchorId then
        settledRow (expectedAnchors pub) (publishBitcoin db pub).id (publishSolana db pub).id
          ((publishBitcoin db pub).errors ++ (publishSolana db pub).errors) b else b := by
  have h : (settleBatch db tenantId anchorId pub).anchors.rows = db.anchors.rows.map (fun b ↦
      if b.anchorId = anchorId then
        settledRow (expectedAnchors pub) (publishBitcoin db pub).id (publishSolana db pub).id
          ((publishBitcoin db pub).errors ++ (publishSolana db pub).errors) b
      else b) := by
    simp only [settleBatch, Table.updateWhere, decide_eq_true_eq]
  rw [h, List.mem_map]
  simp only [eq_comm]

theorem body_of_mem_settleBatch {anchorId : String} {pub : Publications}
    (hc : c ∈ (settleBatch db tenantId anchorId pub).anchors.rows) :
    ∃ b ∈ db.anchors.rows, c.body = b.body ∧ (b.anchorId ≠ anchorId → c = b) := by
  obtain ⟨b, hb, rfl⟩ := mem_settleBatch.mp hc
  refine ⟨b, hb, ?_, fun h ↦ if_neg h⟩
  split_ifs <;> rfl

end SauronId.Anchor
