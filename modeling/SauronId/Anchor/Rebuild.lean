import SauronId.Anchor.World

namespace SauronId.Anchor

open CryptoProtocol Lib Lib.Run Receipt

def AuditUnsealed (w : World) : Event → Prop
  | .sealBatch _ _ _ => ∀ a ∈ w.db.auditLog.rows, a.seq = none ∨ a.entryHash = ""
  | _ => True

/-- What keeps the rebuilt tree of a batch equal to the one that was anchored. -/
def Recoverable (w : World) (e : Event) : Prop := OutsideBatches w e ∧ AuditUnsealed w e

instance (w : World) : (e : Event) → Decidable (Recoverable w e)
  | .insertReceipt r => inferInstanceAs (Decidable ((∀ b ∈ w.db.anchors.rows,
      b.tenantId = r.tenantId → ¬ (b.first ≤ position r ∧ position r ≤ b.last)) ∧ True))
  | .insertAudit _ => inferInstanceAs (Decidable (True ∧ True))
  | .sealBatch _ _ _ => inferInstanceAs (Decidable (True ∧
      ∀ a ∈ w.db.auditLog.rows, a.seq = none ∨ a.entryHash = ""))
  | .settleBatch _ _ => inferInstanceAs (Decidable (True ∧ True))

variable {M : MerkleScheme (List UInt8)} {P : Primitives} {E : Engine} {w w' : World} {e : Event}

theorem auditChainHead_eq_none {scan : Scan AuditRow} {t : Table AuditRow.auditId}
    (h : ∀ a ∈ t.rows, a.seq = none ∨ a.entryHash = "") : auditChainHead scan t = none := by
  unfold auditChainHead
  cases hl : scan.last (fun r ↦ r.seq.isSome) (fun r ↦ r.seq.getD 0) t.rows with
  | none => rfl
  | some a =>
    obtain ⟨ha, hseq, -⟩ := Scan.last_eq_some hl
    rcases h a ha with hnone | hempty
    · simp [hnone] at hseq
    · simp [hempty]

def Headless (w : World) : Prop := ∀ b ∈ w.db.anchors.rows, b.auditHead = none

theorem Step.headless (h : Step M P E w e w') (hok : AuditUnsealed w e) (hw : Headless w) :
    Headless w' := by
  cases h with
  | insertReceipt ht => exact hw
  | insertAudit ht => exact hw
  | sealed hb ht =>
    obtain ⟨-, hrows⟩ := Table.insert_eq_some.mp ht
    obtain ⟨-, -, -, hhead, -⟩ := sealBatch_eq_some hb
    intro c hc
    simp only [hrows, List.mem_append, List.mem_singleton] at hc
    rcases hc with hc | rfl
    · exact hw c hc
    · rw [hhead, auditChainHead_eq_none hok]
  | idle => exact hw
  | settled hb hid hp =>
    intro c hc
    obtain ⟨b, hb, hbody, -⟩ := body_of_mem_settleBatch hc
    rw [(AnchorRow.eq_of_body_eq hbody).2.2.2.2, hw b hb]

theorem headless_of_run {es : List Event} (h : run (next M P E) .init es = some w)
    (hok : Along (next M P E) AuditUnsealed .init es) : Headless w :=
  run_invariant (fun _ _ _ hw hok hs ↦ (step_of_next hs).headless hok hw)
    (fun b hb ↦ by cases hb) hok h

theorem coveringBatch_eq_some {db : Db} {createdAt : ℤ} {tenantId : String} {b : AnchorRow}
    (hstar : tenantId ≠ "*") (h : coveringBatch E db createdAt tenantId = some b) :
    b ∈ db.anchors.rows ∧ b.tenantId = tenantId ∧ b.fromCreatedAt ≤ createdAt ∧
      createdAt ≤ b.toCreatedAt := by
  obtain ⟨hb, hp, -⟩ := Scan.first_eq_some h
  simp only [decide_eq_true_eq, inScope_iff hstar] at hp
  exact ⟨hb, hp.2.2, hp.1, hp.2.1⟩

theorem SealedOver.root_of_headless {b : AnchorRow} {rows : List ReceiptRow}
    {leaves : List (List UInt8)} (hs : SealedOver M P b rows) (hhead : b.auditHead = none)
    (hl : (rows.map receiptFromRow).mapM (leafHash P b.leafVersion) = .ok leaves) :
    (M.root leaves).map Encoding.hexEncode = some b.batchRootHex := by
  obtain ⟨sealedLeaves, root, hsl, hroot, hhex⟩ := hs.root
  have hv2 : leafHash P b.leafVersion = leafHashV2 P := by
    funext r
    rw [leafHash, hs.leafVersion, if_pos le_rfl]
  rw [hhead, batchLeaves, ← hv2, hl] at hsl
  obtain rfl := Except.ok.inj hsl
  rw [hroot, Option.map_some, hhex]

theorem proof_folds_to_batch_root {es : List Event} {receiptId tenantId : String}
    {p : ReceiptProof} (hrun : run (next M P E) .init es = some w)
    (hok : Along (next M P E) Recoverable .init es) (hstar : tenantId ≠ "*")
    (hp : proofForReceiptForTenant M P E w.db receiptId tenantId = .ok (some p)) :
    p.foldedRootHex M = some p.batchRootHex := by
  obtain ⟨createdAt, b, -, hcover, hp⟩ := proofForReceiptForTenant_eq_some hp
  obtain ⟨hb, rfl, -⟩ := coveringBatch_eq_some hstar hcover
  obtain ⟨-, hroot, -, leaves, hl, hfold⟩ := proofInBatch_eq_some hp
  have hrange := rebuilt_of_run hrun (along_mono (fun _ _ h ↦ h.1) hok) b hb hstar
  have hhead := headless_of_run hrun (along_mono (fun _ _ h ↦ h.2) hok) b hb
  rw [hrange] at hl
  rw [hfold, hroot, (committed_of_run hrun b hb).1.root_of_headless hhead hl]

def countingTree : MerkleScheme (List UInt8) :=
  .pairwise (fun l r ↦ countingPrimitives.sha256 (l ++ r))

def acmeReceipt (receiptId : String) (createdAt : ℤ) : ReceiptRow where
  receiptId := receiptId
  actionHash := "action"
  agentId := "agent"
  ringKeyImageHex := "image"
  policyVersion := "v1"
  ajwtJti := "jti"
  popJkt := ""
  status := "accepted"
  signature := "v2.00"
  createdAt := createdAt
  ringId := none
  configDigest := none
  seq := 0
  prevHash := ""
  ownerMandateHash := ""
  tenantId := "acme"

def accepted (suffix : String) : Publications where
  bitcoin := some (.published ⟨"btc_" ++ suffix, "mock", 0, "default"⟩)
  solana := some (.published ⟨"sol_" ++ suffix, "signature", 0, 0, "default"⟩)

def anchorCall (name : String) (now : ℤ) : List Event :=
  [.sealBatch "acme" name now, .settleBatch ("aaa_" ++ name) (accepted name)]

def threeReceipts : List Event :=
  [Event.insertReceipt (acmeReceipt "r1" 5), .insertReceipt (acmeReceipt "r2" 5),
    .insertReceipt (acmeReceipt "r3" 7)] ++ anchorCall "one" 9

def proofInFirst (rootHex : String) (leafIndex : ℕ) (hashes : List String) (treeSize : ℕ) :
    ReceiptProof where
  anchorId := "aaa_one"
  batchRootHex := rootHex
  leafIndex := leafIndex
  leafHex := "33"
  proofHashesHex := hashes
  treeSize := treeSize
  leafVersion := 2
  btcAnchorId := "btc_one"
  solAnchorId := "sol_one"
  solana := ⟨false, some 0, some "signature"⟩
  bitcoin := ⟨"mock", false⟩
  anchored := false

theorem proof_folds_to_batch_root_three :
    ∃ w p, run (next countingTree countingPrimitives .stored) .init threeReceipts = some w ∧
      proofForReceiptForTenant countingTree countingPrimitives .stored w.db "r2" "acme" =
        .ok (some p) ∧
      p.foldedRootHex countingTree = some p.batchRootHex := by
  have h : (run (next countingTree countingPrimitives .stored) .init threeReceipts).map
      (fun w ↦ proofForReceiptForTenant countingTree countingPrimitives .stored w.db "r2" "acme") =
      some (.ok (some (proofInFirst "02" 1 ["33", "33"] 3))) := by decide +kernel
  obtain ⟨w, hw, hp⟩ := Option.map_eq_some_iff.mp h
  exact ⟨w, _, hw, hp, proof_folds_to_batch_root hw (by decide +kernel) (by decide) hp⟩

def auditedReceipt : List Event :=
  [Event.insertAudit ⟨"a1", some 1, "head"⟩, .insertReceipt (acmeReceipt "r1" 5)] ++
    anchorCall "one" 9

/-- The anchored tree of `auditedReceipt` has two leaves, the receipt and the
audit head, and the proof is built over the receipt alone. -/
theorem proof_misses_audited_batch_root :
    ∃ w p, run (next countingTree countingPrimitives .stored) .init auditedReceipt = some w ∧
      proofForReceiptForTenant countingTree countingPrimitives .stored w.db "r1" "acme" =
        .ok (some p) ∧
      p.foldedRootHex countingTree ≠ some p.batchRootHex := by
  have h : (run (next countingTree countingPrimitives .stored) .init auditedReceipt).map
      (fun w ↦ proofForReceiptForTenant countingTree countingPrimitives .stored w.db "r1" "acme") =
      some (.ok (some (proofInFirst "02" 0 [] 1))) := by decide +kernel
  obtain ⟨w, hw, hp⟩ := Option.map_eq_some_iff.mp h
  exact ⟨w, _, hw, hp, by decide +kernel⟩

end SauronId.Anchor
