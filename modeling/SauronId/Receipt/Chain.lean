import SauronId.Receipt.Store

namespace SauronId.Receipt

open CryptoProtocol Lib Lib.HashChain

def chainHead (scan : Scan ReceiptRow) (t : ReceiptTable) (tenantId : String) :
    Option (ℤ × String) :=
  (scan.last (fun r ↦ r.tenantId = tenantId) ReceiptRow.seq t.rows).map
    (fun r ↦ (r.seq, r.receiptId))

def linkAfter (P : Primitives) (t : ReceiptTable) : Option (ℤ × String) →
    Except Failure (ℤ × String)
  | none => .ok (1, "")
  | some (prevSeq, prevReceiptId) =>
    if prevSeq = 0 then .ok (1, "")
    else
      match loadReceipt t prevReceiptId with
      | none => .error (.failed "chain head receipt vanished between read and link")
      | some prev => do
        let prevHash ← receiptChainHash P prev
        return (prevSeq + 1, prevHash)

def nextChainPosition (P : Primitives) (scan : Scan ReceiptRow) (t : ReceiptTable)
    (tenantId : String) : Except Failure (ℤ × String) :=
  linkAfter P t (chainHead scan t tenantId)

def chainedRows (scan : Scan ReceiptRow) (t : ReceiptTable) (tenantId : String) :
    List ReceiptRow :=
  scan.select (fun r ↦ r.tenantId = tenantId ∧ 0 < r.seq) ReceiptRow.seq t.rows

def verifyLoop (P : Primitives) (t : ReceiptTable) (tenantId : String) :
    List String → (expectedSeq : ℤ) → (expectedPrev : String) → (checked : ℤ) → Except Failure ℤ
  | [], _, _, checked => .ok checked
  | id :: ids, expectedSeq, expectedPrev, checked =>
    match loadReceipt t id with
    | none => .error (.failed ("receipt " ++ id ++ " listed but not loadable"))
    | some receipt =>
      if receipt.seq ≠ expectedSeq then
        .error (.failed ("receipt chain break for tenant " ++ tenantId ++ ": expected seq " ++
          toString expectedSeq ++ ", found " ++ toString receipt.seq ++
          " (" ++ receipt.receiptId ++ ")"))
      else if receipt.prevHash ≠ expectedPrev then
        .error (.failed ("receipt chain break for tenant " ++ tenantId ++ " at seq " ++
          toString receipt.seq ++ ": prev_hash does not match the previous receipt"))
      else do
        let hash ← receiptChainHash P receipt
        verifyLoop P t tenantId ids (expectedSeq + 1) hash (checked + 1)

def verifyReceiptChain (P : Primitives) (scan : Scan ReceiptRow) (t : ReceiptTable)
    (tenantId : String) : Except Failure ℤ :=
  verifyLoop P t tenantId ((chainedRows scan t tenantId).map ReceiptRow.receiptId) 1 "" 0

def chained (scan : Scan ReceiptRow) (t : ReceiptTable) (tenantId : String) :
    List ActionReceipt :=
  (chainedRows scan t tenantId).map .ofRow

def links (P : Primitives) : Links ActionReceipt String where
  seq := ActionReceipt.seq
  prev := ActionReceipt.prevHash
  hash r := (receiptChainHash P r).toOption

variable {P : Primitives} {scan scan' : Scan ReceiptRow} {t u : ReceiptTable} {tenantId : String}

theorem links_hash_eq_some {r : ActionReceipt} {h : String} :
    (links P).hash r = some h ↔ receiptChainHash P r = .ok h := by
  simp only [links]
  cases receiptChainHash P r <;> simp [Except.toOption]

theorem verifyLoop_eq_ok {rows : List ReceiptRow} (hrows : ∀ r ∈ rows, r ∈ t.rows)
    {n : ℤ} {p : String} {c k : ℤ} :
    verifyLoop P t tenantId (rows.map ReceiptRow.receiptId) n p c = .ok k ↔
      (links P).Linked n p (rows.map .ofRow) ∧ k = c + rows.length := by
  induction rows generalizing n p c with
  | nil => simp [verifyLoop, Links.Linked, eq_comm]
  | cons r rows ih =>
    obtain ⟨hr, hrows⟩ := List.forall_mem_cons.mp hrows
    simp only [List.map_cons, verifyLoop, loadReceipt_of_mem hr, Links.Linked, links_hash_eq_some]
    by_cases hseq : (ActionReceipt.ofRow r).seq = n
    · by_cases hprev : (ActionReceipt.ofRow r).prevHash = p
      · simp only [hseq, hprev, ne_eq, not_true_eq_false, if_false, bind_eq_ok, ih hrows, links,
          true_and, List.length_cons, Nat.cast_add, Nat.cast_one]
        constructor
        · rintro ⟨h, hh, hl, hk⟩
          exact ⟨⟨h, hh, hl⟩, by omega⟩
        · rintro ⟨⟨h, hh, hl⟩, hk⟩
          exact ⟨h, hh, hl, by omega⟩
      · simp [hseq, hprev, links]
    · simp [hseq, links]

theorem chainedRows_subset {r : ReceiptRow} (h : r ∈ chainedRows scan t tenantId) : r ∈ t.rows :=
  (Scan.mem_select.mp h).1

/-- What the verifier checks: the chained receipts are linked from position 1
and the empty hash, and the count is how many there are. -/
theorem verifyReceiptChain_eq_ok {k : ℤ} :
    verifyReceiptChain P scan t tenantId = .ok k ↔
      (links P).Linked 1 "" (chained scan t tenantId) ∧ k = (chained scan t tenantId).length := by
  rw [verifyReceiptChain, verifyLoop_eq_ok (fun r ↦ chainedRows_subset), chained, List.length_map,
    zero_add]

theorem tip_chained_of_getLast (h : (chained scan t tenantId).getLast?.map (receiptChainHash P) =
      (chained scan' u tenantId).getLast?.map (receiptChainHash P)) :
    (links P).tip "" (chained scan t tenantId) = (links P).tip "" (chained scan' u tenantId) := by
  have hmap : ∀ l : List ActionReceipt, (links P).tip "" l =
      ((l.getLast?.map (receiptChainHash P)).map Except.toOption).getD (some "") := by
    intro l
    rw [Option.map_map]
    rfl
  rw [hmap, hmap, h]

theorem verified_chains_agree (hsha : Function.Injective P.sha256) {n : ℤ}
    (ht : verifyReceiptChain P scan t tenantId = .ok n)
    (hu : verifyReceiptChain P scan' u tenantId = .ok n)
    (hlast : (chained scan t tenantId).getLast?.map (receiptChainHash P) =
      (chained scan' u tenantId).getLast?.map (receiptChainHash P)) :
    (chained scan t tenantId).map ActionReceipt.unsigned =
      (chained scan' u tenantId).map ActionReceipt.unsigned := by
  obtain ⟨hlt, hnt⟩ := verifyReceiptChain_eq_ok.mp ht
  obtain ⟨hlu, hnu⟩ := verifyReceiptChain_eq_ok.mp hu
  refine Links.Linked.agree (fun r _ s _ h hr hs ↦ ?_) (fun r s hrs ↦ ?_) hlt hlu (by omega)
    (tip_chained_of_getLast hlast)
  · exact receiptChainHash_inj hsha (links_hash_eq_some.mp hr) (links_hash_eq_some.mp hs)
  · have h : r.unsigned.prevHash = s.unsigned.prevHash := by rw [hrs]
    exact h

def firstOfTwo (signature : String) : ActionReceipt :=
  ⟨"acme", "r1", "a1", "agent", "ki", "p1", "j1", "", 10, "accepted", signature, 1, "", ""⟩

def secondOfTwo (signature : String) : ActionReceipt :=
  ⟨"acme", "r2", "a2", "agent", "ki", "p1", "j2", "", 11, "accepted", signature, 2, "01", "mandate"⟩

def shortPrimitives : Primitives :=
  ⟨Equiv.swap ((chainPayload (firstOfTwo "")).toOption.getD []) [1], fun _ ikm _ ↦ ikm,
    fun _ message ↦ message⟩

def twoReceipts (signature : String) : ReceiptTable where
  rows := [(secondOfTwo signature).toRow none none, (firstOfTwo signature).toRow none none]
  nodup := by simp [ActionReceipt.toRow, secondOfTwo, firstOfTwo]

theorem verified_chains_agree_two :
    verifyReceiptChain shortPrimitives .stored (twoReceipts "s") "acme" = .ok 2 ∧
    verifyReceiptChain shortPrimitives .stored (twoReceipts "t") "acme" = .ok 2 ∧
    (chained .stored (twoReceipts "s") "acme").map ActionReceipt.unsigned =
      (chained .stored (twoReceipts "t") "acme").map ActionReceipt.unsigned := by
  have hs : verifyReceiptChain shortPrimitives .stored (twoReceipts "s") "acme" = .ok 2 := by
    decide +kernel
  have ht : verifyReceiptChain shortPrimitives .stored (twoReceipts "t") "acme" = .ok 2 := by
    decide +kernel
  have hls : (chained .stored (twoReceipts "s") "acme").getLast? = some (secondOfTwo "s") := by
    decide +kernel
  have hlt : (chained .stored (twoReceipts "t") "acme").getLast? = some (secondOfTwo "t") := by
    decide +kernel
  refine ⟨hs, ht, verified_chains_agree (Equiv.injective _) hs ht ?_⟩
  rw [hls, hlt, Option.map_some, Option.map_some, ← receiptChainHash_unsigned,
    ← receiptChainHash_unsigned _ (secondOfTwo "t")]
  rfl

end SauronId.Receipt
