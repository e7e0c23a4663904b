import SauronId.Receipt.Chain

namespace SauronId.Receipt

open CryptoProtocol Lib Lib.Encoding Lib.HashChain

def tenantReceipts (t : ReceiptTable) (tenantId : String) : List ActionReceipt :=
  (t.rows.map .ofRow).filter (fun r ↦ r.tenantId = tenantId)

/-- The tenant's receipts were stored one after the other along their chain. -/
def Intact (P : Primitives) (t : ReceiptTable) (tenantId : String) : Prop :=
  (links P).Linked 1 "" (tenantReceipts t tenantId)

variable {P : Primitives} {scan : Scan ReceiptRow} {t : ReceiptTable} {tenantId : String}

theorem mem_tenantReceipts {r : ReceiptRow} (hr : r ∈ t.rows) (ht : r.tenantId = tenantId) :
    .ofRow r ∈ tenantReceipts t tenantId :=
  List.mem_filter.mpr ⟨List.mem_map_of_mem hr, decide_eq_true ht⟩

theorem Intact.seq_pos (h : Intact P t tenantId) {r : ReceiptRow} (hr : r ∈ t.rows)
    (ht : r.tenantId = tenantId) : 0 < r.seq :=
  lt_of_lt_of_le one_pos (h.le_seq (mem_tenantReceipts hr ht))

theorem tenantReceipts_eq_map : tenantReceipts t tenantId =
    (t.rows.filter (fun r ↦ r.tenantId = tenantId)).map .ofRow := by
  rw [tenantReceipts, List.filter_map]
  rfl

theorem Intact.chained_eq (h : Intact P t tenantId) :
    chained scan t tenantId = tenantReceipts t tenantId := by
  have hfilter : t.rows.filter (fun r ↦ decide (r.tenantId = tenantId ∧ 0 < r.seq)) =
      t.rows.filter (fun r ↦ decide (r.tenantId = tenantId)) := by
    refine List.filter_congr (fun r hr ↦ decide_eq_decide.mpr ?_)
    exact and_iff_left_of_imp (h.seq_pos hr)
  have hsorted : (t.rows.filter (fun r ↦ decide (r.tenantId = tenantId ∧ 0 < r.seq))).Pairwise
      (fun r s ↦ r.seq < s.seq) := by
    have hlt := h.seq_lt
    rw [tenantReceipts_eq_map, List.pairwise_map] at hlt
    rw [hfilter]
    exact hlt
  rw [chained, chainedRows, Scan.select_of_sorted hsorted, hfilter, tenantReceipts_eq_map]

theorem Intact.verifyReceiptChain (h : Intact P t tenantId) :
    verifyReceiptChain P scan t tenantId = .ok (tenantReceipts t tenantId).length := by
  refine verifyReceiptChain_eq_ok.mpr ?_
  rw [h.chained_eq]
  exact ⟨h, rfl⟩

theorem chainHead_eq_none (h : chainHead scan t tenantId = none) :
    tenantReceipts t tenantId = [] := by
  have hnone := Scan.last_eq_none.mp (Option.map_eq_none_iff.mp h)
  rw [tenantReceipts_eq_map, List.map_eq_nil_iff, List.filter_eq_nil_iff]
  exact fun r hr ↦ by simp [hnone r hr]

theorem Intact.chainHead_eq_some (h : Intact P t tenantId) {head : ℤ × String}
    (hh : chainHead scan t tenantId = some head) :
    ∃ rs r, tenantReceipts t tenantId = rs ++ [r] ∧ loadReceipt t head.2 = some r ∧
      head.1 = r.seq := by
  obtain ⟨row, hlast, rfl⟩ := Option.map_eq_some_iff.mp hh
  obtain ⟨hrow, htenant, hmax⟩ := Scan.last_eq_some hlast
  have hmem := mem_tenantReceipts hrow (of_decide_eq_true htenant)
  obtain ⟨rs, r, he⟩ : ∃ rs r, tenantReceipts t tenantId = rs ++ [r] := by
    rcases List.eq_nil_or_concat (tenantReceipts t tenantId) with hnil | ⟨rs, r, he⟩
    · rw [hnil] at hmem
      cases hmem
    · exact ⟨rs, r, by simpa using he⟩
  have hr : r ∈ tenantReceipts t tenantId := by simp [he]
  obtain ⟨s, hs, rfl⟩ := List.mem_map.mp (List.mem_filter.mp hr).1
  have hle : s.seq ≤ row.seq := hmax s hs (List.mem_filter.mp hr).2
  have heq : ActionReceipt.ofRow row = .ofRow s := by
    have hlt := h.seq_lt
    rw [he, List.pairwise_append] at hlt
    rw [he, List.mem_append, List.mem_singleton] at hmem
    refine hmem.resolve_left (fun hrs ↦ ?_)
    exact absurd hle (not_le.mpr (hlt.2.2 _ hrs _ (List.mem_singleton_self _)))
  exact ⟨rs, .ofRow s, he, heq ▸ loadReceipt_of_mem hrow, congrArg ActionReceipt.seq heq⟩

variable {position : ℤ × String}

theorem Intact.nextChainPosition (h : Intact P t tenantId)
    (hp : nextChainPosition P scan t tenantId = .ok position) :
    position.1 = 1 + (tenantReceipts t tenantId).length ∧
      (links P).tip "" (tenantReceipts t tenantId) = some position.2 := by
  unfold Receipt.nextChainPosition at hp
  cases hh : chainHead scan t tenantId with
  | none =>
    rw [hh] at hp
    obtain rfl : (1, "") = position := Except.ok.inj hp
    rw [chainHead_eq_none hh]
    exact ⟨rfl, rfl⟩
  | some head =>
    obtain ⟨rs, r, he, hload, hseq⟩ := h.chainHead_eq_some hh
    have hlinked := h
    unfold Intact at hlinked
    rw [he, Links.linked_concat] at hlinked
    have hrseq : r.seq = 1 + rs.length := hlinked.2.1
    obtain ⟨seq, id⟩ := head
    simp only at hload hseq
    rw [hh, linkAfter, if_neg (by omega), hload] at hp
    obtain ⟨hash, hhash, hp⟩ := bind_eq_ok.mp hp
    obtain rfl : (seq + 1, hash) = position := Except.ok.inj hp
    rw [he, Links.tip_concat, links_hash_eq_some, List.length_append, List.length_singleton]
    refine ⟨?_, hhash⟩
    push_cast
    omega

theorem chainFields_subset (r : ActionReceipt) : chainFields r ⊆
    signedFields r ++ [("seq", toString r.seq), ("prev_hash", r.prevHash)] := by
  simp [chainFields, signedFields]

theorem receiptChainHash_of_signed {r : ActionReceipt} {payload : List UInt8} (hseq : 0 < r.seq)
    (h : receiptSigningPayload r = .ok payload) : ∃ hash, receiptChainHash P r = .ok hash := by
  have hv1 : ∀ fields, chainFields r ⊆ fields →
      (∀ f ∈ fields, (bytes f.1).length < 2 ^ 32 ∧ (bytes f.2).length < 2 ^ 32) →
      ∃ w, canonicalFields "sauron.agent-action-receipt-chain.v1" (chainFields r) = .ok w :=
    fun fields hsub hfits ↦
      canonicalFields_isOk.mpr ⟨by decide +kernel, fun f hf ↦ hfits f (hsub hf)⟩
  obtain ⟨w, hw⟩ : ∃ w, chainPayload r = .ok w := by
    unfold receiptSigningPayload at h
    split_ifs at h with hm
    · have hfits := (canonicalFields_isOk.mp ⟨payload, h⟩).2
      have hsub : chainFields r ⊆ signedFields r ++ [("seq", toString r.seq),
          ("prev_hash", r.prevHash), ("owner_mandate_hash", r.ownerMandateHash)] := by
        have hmore := List.subset_append_of_subset_left
          [("owner_mandate_hash", r.ownerMandateHash)] (chainFields_subset r)
        rwa [List.append_assoc] at hmore
      obtain ⟨v, hv⟩ := hv1 _ hsub hfits
      obtain ⟨w, hw⟩ : ∃ w, canonicalFields "sauron.agent-action-receipt-chain.v2"
          (chainFields r ++ [("owner_mandate_hash", r.ownerMandateHash)]) = .ok w := by
        refine canonicalFields_isOk.mpr ⟨by decide +kernel, fun f hf ↦ hfits f ?_⟩
        rcases List.mem_append.mp hf with hf | hf
        · exact hsub hf
        · simp [List.mem_singleton.mp hf]
      refine ⟨w, bind_eq_ok.mpr ⟨v, hv, ?_⟩⟩
      rw [if_neg hm.2]
      exact hw
    · obtain ⟨v, hv⟩ :=
        hv1 _ (chainFields_subset r) (canonicalFields_isOk.mp ⟨payload, h⟩).2
      refine ⟨v, bind_eq_ok.mpr ⟨v, hv, ?_⟩⟩
      rw [if_pos (not_not.mp (fun hne ↦ hm ⟨hseq, hne⟩))]
      rfl
  exact ⟨_, bind_eq_ok.mpr ⟨w, hw, rfl⟩⟩

variable {row : ReceiptRow}

theorem tenantReceipts_replace (hfresh : ∀ r ∈ t.rows, r.receiptId ≠ row.receiptId)
    (tenantId : String) :
    tenantReceipts (t.replace row) tenantId = tenantReceipts t tenantId ++
      if row.tenantId = tenantId then [.ofRow row] else [] := by
  simp only [tenantReceipts, Table.replace_rows_of_fresh hfresh, List.map_append, List.filter_append,
    List.map_singleton, List.filter_singleton, cond_eq_ite, decide_eq_true_eq]
  rfl

theorem intact_replace {payload : List UInt8} (h : ∀ T, Intact P t T)
    (hfresh : ∀ r ∈ t.rows, r.receiptId ≠ row.receiptId)
    (hp : nextChainPosition P scan t row.tenantId = .ok (row.seq, row.prevHash))
    (hs : receiptSigningPayload (.ofRow row) = .ok payload) (tenantId : String) :
    Intact P (t.replace row) tenantId := by
  unfold Intact
  rw [tenantReceipts_replace hfresh]
  split_ifs with ht
  · subst ht
    obtain ⟨hseq, htip⟩ := (h row.tenantId).nextChainPosition hp
    obtain ⟨hash, hhash⟩ := receiptChainHash_of_signed (P := P) (r := .ofRow row)
      (show 0 < row.seq by simp only at hseq; omega) hs
    refine Links.linked_concat.mpr ⟨h row.tenantId, hseq, htip, ?_⟩
    exact Option.isSome_iff_exists.mpr ⟨hash, links_hash_eq_some.mpr hhash⟩
  · rw [List.append_nil]
    exact h tenantId

theorem linkAfter_replace {head : Option (ℤ × String)}
    (hfresh : ∀ r ∈ t.rows, r.receiptId ≠ row.receiptId)
    (h : linkAfter P t head = .ok position) : linkAfter P (t.replace row) head = .ok position := by
  match head with
  | none => exact h
  | some (seq, id) =>
    simp only [linkAfter] at h ⊢
    split_ifs at h ⊢
    · exact h
    · cases hl : loadReceipt t id with
      | none =>
        rw [hl] at h
        cases h
      | some r =>
        obtain ⟨s, hs, hid, hr⟩ := loadReceipt_eq_some.mp hl
        have hmem : s ∈ (t.replace row).rows := Table.mem_replace.mpr (.inl ⟨hs, hfresh s hs⟩)
        rw [hl] at h
        rwa [loadReceipt_eq_some.mpr ⟨s, hmem, hid, hr⟩]

end SauronId.Receipt
