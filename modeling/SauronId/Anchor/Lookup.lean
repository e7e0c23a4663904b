import SauronId.Anchor.Coverage

namespace SauronId.Anchor

open CryptoProtocol Lib Lib.Run Receipt

def backlog (E : Engine) (db : Db) (tenantId : String) : List ReceiptRow :=
  E.receipts.select (afterWatermark tenantId (watermark E db tenantId)) position db.receipts.rows

/-- Batches keep to whole seconds: a receipt arrives in a later second than its
tenant's batches end in, and the cap of a batch does not fall between two
receipts of one second. -/
def WholeSeconds (E : Engine) (w : World) : Event → Prop
  | .insertReceipt r => ∀ b ∈ w.db.anchors.rows, b.tenantId = r.tenantId →
      b.toCreatedAt < r.createdAt
  | .sealBatch tenantId _ _ =>
      ∀ r ∈ (backlog E w.db tenantId)[maxReceiptsPerBatch - 1]?,
        ∀ s ∈ (backlog E w.db tenantId)[maxReceiptsPerBatch]?, r.createdAt < s.createdAt
  | _ => True

instance (E : Engine) (w : World) : (e : Event) → Decidable (WholeSeconds E w e)
  | .insertReceipt r => inferInstanceAs (Decidable (∀ b ∈ w.db.anchors.rows,
      b.tenantId = r.tenantId → b.toCreatedAt < r.createdAt))
  | .sealBatch tenantId _ _ => inferInstanceAs (Decidable (
      ∀ r ∈ (backlog E w.db tenantId)[maxReceiptsPerBatch - 1]?,
        ∀ s ∈ (backlog E w.db tenantId)[maxReceiptsPerBatch]?, r.createdAt < s.createdAt))
  | .insertAudit _ => isTrue trivial
  | .settleBatch _ _ => isTrue trivial

/-- The receipts of a batch are all the receipts of the seconds it spans, except
for those that lie before every watermark. -/
structure Whole (w : World) : Prop where
  ordered : ∀ b ∈ w.db.anchors.rows, toLex (0, "") < b.first ∧ b.first ≤ b.last
  whole : ∀ b ∈ w.db.anchors.rows, ∀ r ∈ w.db.receipts.rows, r.tenantId = b.tenantId →
    toLex (0, "") < position r → b.fromCreatedAt ≤ r.createdAt → r.createdAt ≤ b.toCreatedAt →
    b.first ≤ position r ∧ position r ≤ b.last

variable {M : MerkleScheme (List UInt8)} {P : Primitives} {E : Engine} {w w' : World} {e : Event}
  {tenantId : String} {r s : ReceiptRow}

theorem fst_le_of_le {x y : Position} (h : x ≤ y) : (ofLex x).1 ≤ (ofLex y).1 := by
  rcases (Prod.Lex.le_iff).mp h with hlt | ⟨he, -⟩
  · exact hlt.le
  · exact he.le

theorem OutsideBatches.of_wholeSeconds (h : WholeSeconds E w e) : OutsideBatches w e := by
  cases e with
  | insertReceipt r =>
    intro b hb ht hrange
    have hle : r.createdAt ≤ b.toCreatedAt := fst_le_of_le hrange.2
    exact absurd (h b hb ht) hle.not_gt
  | insertAudit a => trivial
  | sealBatch tenantId random now => trivial
  | settleBatch anchorId pub => trivial

theorem backlog_sorted : (backlog E w.db tenantId).Pairwise (fun r s ↦ position r < position s) :=
  Scan.select_pairwise_lt w.db.receipts.rows_nodup (position_inj w.db.receipts)

theorem position_le_last (hcap : ∀ r ∈ (backlog E w.db tenantId)[maxReceiptsPerBatch - 1]?,
      ∀ s ∈ (backlog E w.db tenantId)[maxReceiptsPerBatch]?, r.createdAt < s.createdAt)
    (hl : (pendingRows E w.db tenantId).getLast? = some r) (hs : s ∈ w.db.receipts.rows)
    (ht : s.tenantId = tenantId) (hw : toLex (watermark E w.db tenantId) < position s)
    (hc : s.createdAt ≤ r.createdAt) : position s ≤ position r := by
  have hmem : s ∈ backlog E w.db tenantId :=
    Scan.mem_select.mpr ⟨hs, afterWatermark_iff.mpr ⟨ht, hw⟩⟩
  rw [← List.take_append_drop maxReceiptsPerBatch (backlog E w.db tenantId)] at hmem
  rcases List.mem_append.mp hmem with htake | hdrop
  · exact ((mem_pendingRows hl).mp htake).2.2.2
  -- Otherwise the cap cut the backlog before `s`, in the second of `r`.
  have hlen : maxReceiptsPerBatch < (backlog E w.db tenantId).length := by
    by_contra hle
    rw [List.drop_eq_nil_of_le (not_lt.mp hle)] at hdrop
    cases hdrop
  have hr : (backlog E w.db tenantId)[maxReceiptsPerBatch - 1]? = some r := by
    have hlt : maxReceiptsPerBatch - 1 < (backlog E w.db tenantId).length := by omega
    have hlast : ((backlog E w.db tenantId).take maxReceiptsPerBatch).getLast? = some r := hl
    rwa [List.getLast?_take, if_neg (by decide), List.getElem?_eq_getElem hlt,
      Option.some_or, ← List.getElem?_eq_getElem hlt] at hlast
  have hf : (backlog E w.db tenantId)[maxReceiptsPerBatch]? =
      some (backlog E w.db tenantId)[maxReceiptsPerBatch] := List.getElem?_eq_getElem hlen
  have hcut := hcap r hr _ hf
  have hsort : ((backlog E w.db tenantId).drop maxReceiptsPerBatch).Pairwise
      (fun r s ↦ position r < position s) := backlog_sorted.sublist (List.drop_sublist _ _)
  rw [List.drop_eq_getElem_cons hlen] at hdrop hsort
  have hle : position (backlog E w.db tenantId)[maxReceiptsPerBatch] ≤ position s := by
    rcases List.mem_cons.mp hdrop with rfl | htail
    · exact le_rfl
    · exact (List.rel_of_pairwise_cons hsort htail).le
  have hsec : (backlog E w.db tenantId)[maxReceiptsPerBatch].createdAt ≤ s.createdAt :=
    fst_le_of_le hle
  omega

theorem zero_le_watermark (hw : Whole w) :
    toLex (0, "") ≤ toLex (watermark E w.db tenantId) := by
  rcases watermark_cases E w.db tenantId with h0 | ⟨b, hb, -, -, hlast, -⟩
  · rw [h0]
  · rw [hlast]
    exact (hw.ordered b hb).1.le.trans (hw.ordered b hb).2

/-- A batch starts with a whole second: the watermark it starts from does not
fall inside one. -/
theorem first_le_position (hw : Whole w) {f : ReceiptRow}
    (hf : (pendingRows E w.db tenantId).head? = some f) (hr : r ∈ w.db.receipts.rows)
    (ht : r.tenantId = tenantId) (hpos : toLex (0, "") < position r)
    (hc : f.createdAt ≤ r.createdAt) : position f ≤ position r := by
  by_contra hlt
  obtain ⟨hfr, hften, hfw⟩ := pendingRows_subset (List.mem_of_mem_head? hf)
  have hrw : position r ≤ toLex (watermark E w.db tenantId) :=
    not_lt.mp (fun h ↦ hlt (first_pendingRows_le hf hr ht h))
  rcases watermark_cases E w.db tenantId with h0 | ⟨b, hb, hten, -, hlast, -⟩
  · rw [h0] at hrw
    exact absurd hrw hpos.not_ge
  · rw [hlast] at hrw hfw
    have hrb : r.createdAt ≤ b.toCreatedAt := fst_le_of_le hrw
    have hbf : b.toCreatedAt ≤ f.createdAt := fst_le_of_le hfw.le
    have hfrom : b.fromCreatedAt ≤ b.toCreatedAt := fst_le_of_le (hw.ordered b hb).2
    have hfpos : toLex (0, "") < position f := hpos.trans (not_le.mp hlt)
    have hin := hw.whole b hb f hfr (hften.trans hten.symm) hfpos (by omega) (by omega)
    exact absurd hin.2 hfw.not_ge

theorem Step.whole (h : Step M P E w e w') (hok : WholeSeconds E w e) (hw : Whole w) :
    Whole w' := by
  cases h with
  | @insertReceipt r t ht =>
    obtain ⟨-, hrows⟩ := Table.insert_eq_some.mp ht
    refine ⟨hw.ordered, fun b hb s hs hten hpos hfrom hto ↦ ?_⟩
    simp only [hrows, List.mem_append, List.mem_singleton] at hs
    rcases hs with hs | rfl
    · exact hw.whole b hb s hs hten hpos hfrom hto
    · exact absurd (hok b hb hten.symm) hto.not_gt
  | insertAudit ht => exact ⟨hw.ordered, hw.whole⟩
  | @sealed tenantId random now b t hb ht =>
    obtain ⟨-, hrows⟩ := Table.insert_eq_some.mp ht
    obtain ⟨rfl, -, -, -, hs⟩ := sealBatch_eq_some hb
    obtain ⟨f, hf, hfirst⟩ := Option.map_eq_some_iff.mp hs.first
    obtain ⟨l, hl, hlast⟩ := Option.map_eq_some_iff.mp hs.last
    have hfl : position f ≤ position l :=
      ((mem_pendingRows hl).mp (List.mem_of_mem_head? hf)).2.2.2
    have hfw := (pendingRows_subset (List.mem_of_mem_head? hf)).2.2
    refine ⟨fun c hc ↦ ?_, fun c hc r hr hten hpos hfrom hto ↦ ?_⟩
    · simp only [hrows, List.mem_append, List.mem_singleton] at hc
      rcases hc with hc | rfl
      · exact hw.ordered c hc
      · rw [← hfirst, ← hlast]
        exact ⟨(zero_le_watermark hw).trans_lt hfw, hfl⟩
    · simp only [hrows, List.mem_append, List.mem_singleton] at hc
      rcases hc with hc | rfl
      · exact hw.whole c hc r hr hten hpos hfrom hto
      · have hfc : f.createdAt = c.fromCreatedAt := congrArg (fun q : Position ↦ (ofLex q).1) hfirst
        have hlc : l.createdAt = c.toCreatedAt := congrArg (fun q : Position ↦ (ofLex q).1) hlast
        have hge := first_le_position hw hf hr hten hpos (by omega)
        rw [← hfirst, ← hlast]
        exact ⟨hge, position_le_last hok hl hr hten (hfw.trans_le hge) (by omega)⟩
  | idle => exact hw
  | settled hb hid hp =>
    refine ⟨fun c hc ↦ ?_, fun c hc ↦ ?_⟩
    · obtain ⟨b, hb, hbody, -⟩ := body_of_mem_settleBatch hc
      obtain ⟨-, -, hfirst, hlast, -⟩ := AnchorRow.eq_of_body_eq hbody
      rw [hfirst, hlast]
      exact hw.ordered b hb
    · obtain ⟨b, hb, hbody, -⟩ := body_of_mem_settleBatch hc
      obtain ⟨-, htenant, hfirst, hlast, -⟩ := AnchorRow.eq_of_body_eq hbody
      have hfrom : c.fromCreatedAt = b.fromCreatedAt := congrArg (fun q : Position ↦ (ofLex q).1) hfirst
      have hto : c.toCreatedAt = b.toCreatedAt := congrArg (fun q : Position ↦ (ofLex q).1) hlast
      rw [htenant, hfirst, hlast, hfrom, hto]
      exact hw.whole b hb

theorem Whole.init : Whole .init where
  ordered b hb := by cases hb
  whole b hb := by cases hb

theorem whole_of_run {es : List Event} (h : run (next M P E) .init es = some w)
    (hok : Along (next M P E) (WholeSeconds E) .init es) : Whole w :=
  run_invariant (fun _ _ _ hw hok hs ↦ (step_of_next hs).whole hok hw) .init hok h

variable {b : AnchorRow}

theorem proofInBatch_of_mem {receiptId : String} {leaves : List (List UInt8)} {db : Db}
    (hl : ((rangeRows E db tenantId b).map receiptFromRow).mapM
      (leafHash P b.leafVersion) = .ok leaves)
    (hr : r ∈ rangeRows E db tenantId b) (hid : r.receiptId = receiptId) :
    ∃ p, proofInBatch M P E db receiptId tenantId b = .ok (some p) ∧ p.anchorId = b.anchorId := by
  cases hi : ((rangeRows E db tenantId b).map receiptFromRow).findIdx?
      (fun r ↦ r.receiptId = receiptId) with
  | none =>
    have hn := List.findIdx?_eq_none_iff.mp hi _ (List.mem_map_of_mem hr)
    exact absurd hid (of_decide_eq_false hn)
  | some i => exact ⟨_, by simp only [proofInBatch, hl, hi, bind, Except.bind]; rfl, rfl⟩

theorem mapM_leafHash_of_sealed {rows : List ReceiptRow} (h : SealedOver M P b rows) :
    ∃ leaves, (rows.map receiptFromRow).mapM (leafHash P b.leafVersion) = .ok leaves := by
  obtain ⟨all, root, hl, -⟩ := h.root
  obtain ⟨leaves, hl, -⟩ := bind_eq_ok.mp hl
  have hv2 : leafHash P b.leafVersion = leafHashV2 P := by
    funext r
    rw [leafHash, h.leafVersion, if_pos le_rfl]
  exact ⟨leaves, hv2 ▸ hl⟩

theorem exists_coveringBatch (E : Engine) {db : Db} {createdAt : ℤ} (hb : b ∈ db.anchors.rows)
    (hfrom : b.fromCreatedAt ≤ createdAt)
    (hto : createdAt ≤ b.toCreatedAt) :
    ∃ c, coveringBatch E db createdAt b.tenantId = some c := by
  cases h : coveringBatch E db createdAt b.tenantId with
  | none =>
    have hn := Scan.first_eq_none.mp h b hb
    simp [hfrom, hto, inScope] at hn
  | some c => exact ⟨c, rfl⟩

/-- The batch that the lookup chooses may be another one than the receipt was
anchored with, but it has every receipt of its seconds. -/
theorem Whole.mem_rangeRows_of_covering (hw : Whole w) {c : AnchorRow}
    (hc : coveringBatch E w.db r.createdAt r.tenantId = some c) (hstar : r.tenantId ≠ "*")
    (hr : r ∈ w.db.receipts.rows) (hpos : toLex (0, "") < position r) :
    c ∈ w.db.anchors.rows ∧ c.tenantId = r.tenantId ∧ r ∈ rangeRows E w.db r.tenantId c := by
  obtain ⟨hmem, hten, hfrom, hto⟩ := coveringBatch_eq_some hstar hc
  exact ⟨hmem, hten,
    (mem_rangeRows hstar).mpr ⟨hr, rfl, hw.whole c hmem r hr hten.symm hpos hfrom hto⟩⟩

/-- In batches of whole seconds every receipt of a submitted batch is proved
from a batch it is a leaf of. -/
theorem anchored_receipt_has_proof {es : List Event} (hrun : run (next M P E) .init es = some w)
    (hok : Along (next M P E) (WholeSeconds E) .init es) (hstar : r.tenantId ≠ "*")
    (ha : Anchored w r) :
    ∃ p, proofForReceiptForTenant M P E w.db r.receiptId r.tenantId = .ok (some p) ∧
      ∃ b ∈ w.db.anchors.rows, b.anchorId = p.anchorId ∧ b.tenantId = r.tenantId ∧
        r ∈ w.leaves b.anchorId := by
  have hcommitted := committed_of_run hrun
  have hrebuilt := rebuilt_of_run hrun (along_mono (fun _ _ h ↦ .of_wholeSeconds h) hok)
  have hwhole := whole_of_run hrun hok
  obtain ⟨b, hb, hten, -, hleaf⟩ := ha
  have hr : r ∈ w.db.receipts.rows := ((hcommitted b hb).2 r hleaf).1
  rw [← hrebuilt b hb (hten ▸ hstar), hten] at hleaf
  obtain ⟨-, -, hge, hle⟩ := (mem_rangeRows hstar).mp hleaf
  have hpos : toLex (0, "") < position r := (hwhole.ordered b hb).1.trans_le hge
  obtain ⟨c, hc⟩ : ∃ c, coveringBatch E w.db r.createdAt r.tenantId = some c :=
    hten ▸ exists_coveringBatch E hb (fst_le_of_le hge) (fst_le_of_le hle)
  obtain ⟨hcmem, hcten, hrange⟩ := hwhole.mem_rangeRows_of_covering hc hstar hr hpos
  have hleaves : rangeRows E w.db r.tenantId c = w.leaves c.anchorId := by
    rw [← hcten]
    exact hrebuilt c hcmem (hcten ▸ hstar)
  obtain ⟨leaves, hl⟩ := mapM_leafHash_of_sealed (hcommitted c hcmem).1
  obtain ⟨p, hp, hpid⟩ := proofInBatch_of_mem (M := M) (hleaves ▸ hl) hrange rfl
  have hcreated : receiptCreatedAt w.db r.receiptId r.tenantId = some r.createdAt := by
    simp [receiptCreatedAt, Table.get_eq_some.mpr ⟨hr, rfl⟩, inScope]
  refine ⟨p, ?_, c, hcmem, hpid.symm, hcten, hleaves ▸ hrange⟩
  simp only [proofForReceiptForTenant, hcreated, hc, hp]

def retriedBatch : List Event :=
  [Event.insertReceipt (acmeReceipt "r1" 5), .sealBatch "acme" "one" 6,
    .settleBatch "aaa_one" ⟨some (.refused "timeout"), none⟩,
    .insertReceipt (acmeReceipt "r2" 7)] ++ anchorCall "two" 8

theorem anchored_receipt_has_proof_retried :
    ∃ w, run (next countingTree countingPrimitives .stored) .init retriedBatch = some w ∧
      Anchored w (acmeReceipt "r1" 5) ∧
      ∃ p, proofForReceiptForTenant countingTree countingPrimitives .stored w.db "r1" "acme" =
          .ok (some p) ∧
        ∃ b ∈ w.db.anchors.rows, b.anchorId = p.anchorId ∧ b.tenantId = "acme" ∧
          acmeReceipt "r1" 5 ∈ w.leaves b.anchorId := by
  obtain ⟨w, hw, ha⟩ : ∃ w, run (next countingTree countingPrimitives .stored) .init
      retriedBatch = some w ∧ Anchored w (acmeReceipt "r1" 5) := by decide +kernel
  exact ⟨w, hw, ha, anchored_receipt_has_proof hw (by decide +kernel) (by decide) ha⟩

def sharedSecond : List Event :=
  [Event.insertReceipt (acmeReceipt "r1" 5)] ++ anchorCall "one" 6 ++
    [Event.insertReceipt (acmeReceipt "r2" 5)] ++ anchorCall "two" 8

theorem anchored_receipt_without_proof :
    ∃ w, run (next countingTree countingPrimitives .stored) .init sharedSecond = some w ∧
      Anchored w (acmeReceipt "r2" 5) ∧
      proofForReceiptForTenant countingTree countingPrimitives .stored w.db "r2" "acme" =
        .error (.failed "receipt not in batch (DB drift?)") := by
  decide +kernel

end SauronId.Anchor
