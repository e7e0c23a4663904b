import SauronId.Anchor.Rebuild

namespace SauronId.Anchor

open CryptoProtocol Lib Lib.Run Receipt

def Anchored (w : World) (r : ReceiptRow) : Prop :=
  ∃ b ∈ w.db.anchors.rows, b.tenantId = r.tenantId ∧ b.anchorStatus = .submitted ∧
    r ∈ w.leaves b.anchorId

instance (w : World) (r : ReceiptRow) : Decidable (Anchored w r) :=
  inferInstanceAs (Decidable (∃ b ∈ w.db.anchors.rows, _))

/-- The watermark may come to stand at the end of this batch. -/
def AnchorRow.live (b : AnchorRow) : Prop := b.anchorStatus = .submitted ∨ b.anchorStatus = .pending

instance (b : AnchorRow) : Decidable b.live := inferInstanceAs (Decidable (_ ∨ _))

def AfterBatches (w : World) : Event → Prop
  | .insertReceipt r => toLex (0, "") < position r ∧
      ∀ b ∈ w.db.anchors.rows, b.tenantId = r.tenantId → b.live → b.last < position r
  | _ => True

instance (w : World) : (e : Event) → Decidable (AfterBatches w e)
  | .insertReceipt r => inferInstanceAs (Decidable (toLex (0, "") < position r ∧
      ∀ b ∈ w.db.anchors.rows, b.tenantId = r.tenantId → b.live → b.last < position r))
  | .insertAudit _ => isTrue trivial
  | .sealBatch _ _ _ => isTrue trivial
  | .settleBatch _ _ => isTrue trivial

/-- No receipt below the end of a live batch is left out. -/
structure Covered (w : World) : Prop where
  positive : ∀ r ∈ w.db.receipts.rows, toLex (0, "") < position r
  covered : ∀ b ∈ w.db.anchors.rows, b.live → ∀ r ∈ w.db.receipts.rows, r.tenantId = b.tenantId →
    position r ≤ b.last → r ∈ w.leaves b.anchorId ∨ Anchored w r

variable {M : MerkleScheme (List UInt8)} {P : Primitives} {E : Engine} {w w' : World} {e : Event}
  {tenantId : String} {r : ReceiptRow}

theorem watermark_cases (E : Engine) (db : Db) (tenantId : String) :
    watermark E db tenantId = (0, "") ∨
      ∃ b ∈ db.anchors.rows, b.tenantId = tenantId ∧ b.anchorStatus = .submitted ∧
        toLex (watermark E db tenantId) = b.last ∧
        ∀ c ∈ db.anchors.rows, c.tenantId = tenantId → c.anchorStatus = .submitted →
          c.toCreatedAt ≤ b.toCreatedAt := by
  unfold watermark
  cases h : E.anchors.last (fun b ↦ b.tenantId = tenantId ∧ b.anchorStatus = .submitted)
    AnchorRow.toCreatedAt db.anchors.rows with
  | none => exact .inl rfl
  | some b =>
    obtain ⟨hb, hp, hmax⟩ := Scan.last_eq_some h
    simp only [decide_eq_true_eq] at hp hmax
    exact .inr ⟨b, hb, hp.1, hp.2, rfl, fun c hc ht hs ↦ hmax c hc ⟨ht, hs⟩⟩

theorem Covered.anchored_of_le_watermark (hw : Covered w) (hr : r ∈ w.db.receipts.rows)
    (ht : r.tenantId = tenantId) (hle : position r ≤ toLex (watermark E w.db tenantId)) :
    Anchored w r := by
  rcases watermark_cases E w.db tenantId with h0 | ⟨b, hb, hten, hsub, hlast, -⟩
  · rw [h0] at hle
    exact absurd hle (hw.positive r hr).not_ge
  · rcases hw.covered b hb (.inl hsub) r hr (ht.trans hten.symm) (hlast ▸ hle) with hl | ha
    · exact ⟨b, hb, hten.trans ht.symm, hsub, hl⟩
    · exact ha

theorem Anchored.of_sealed {b : AnchorRow} {t : Table AnchorRow.anchorId} {rows : List ReceiptRow}
    (h : Anchored w r) (ht : w.db.anchors.insert b = some t) :
    Anchored ⟨{ w.db with anchors := t }, Function.update w.leaves b.anchorId rows⟩ r := by
  obtain ⟨hfresh, hrows⟩ := Table.insert_eq_some.mp ht
  obtain ⟨c, hc, hten, hsub, hl⟩ := h
  refine ⟨c, by simp [hrows, hc], hten, hsub, ?_⟩
  simpa only [Function.update_of_ne (hfresh c hc)] using hl

theorem Anchored.of_settled {b : AnchorRow} {pub : Publications} (h : Anchored w r)
    (hb : b ∈ w.db.anchors.rows) (hp : b.anchorStatus = .pending) :
    Anchored { w with db := settleBatch w.db b.tenantId b.anchorId pub } r := by
  obtain ⟨c, hc, hten, hsub, hl⟩ := h
  have hne : c.anchorId ≠ b.anchorId := by
    intro he
    rw [w.db.anchors.eq_of_key hc hb he, hp] at hsub
    cases hsub
  exact ⟨c, mem_settleBatch.mpr ⟨c, hc, (if_neg hne).symm⟩, hten, hsub, hl⟩

theorem Step.covered (h : Step M P E w e w') (hok : AfterBatches w e) (hw : Covered w) :
    Covered w' := by
  cases h with
  | @insertReceipt r t ht =>
    obtain ⟨-, hrows⟩ := Table.insert_eq_some.mp ht
    refine ⟨fun s hs ↦ ?_, fun b hb hlive s hs hten hle ↦ ?_⟩
    · simp only [hrows, List.mem_append, List.mem_singleton] at hs
      rcases hs with hs | rfl
      · exact hw.positive s hs
      · exact hok.1
    · simp only [hrows, List.mem_append, List.mem_singleton] at hs
      rcases hs with hs | rfl
      · exact hw.covered b hb hlive s hs hten hle
      · exact absurd hle (hok.2 b hb hten.symm hlive).not_ge
  | insertAudit ht => exact ⟨hw.positive, hw.covered⟩
  | @sealed tenantId random now b t hb ht =>
    obtain ⟨hfresh, hrows⟩ := Table.insert_eq_some.mp ht
    obtain ⟨rfl, -, -, -, hs⟩ := sealBatch_eq_some hb
    refine ⟨hw.positive, fun c hc hlive r hr hten hle ↦ ?_⟩
    simp only [hrows, List.mem_append, List.mem_singleton] at hc
    rcases hc with hc | rfl
    · simp only [Function.update_of_ne (hfresh c hc)]
      exact (hw.covered c hc hlive r hr hten hle).imp_right (fun ha ↦ ha.of_sealed ht)
    · simp only [Function.update_self]
      obtain ⟨l, hl, hlast⟩ := Option.map_eq_some_iff.mp hs.last
      rcases lt_or_ge (toLex (watermark E w.db c.tenantId)) (position r) with hlt | hge
      · exact .inl ((mem_pendingRows hl).mpr ⟨hr, hten, hlt, hlast ▸ hle⟩)
      · exact .inr ((hw.anchored_of_le_watermark hr hten hge).of_sealed ht)
  | idle => exact hw
  | @settled anchorId pub b hb hid hp =>
    subst hid
    refine ⟨hw.positive, fun c hc hlive r hr hten hle ↦ ?_⟩
    obtain ⟨d, hd, hbody, hother⟩ := body_of_mem_settleBatch hc
    obtain ⟨hid, htenant, -, hlast, -⟩ := AnchorRow.eq_of_body_eq hbody
    have hdlive : d.live := by
      by_cases he : d.anchorId = b.anchorId
      · rw [w.db.anchors.eq_of_key hd hb he]
        exact .inr hp
      · exact hother he ▸ hlive
    simp only [hid]
    exact (hw.covered d hd hdlive r hr (hten.trans htenant) (hlast ▸ hle)).imp_right
      (fun ha ↦ ha.of_settled hb hp)

theorem Covered.init : Covered .init where
  positive r hr := by cases hr
  covered b hb := by cases hb

theorem covered_of_run {es : List Event} (h : run (next M P E) .init es = some w)
    (hok : Along (next M P E) AfterBatches .init es) : Covered w :=
  run_invariant (fun _ _ _ hw hok hs ↦ (step_of_next hs).covered hok hw)
    .init hok h

theorem pendingRows_eq_nil (h : pendingRows E w.db tenantId = []) (hr : r ∈ w.db.receipts.rows)
    (ht : r.tenantId = tenantId) : position r ≤ toLex (watermark E w.db tenantId) := by
  by_contra hlt
  have hmem : r ∈ E.receipts.select (afterWatermark tenantId (watermark E w.db tenantId)) position
      w.db.receipts.rows :=
    Scan.mem_select.mpr ⟨hr, afterWatermark_iff.mpr ⟨ht, not_le.mp hlt⟩⟩
  rcases List.take_eq_nil_iff.mp h with h0 | hnil
  · exact absurd h0 (by decide)
  · rw [hnil] at hmem
    cases hmem

/-- When receipts only arrive after the ends of the live batches, an anchoring
call that finds nothing to do leaves no receipt of the tenant unanchored. -/
theorem nothing_pending_all_anchored {es : List Event} {random : String} {now : ℤ}
    (hrun : run (next M P E) .init es = some w)
    (hok : Along (next M P E) AfterBatches .init es)
    (hnone : sealBatch M P E w.db tenantId random now = .ok none)
    (hr : r ∈ w.db.receipts.rows) (ht : r.tenantId = tenantId) : Anchored w r :=
  (covered_of_run hrun hok).anchored_of_le_watermark hr ht
    (pendingRows_eq_nil (sealBatch_eq_none.mp hnone) hr ht)

def laterReceipt : List Event :=
  [Event.insertReceipt (acmeReceipt "r2" 5)] ++ anchorCall "one" 6 ++
    [Event.insertReceipt (acmeReceipt "r1" 7)] ++ anchorCall "two" 8

theorem nothing_pending_all_anchored_two :
    ∃ w, run (next countingTree countingPrimitives .stored) .init laterReceipt = some w ∧
      sealBatch countingTree countingPrimitives .stored w.db "acme" "three" 9 = .ok none ∧
      acmeReceipt "r1" 7 ∈ w.db.receipts.rows ∧ Anchored w (acmeReceipt "r1" 7) := by
  obtain ⟨w, hw, hnone, hr⟩ : ∃ w, run (next countingTree countingPrimitives .stored) .init
      laterReceipt = some w ∧
      sealBatch countingTree countingPrimitives .stored w.db "acme" "three" 9 = .ok none ∧
      acmeReceipt "r1" 7 ∈ w.db.receipts.rows := by decide +kernel
  exact ⟨w, hw, hnone, hr, nothing_pending_all_anchored hw (by decide +kernel) hnone hr rfl⟩

def sameSecond : List Event :=
  [Event.insertReceipt (acmeReceipt "r2" 5)] ++ anchorCall "one" 6 ++
    [Event.insertReceipt (acmeReceipt "r1" 5)]

theorem nothing_pending_receipt_unanchored :
    ∃ w, run (next countingTree countingPrimitives .stored) .init sameSecond = some w ∧
      sealBatch countingTree countingPrimitives .stored w.db "acme" "two" 9 = .ok none ∧
      acmeReceipt "r1" 5 ∈ w.db.receipts.rows ∧ ¬ Anchored w (acmeReceipt "r1" 5) := by
  decide +kernel

end SauronId.Anchor
