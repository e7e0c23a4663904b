import SauronId.Anchor.Proof
import SauronId.Lib.Run

namespace SauronId.Anchor

open CryptoProtocol Lib Lib.Run Receipt

/-- The database, and for each batch the receipts it was sealed over. The program
does not store the latter: a batch row only has the two ends of its range. -/
structure World where
  db : Db
  leaves : String → List ReceiptRow

def World.init : World := ⟨.empty, fun _ ↦ []⟩

/-- A call of `anchor_pending_actions_for_tenant` is a `sealBatch` followed by
the `settleBatch` of the same batch; other events may come between the two, while the
providers publish. -/
inductive Event
  | insertReceipt (r : ReceiptRow)
  | insertAudit (a : AuditRow)
  | sealBatch (tenantId random : String) (now : ℤ)
  | settleBatch (anchorId : String) (pub : Publications)

def sealNext (M : MerkleScheme (List UInt8)) (P : Primitives) (E : Engine) (w : World)
    (tenantId random : String) (now : ℤ) : Except Failure World := do
  match ← sealBatch M P E w.db tenantId random now with
  | none => return w
  | some b =>
    let db ← persistBatch w.db b
    return ⟨db, Function.update w.leaves b.anchorId (pendingRows E w.db tenantId)⟩

def next (M : MerkleScheme (List UInt8)) (P : Primitives) (E : Engine) (w : World) :
    Event → Option World
  | .insertReceipt r =>
    (w.db.receipts.insert r).map (fun t ↦ { w with db := { w.db with receipts := t } })
  | .insertAudit a =>
    (w.db.auditLog.insert a).map (fun t ↦ { w with db := { w.db with auditLog := t } })
  | .sealBatch tenantId random now =>
    match sealNext M P E w tenantId random now with
    | .ok w => some w
    | .error _ => some w
  | .settleBatch anchorId pub =>
    ((w.db.anchors.get anchorId).filter (fun b ↦ b.anchorStatus = .pending)).map
      (fun b ↦ { w with db := settleBatch w.db b.tenantId anchorId pub })

inductive Step (M : MerkleScheme (List UInt8)) (P : Primitives) (E : Engine) (w : World) :
    Event → World → Prop
  | insertReceipt {r : ReceiptRow} {t : ReceiptTable} (ht : w.db.receipts.insert r = some t) :
      Step M P E w (.insertReceipt r) { w with db := { w.db with receipts := t } }
  | insertAudit {a : AuditRow} {t : Table AuditRow.auditId} (ht : w.db.auditLog.insert a = some t) :
      Step M P E w (.insertAudit a) { w with db := { w.db with auditLog := t } }
  | sealed {tenantId random : String} {now : ℤ} {b : AnchorRow} {t : Table AnchorRow.anchorId}
      (hb : sealBatch M P E w.db tenantId random now = .ok (some b))
      (ht : w.db.anchors.insert b = some t) :
      Step M P E w (.sealBatch tenantId random now)
        ⟨{ w.db with anchors := t },
          Function.update w.leaves b.anchorId (pendingRows E w.db tenantId)⟩
  | idle {tenantId random : String} {now : ℤ} : Step M P E w (.sealBatch tenantId random now) w
  | settled {anchorId : String} {pub : Publications} {b : AnchorRow} (hb : b ∈ w.db.anchors.rows)
      (hid : b.anchorId = anchorId) (hp : b.anchorStatus = .pending) :
      Step M P E w (.settleBatch anchorId pub)
        { w with db := settleBatch w.db b.tenantId anchorId pub }

variable {M : MerkleScheme (List UInt8)} {P : Primitives} {E : Engine} {w w' : World} {e : Event}

variable {b : AnchorRow}

theorem persistBatch_eq_ok {db db' : Db} :
    persistBatch db b = .ok db' ↔
      ∃ t, db.anchors.insert b = some t ∧ db' = { db with anchors := t } := by
  unfold persistBatch
  cases db.anchors.insert b <;> simp [eq_comm]

theorem step_of_next (h : next M P E w e = some w') : Step M P E w e w' := by
  cases e with
  | insertReceipt r =>
    obtain ⟨t, ht, rfl⟩ := Option.map_eq_some_iff.mp h
    exact .insertReceipt ht
  | insertAudit a =>
    obtain ⟨t, ht, rfl⟩ := Option.map_eq_some_iff.mp h
    exact .insertAudit ht
  | sealBatch tenantId random now =>
    simp only [next] at h
    split at h
    · rename_i u hu
      obtain rfl := Option.some.inj h
      obtain ⟨o, ho, hu⟩ := bind_eq_ok.mp hu
      cases o with
      | none =>
        obtain rfl := Except.ok.inj hu
        exact .idle
      | some b =>
        obtain ⟨db, hdb, hu⟩ := bind_eq_ok.mp hu
        obtain ⟨t, ht, rfl⟩ := persistBatch_eq_ok.mp hdb
        obtain rfl := Except.ok.inj hu
        exact .sealed ho ht
    · obtain rfl := Option.some.inj h
      exact .idle
  | settleBatch anchorId pub =>
    obtain ⟨b, hb, rfl⟩ := Option.map_eq_some_iff.mp h
    obtain ⟨hb, hp⟩ := Option.filter_eq_some_iff.mp hb
    obtain ⟨hb, hid⟩ := Table.get_eq_some.mp hb
    exact .settled hb hid (of_decide_eq_true hp)

variable {tenantId random : String}

theorem next_sealBatch {now : ℤ} {t : Table AnchorRow.anchorId}
    (hb : sealBatch M P E w.db tenantId random now = .ok (some b))
    (ht : w.db.anchors.insert b = some t) :
    next M P E w (.sealBatch tenantId random now) =
      some ⟨{ w.db with anchors := t },
        Function.update w.leaves b.anchorId (pendingRows E w.db tenantId)⟩ := by
  have hdb : persistBatch w.db b = .ok { w.db with anchors := t } :=
    persistBatch_eq_ok.mpr ⟨t, ht, rfl⟩
  simp only [next, sealNext, hb, bind, Except.bind, hdb, pure, Except.pure]

theorem next_settleBatch {pub : Publications} (hb : b ∈ w.db.anchors.rows)
    (hp : b.anchorStatus = .pending) :
    next M P E w (.settleBatch b.anchorId pub) =
      some { w with db := settleBatch w.db b.tenantId b.anchorId pub } := by
  simp only [next, Table.get_eq_some.mpr ⟨hb, rfl⟩, hp, Option.filter_some, decide_true, if_true,
    Option.map_some]

variable {db : Db}

/-- A whole call of the anchoring function is a run of its two events. -/
theorem run_of_anchorPendingActions {tenantId random anchorId : String} {now : ℤ}
    {pub : Publications}
    (h : anchorPendingActionsForTenant M P E w.db tenantId random now pub =
      .ok (some anchorId, db)) :
    ∃ u, run (next M P E) w [.sealBatch tenantId random now, .settleBatch anchorId pub] = some u ∧
      u.db = db := by
  obtain ⟨o, ho, h⟩ := bind_eq_ok.mp h
  cases o with
  | none => cases h
  | some b =>
    obtain ⟨db₁, hdb, h⟩ := bind_eq_ok.mp h
    obtain ⟨hid, hu⟩ := Prod.mk.inj (Except.ok.inj h)
    obtain rfl := Option.some.inj hid
    obtain ⟨rfl, hpending, -⟩ := sealBatch_eq_some ho
    obtain ⟨t, ht, rfl⟩ := persistBatch_eq_ok.mp hdb
    have hmem : b ∈ t.rows := by simp [(Table.insert_eq_some.mp ht).2]
    exact ⟨_, run_cons.mpr ⟨_, next_sealBatch ho ht, run_cons.mpr
      ⟨_, next_settleBatch hmem hpending, rfl⟩⟩, hu⟩

/-- Every stored batch commits to the receipts it was sealed over, and those are
receipts of its tenant. -/
def Committed (M : MerkleScheme (List UInt8)) (P : Primitives) (w : World) : Prop :=
  ∀ b ∈ w.db.anchors.rows, SealedOver M P b (w.leaves b.anchorId) ∧
    ∀ r ∈ w.leaves b.anchorId, r ∈ w.db.receipts.rows ∧ r.tenantId = b.tenantId

def Rebuilt (E : Engine) (w : World) : Prop :=
  ∀ b ∈ w.db.anchors.rows, b.tenantId ≠ "*" →
    rangeRows E w.db b.tenantId b = w.leaves b.anchorId

def OutsideBatches (w : World) : Event → Prop
  | .insertReceipt r => ∀ b ∈ w.db.anchors.rows, b.tenantId = r.tenantId →
      ¬ (b.first ≤ position r ∧ position r ≤ b.last)
  | _ => True

theorem Step.committed (h : Step M P E w e w') (hw : Committed M P w) : Committed M P w' := by
  cases h with
  | insertReceipt ht =>
    intro b hb
    obtain ⟨hs, hl⟩ := hw b hb
    refine ⟨hs, fun r hr ↦ ⟨?_, (hl r hr).2⟩⟩
    simp [(Table.insert_eq_some.mp ht).2, (hl r hr).1]
  | insertAudit ht => exact hw
  | sealed hb ht =>
    obtain ⟨hfresh, hrows⟩ := Table.insert_eq_some.mp ht
    obtain ⟨htenant, -, -, -, hs⟩ := sealBatch_eq_some hb
    intro c hc
    simp only [hrows, List.mem_append, List.mem_singleton] at hc
    rcases hc with hc | rfl
    · simp only [Function.update_of_ne (hfresh c hc)]
      exact hw c hc
    · simp only [Function.update_self]
      exact ⟨hs, fun r hr ↦ ⟨(pendingRows_subset hr).1, (pendingRows_subset hr).2.1.trans htenant.symm⟩⟩
  | idle => exact hw
  | settled hb hid hp =>
    intro c hc
    obtain ⟨b, hb, hbody, -⟩ := body_of_mem_settleBatch hc
    obtain ⟨hid, htenant, -⟩ := AnchorRow.eq_of_body_eq hbody
    obtain ⟨hs, hl⟩ := hw b hb
    simp only [hid, htenant]
    exact ⟨hs.of_body hbody, hl⟩

theorem committed_of_run {es : List Event} (h : run (next M P E) .init es = some w) :
    Committed M P w :=
  run_invariant (fun _ _ _ hw _ hs ↦ (step_of_next hs).committed hw)
    (fun b hb ↦ by cases hb) (along_true _ es) h

theorem rangeRows_eq {tenantId : String} {rows : List ReceiptRow} (h : tenantId ≠ "*")
    (hsort : rows.Pairwise (fun r s ↦ position r < position s))
    (hmem : ∀ r, r ∈ rows ↔ r ∈ db.receipts.rows ∧ r.tenantId = tenantId ∧
      b.first ≤ position r ∧ position r ≤ b.last) :
    rangeRows E db tenantId b = rows :=
  Scan.eq_of_pairwise_lt rangeRows_sorted hsort (fun r ↦ (mem_rangeRows h).trans (hmem r).symm)

theorem rangeRows_of_sealBatch {now : ℤ}
    (hb : sealBatch M P E db tenantId random now = .ok (some b)) (h : tenantId ≠ "*") :
    rangeRows E db tenantId b = pendingRows E db tenantId := by
  obtain ⟨-, -, -, -, hs⟩ := sealBatch_eq_some hb
  obtain ⟨f, hf, hfirst⟩ := Option.map_eq_some_iff.mp hs.first
  obtain ⟨l, hl, hlast⟩ := Option.map_eq_some_iff.mp hs.last
  refine rangeRows_eq h pendingRows_sorted (fun r ↦ ?_)
  rw [mem_pendingRows hl, ← hfirst, ← hlast]
  constructor
  · rintro ⟨hr, ht, hw, hle⟩
    exact ⟨hr, ht, first_pendingRows_le hf hr ht hw, hle⟩
  · rintro ⟨hr, ht, hge, hle⟩
    have hfw := (pendingRows_subset (List.mem_of_mem_head? hf)).2.2
    exact ⟨hr, ht, hfw.trans_le hge, hle⟩

theorem rangeRows_insert {tenantId : String} {r : ReceiptRow} {t : ReceiptTable}
    (ht : db.receipts.insert r = some t) (h : tenantId ≠ "*")
    (hout : tenantId = r.tenantId → ¬ (b.first ≤ position r ∧ position r ≤ b.last)) :
    rangeRows E { db with receipts := t } tenantId b = rangeRows E db tenantId b := by
  refine rangeRows_eq h rangeRows_sorted (fun s ↦ ?_)
  simp only [mem_rangeRows h, (Table.insert_eq_some.mp ht).2, List.mem_append, List.mem_singleton]
  constructor
  · rintro ⟨hs, hrest⟩
    exact ⟨.inl hs, hrest⟩
  · rintro ⟨hs | rfl, hten, hrange⟩
    · exact ⟨hs, hten, hrange⟩
    · exact absurd hrange (hout hten.symm)

theorem Step.rebuilt (h : Step M P E w e w') (hok : OutsideBatches w e) (hw : Rebuilt E w) :
    Rebuilt E w' := by
  cases h with
  | insertReceipt ht =>
    intro b hb hstar
    rw [← hw b hb hstar]
    exact rangeRows_insert ht hstar (hok b hb)
  | insertAudit ht => exact hw
  | sealed hb ht =>
    obtain ⟨hfresh, hrows⟩ := Table.insert_eq_some.mp ht
    obtain ⟨rfl, -⟩ := sealBatch_eq_some hb
    intro c hc hstar
    simp only [hrows, List.mem_append, List.mem_singleton] at hc
    rcases hc with hc | rfl
    · simp only [Function.update_of_ne (hfresh c hc)]
      exact hw c hc hstar
    · simp only [Function.update_self]
      exact rangeRows_of_sealBatch hb hstar
  | idle => exact hw
  | settled hb hid hp =>
    intro c hc hstar
    obtain ⟨b, hb, hbody, -⟩ := body_of_mem_settleBatch hc
    obtain ⟨hid, htenant, hfirst, hlast, -⟩ := AnchorRow.eq_of_body_eq hbody
    rw [htenant] at hstar
    simp only [hid, htenant, ← hw b hb hstar]
    refine rangeRows_eq hstar rangeRows_sorted (fun r ↦ ?_)
    rw [mem_rangeRows hstar, hfirst, hlast]
    rfl

theorem rebuilt_of_run {es : List Event} (h : run (next M P E) .init es = some w)
    (hok : Along (next M P E) OutsideBatches .init es) : Rebuilt E w :=
  run_invariant (fun _ _ _ hw hok hs ↦ (step_of_next hs).rebuilt hok hw)
    (fun b hb ↦ by cases hb) hok h

end SauronId.Anchor
