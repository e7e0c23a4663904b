import SauronId.Action.Machine
import SauronId.Receipt.Append

namespace SauronId.Action

open CryptoProtocol Lib Lib.Run Lib.HashChain Receipt

variable {C : Curve} {ι : Type}

def Phase.reserved : Phase C → Option (Option (ℤ × String) × (ℤ × String))
  | .readingMandate _ head position | .issuing _ head position _ => some (head, position)
  | _ => none

/-- A receipt is inserted under an id that is not in the table, while the head of
its tenant's chain is still the one its request had read. -/
def InsertsAtHead (S : Server) (w : World C ι) : Event ι → Prop
  | .advance i random =>
    match w.phase i with
    | .issuing t head _ _ =>
      t.ringOk = true → chainHead S.scan w.receipts t.tenantId = head ∧
        ∀ r ∈ w.receipts.rows, r.receiptId ≠ "ar_" ++ random
    | _ => True
  | _ => True

def Phase.inserting : Phase C → Option (Ticket × Option (ℤ × String))
  | .issuing t head _ _ => some (t, head)
  | _ => none

theorem insertsAtHead_advance {S : Server} {w : World C ι} {i : ι} {random : String} :
    (∀ p ∈ (w.phase i).inserting, p.1.ringOk = true →
      chainHead S.scan w.receipts p.1.tenantId = p.2 ∧
        ∀ r ∈ w.receipts.rows, r.receiptId ≠ "ar_" ++ random) ↔
      InsertsAtHead S w (.advance i random) := by
  cases hp : w.phase i <;> simp [InsertsAtHead, Phase.inserting, hp]

instance (S : Server) (w : World C ι) : (e : Event ι) → Decidable (InsertsAtHead S w e)
  | .advance _ _ => decidable_of_iff _ insertsAtHead_advance
  | .tick _ | .setDirectory _ | .recordNonce _ | .arrive _ _ => isTrue trivial

structure Chained (S : Server) (w : World C ι) : Prop where
  stored : w.receipts.rows.map .ofRow = w.issued.map (fun i ↦ i.2.2)
  intact : ∀ tenantId, Intact S.primitives w.receipts tenantId
  reserved : ∀ i head position, (w.phase i).reserved = some (head, position) →
    linkAfter S.primitives w.receipts head = .ok position

variable {S : Server} {w v : World C ι} {e : Event ι} {i : ι} {phase : Phase C}

theorem Quiet.reserved {head : Option (ℤ × String)} {position : ℤ × String}
    (h : Quiet S w i phase) (hr : phase.reserved = some (head, position)) :
    (w.phase i).reserved = some (head, position) ∨
      linkAfter S.primitives w.receipts head = .ok position := by
  cases h with
  | admission a hp =>
    match hn : a.next S.primitives S.anonRings w.clock w.directory with
    | .error _ | .ok (.inl _) =>
      rw [hn] at hr
      cases hr
    | .ok (.inr t) =>
      rw [hn, afterAdmission] at hr
      split_ifs at hr <;> cases hr
  | loadHead t head' hp =>
    cases hl : linkAfter S.primitives w.receipts head' with
    | error failure =>
      rw [hl] at hr
      cases hr
    | ok position' =>
      rw [hl] at hr
      cases hr
      exact .inr hl
  | readMandate t head' position' mandate hp =>
    cases hr
    rw [hp]
    exact .inl rfl
  | arrive | replayed | readHead | refuse => cases hr

theorem chained_init (S : Server) (clock : ℤ) (directory : Directory) :
    Chained S (World.init clock directory : World C ι) :=
  ⟨rfl, fun _ ↦ trivial, nofun⟩

variable [DecidableEq ι]

theorem Chained.move (h : Chained S w)
    (hphase : ∀ head position, phase.reserved = some (head, position) →
      linkAfter S.primitives w.receipts head = .ok position) :
    Chained S (w.move i phase) := by
  refine ⟨h.stored, h.intact, ?_⟩
  exact (Function.forall_update_iff w.phase (fun _ p ↦ ∀ head position,
    p.reserved = some (head, position) → linkAfter S.primitives w.receipts head = .ok position)).mpr
      ⟨hphase, fun j _ ↦ h.reserved j⟩

theorem Chained.store {t : Ticket} {receipt : ActionReceipt} {payload : List UInt8}
    (h : Chained S w) (hfresh : ∀ r ∈ w.receipts.rows, r.receiptId ≠ receipt.receiptId)
    (hp : nextChainPosition S.primitives S.scan w.receipts receipt.tenantId =
      .ok (receipt.seq, receipt.prevHash))
    (hs : receiptSigningPayload receipt = .ok payload) : Chained S (w.store i t receipt) := by
  have hmid : Chained S { w with
      receipts := w.receipts.replace (t.row receipt)
      issued := w.issued ++ [(i, t.envelope, receipt)] } := by
    refine ⟨?_, intact_replace h.intact hfresh hp hs,
      fun j head position hj ↦ linkAfter_replace hfresh (h.reserved j head position hj)⟩
    simp only [Table.replace_rows_of_fresh (r := t.row receipt) hfresh, List.map_append, h.stored]
    rfl
  exact hmid.move nofun

theorem Step.chained (hstep : Step S w e v) (h : Chained S w) (hok : InsertsAtHead S w e) :
    Chained S v := by
  cases hstep with
  | tick | setDirectory | recordNonce => exact ⟨h.stored, h.intact, h.reserved⟩
  | quiet e i phase hq =>
    exact h.move (fun head position hr ↦ (hq.reserved hr).elim (h.reserved i head position) id)
  | sweep i random t hp =>
    have hs : Chained S (w.sweep t.now) := ⟨h.stored, h.intact, h.reserved⟩
    exact hs.move nofun
  | claim i random t nonces hp hn =>
    have hs : Chained S { w with nonces := nonces, claimed := w.claimed ++ [(i, t.envelope)] } :=
      ⟨h.stored, h.intact, h.reserved⟩
    exact hs.move nofun
  | issue i random t head position mandate signature hp hr hs =>
    simp only [InsertsAtHead, hp] at hok
    obtain ⟨hhead, hfresh⟩ := hok hr
    obtain ⟨payload, hpayload, -⟩ := bind_eq_ok.mp hs
    refine h.store hfresh ?_ hpayload
    show nextChainPosition S.primitives S.scan w.receipts t.tenantId = .ok position
    rw [nextChainPosition, hhead]
    exact h.reserved i head position (by rw [hp]; rfl)

theorem chained_of_run {clock : ℤ} {directory : Directory} {es : List (Event ι)}
    (hrun : run (next S) (World.init clock directory) es = some w)
    (hok : Along (next S) (InsertsAtHead S) (World.init (C := C) clock directory) es) :
    Chained S w :=
  run_invariant (fun _ _ _ hw hinserts h ↦ (step_of_next h).chained hw hinserts)
    (chained_init S clock directory) hok hrun

theorem issued_receipts_verify {clock : ℤ} {directory : Directory} {es : List (Event ι)}
    (hrun : run (next S) (World.init clock directory) es = some w)
    (hok : Along (next S) (InsertsAtHead S) (World.init (C := C) clock directory) es)
    (tenantId : String) :
    verifyReceiptChain S.primitives S.scan w.receipts tenantId =
        .ok (w.issuedFor tenantId).length ∧
      (links S.primitives).Linked 1 "" (w.issuedFor tenantId) := by
  have h := chained_of_run hrun hok
  have hissued : w.issuedFor tenantId = tenantReceipts w.receipts tenantId := by
    rw [World.issuedFor, ← h.stored, tenantReceipts]
  rw [hissued]
  exact ⟨(h.intact tenantId).verifyReceiptChain, h.intact tenantId⟩

def oneAfterTheOther : List (Event Bool) :=
  [Event.arrive false agentPayment, .arrive true ringPayment] ++ advances false 6 "a" ++
    advances true 6 "b" ++ advances false 4 "a" ++ advances true 4 "b"

theorem issued_receipts_verify_both :
    ∃ w : World openCurve Bool,
      run (next openServer) (World.init 90 payers) oneAfterTheOther = some w ∧
      (w.issuedFor "acme").length = 2 ∧
      verifyReceiptChain countingPrimitives .stored w.receipts "acme" = .ok 2 := by
  obtain ⟨w, hw, hlen⟩ : ∃ w, run (next openServer) (World.init (C := openCurve) 90 payers)
      oneAfterTheOther = some w ∧ (w.issuedFor "acme").length = 2 := by
    decide +kernel
  have hverify := (issued_receipts_verify hw (by decide +kernel) "acme").1
  rw [hlen] at hverify
  exact ⟨w, hw, hlen, hverify⟩

def bothReadTheHead : List (Event Bool) :=
  [Event.arrive false agentPayment, .arrive true ringPayment] ++ advances false 7 "a" ++
    advances true 7 "b" ++ advances false 3 "a" ++ advances true 3 "b"

theorem issued_receipts_share_position :
    ∃ w : World openCurve Bool,
      run (next openServer) (World.init 90 payers) bothReadTheHead = some w ∧
      (w.issuedFor "acme").map ActionReceipt.seq = [1, 1] ∧
      verifyReceiptChain countingPrimitives .stored w.receipts "acme" =
        .error (.failed "receipt chain break for tenant acme: expected seq 2, found 1 (ar_b)") := by
  decide +kernel

end SauronId.Action
