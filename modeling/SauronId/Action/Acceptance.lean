import SauronId.Action.Progress

namespace SauronId.Action

open CryptoProtocol Lib Lib.Encoding Receipt

variable {C : Curve} {ι : Type}

section Alone

variable [DecidableEq ι] {S : Server} {i : ι} {random : String}

variable {w : World C ι}

theorem drive_eq_of_le {n m : ℕ} (hi : w.phase i ≠ .idle) (hn : (w.phase i).rank < n) (hm : n ≤ m) :
    drive S i random m w = drive S i random n w := by
  induction n generalizing m w with
  | zero => exact absurd hn (Nat.not_lt_zero _)
  | succ n ih =>
    obtain ⟨m, rfl⟩ := Nat.exists_eq_add_of_lt (Nat.lt_of_lt_of_le n.lt_succ_self hm)
    rw [drive, drive]
    cases h : w.advance S i random with
    | none => rfl
    | some v =>
      obtain ⟨hv, hlt⟩ := below_advance h
      exact ih hv (lt_of_lt_of_le hlt (Nat.lt_succ_iff.mp hn)) (Nat.le_add_right _ _)

/-- The request `i` is accepted when no other one overtakes it. -/
def Accepts (S : Server) (i : ι) (random : String) (w : World C ι) : Prop :=
  ∃ receipt, (drive S i random ((w.phase i).rank + 1) w).phase i = .finished (.accepted receipt)

theorem accepts_of_advance {w v : World C ι} (h : w.advance S i random = some v) :
    Accepts S i random w ↔ Accepts S i random v := by
  obtain ⟨hv, hlt⟩ := below_advance h
  unfold Accepts
  rw [drive, h]
  dsimp only
  rw [drive_eq_of_le hv (Nat.lt_succ_self _) (Nat.succ_le_of_lt hlt)]

theorem accepts_finished {outcome : Outcome} (hp : w.phase i = .finished outcome) :
    Accepts S i random w ↔ ∃ receipt, outcome = .accepted receipt := by
  have h : w.advance S i random = none := by rw [World.advance, hp]
  simp only [Accepts, drive, h, hp, Phase.finished.injEq]

theorem accepts_refused {rejection : Rejection} (hp : w.phase i = .finished (.rejected rejection)) :
    ¬ Accepts S i random w := by
  rw [accepts_finished hp]
  exact nofun

theorem accepts_failed {failure : Failure} (hp : w.phase i = .finished (.ofFailure failure)) :
    ¬ Accepts S i random w := by
  rw [accepts_finished hp]
  cases failure <;> exact nofun

theorem move_move (w : World C ι) (p q : Phase C) : (w.move i p).move i q = w.move i q := by
  simp only [World.move, Function.update_idem]

theorem accepts_admitting {a : Admission C} :
    Accepts S i random (w.move i (.admitting a)) ↔
      ∃ r, a.next S.primitives S.anonRings w.clock w.directory = .ok r ∧
        Accepts S i random (w.move i (afterAdmission (.ok r))) := by
  have h : (w.move i (.admitting a)).advance S i random = some
      (w.move i (afterAdmission (a.next S.primitives S.anonRings w.clock w.directory))) := by
    rw [World.advance, phase_move]
    exact congrArg some (move_move w _ _)
  rw [accepts_of_advance h]
  cases a.next S.primitives S.anonRings w.clock w.directory with
  | error rejection =>
    simp only [reduceCtorEq, false_and, exists_false, iff_false]
    exact accepts_refused (phase_move w i _)
  | ok r => simp only [Except.ok.injEq, exists_eq_left']

variable {t : Ticket}

theorem accepts_issuing (ht : t.ringOk = true) {head : Option (ℤ × String)} {position : ℤ × String}
    {mandate : String} :
    Accepts S i random (w.move i (.issuing t head position mandate)) ↔
      ∃ signature,
        signReceipt S.primitives S.jwtSecret (t.draft random position mandate) = .ok signature := by
  have h : (w.move i (.issuing t head position mandate)).advance S i random = some
      ((w.move i (.issuing t head position mandate)).issue S i t
        (t.draft random position mandate)) := by
    rw [World.advance, phase_move]
  rw [accepts_of_advance h, World.issue]
  cases hs : signReceipt S.primitives S.jwtSecret (t.draft random position mandate) with
  | error failure =>
    simp only [reduceCtorEq, exists_false, iff_false]
    exact accepts_failed (phase_move _ i _)
  | ok signature =>
    simp only [ht, if_true, Except.ok.injEq, exists_eq', iff_true]
    exact (accepts_finished (phase_move _ i _)).mpr ⟨_, rfl⟩

/-- What issuing the receipt still needs: the end of the chain hashes, and the
receipt after it can be signed. -/
def Ticket.Issuable (S : Server) (t : Ticket) (dir : Directory) (receipts : ReceiptTable)
    (random : String) : Prop :=
  ∃ position, nextChainPosition S.primitives S.scan receipts t.tenantId = .ok position ∧
    ∃ signature, signReceipt S.primitives S.jwtSecret
      (t.draft random position (t.ownerMandateHash dir)) = .ok signature

theorem accepts_readingHead (ht : t.ringOk = true) :
    Accepts S i random (w.move i (.readingHead t)) ↔
      t.Issuable S w.directory w.receipts random := by
  have hread : (w.move i (.readingHead t)).advance S i random = some
      (w.move i (.loadingHead t (chainHead S.scan w.receipts t.tenantId))) := by
    rw [World.advance, phase_move]
    exact congrArg some (move_move w _ _)
  have hload : (w.move i (.loadingHead t (chainHead S.scan w.receipts t.tenantId))).advance S i
      random = some (w.move i (afterLink t (chainHead S.scan w.receipts t.tenantId)
        (nextChainPosition S.primitives S.scan w.receipts t.tenantId))) := by
    rw [World.advance, phase_move]
    exact congrArg some (move_move w _ _)
  rw [accepts_of_advance hread, accepts_of_advance hload, Ticket.Issuable]
  cases nextChainPosition S.primitives S.scan w.receipts t.tenantId with
  | error failure =>
    simp only [reduceCtorEq, false_and, exists_false, iff_false]
    exact accepts_failed (phase_move w i _)
  | ok position =>
    simp only [Except.ok.injEq, exists_eq_left']
    have hmandate : (w.move i (afterLink t (chainHead S.scan w.receipts t.tenantId)
        (.ok position))).advance S i random = some (w.move i (.issuing t
          (chainHead S.scan w.receipts t.tenantId) position (t.ownerMandateHash w.directory))) := by
      rw [World.advance, phase_move]
      exact congrArg some (move_move w _ _)
    rw [accepts_of_advance hmandate, accepts_issuing ht]

theorem accepts_claim (ht : t.ringOk = true) :
    Accepts S i random (w.claim i t) ↔
      (∀ row ∈ w.nonces.rows, row.nonce ≠ t.nonceRow.nonce) ∧
        t.Issuable S w.directory w.receipts random := by
  unfold World.claim
  cases h : w.nonces.insert t.nonceRow with
  | none =>
    obtain ⟨row, hrow, hkey⟩ := Table.insert_eq_none.mp h
    exact iff_of_false (accepts_refused (phase_move w i _)) (fun hfree ↦ hfree.1 row hrow hkey)
  | some nonces =>
    exact (accepts_readingHead ht).trans
      (and_iff_right (Table.insert_eq_some.mp h).1).symm

theorem accepts_sweeping (ht : t.ringOk = true) :
    Accepts S i random (w.move i (.sweeping t)) ↔
      (∀ row ∈ w.nonces.rows, row.nonce = t.envelope.nonceKey → row.expiresAt < t.now) ∧
        t.Issuable S w.directory w.receipts random := by
  have hsweep : (w.move i (.sweeping t)).advance S i random =
      some ((w.sweep t.now).move i (.claiming t)) := by
    rw [World.advance, phase_move]
    exact congrArg some (move_move (w.sweep t.now) _ _)
  have hclaim : ((w.sweep t.now).move i (.claiming t)).advance S i random =
      some (((w.sweep t.now).move i (.claiming t)).claim i t) := by
    rw [World.advance, phase_move]
  rw [accepts_of_advance hsweep, accepts_of_advance hclaim, accepts_claim ht]
  refine and_congr_left (fun _ ↦ ?_)
  simp only [World.move, World.sweep, Table.mem_deleteWhere, decide_eq_false_iff_not, and_imp]
  refine forall₂_congr (fun row _ ↦ ?_)
  rw [Ticket.nonceRow, ne_eq, not_imp_not]

end Alone

section Framed

def receiptFields (r : ActionReceipt) : List (String × String) :=
  signedFields r ++ [("seq", toString r.seq), ("prev_hash", r.prevHash),
    ("owner_mandate_hash", r.ownerMandateHash)]

def Framed (r : ActionReceipt) : Prop := ∀ f ∈ receiptFields r, (bytes f.2).length < 2 ^ 32

theorem length_name_lt (r : ActionReceipt) {f : String × String} (hf : f ∈ receiptFields r) :
    (bytes f.1).length < 2 ^ 32 := by
  have hnames : ∀ n ∈ (receiptFields r).map Prod.fst, (bytes n).length < 2 ^ 32 := by
    simp only [receiptFields, signedFields, List.cons_append, List.nil_append, List.map_cons,
      List.map_nil]
    decide
  exact hnames f.1 (List.mem_map_of_mem hf)

variable {r : ActionReceipt}

theorem Framed.canonicalFields (h : Framed r) (domain : String) (fields : List (String × String))
    (hdomain : (bytes domain).length < 2 ^ 32)
    (hsub : fields ⊆ receiptFields r) : ∃ w, canonicalFields domain fields = .ok w :=
  canonicalFields_isOk.mpr
    ⟨hdomain, fun f hf ↦ ⟨length_name_lt r (hsub hf), h f (hsub hf)⟩⟩

theorem Framed.chainPayload (h : Framed r) : ∃ w, chainPayload r = .ok w := by
  obtain ⟨v, hv⟩ := h.canonicalFields "sauron.agent-action-receipt-chain.v1" (chainFields r)
    (by decide) (by simp [chainFields, receiptFields, signedFields])
  unfold Receipt.chainPayload
  split_ifs with hm
  · exact ⟨v, bind_eq_ok.mpr ⟨v, hv, rfl⟩⟩
  · obtain ⟨w, hw⟩ := h.canonicalFields "sauron.agent-action-receipt-chain.v2"
      (chainFields r ++ [("owner_mandate_hash", r.ownerMandateHash)]) (by decide)
      (by simp [chainFields, receiptFields, signedFields])
    exact ⟨w, bind_eq_ok.mpr ⟨v, hv, hw⟩⟩

theorem Framed.signReceipt (h : Framed r) (P : Primitives) (jwtSecret : List UInt8) :
    ∃ signature, signReceipt P jwtSecret r = .ok signature := by
  have hpayload : ∃ w, receiptSigningPayload r = .ok w := by
    unfold receiptSigningPayload
    split_ifs
    · exact h.canonicalFields _ _ (by decide) (List.Subset.refl _)
    · exact h.canonicalFields _ _ (by decide) (by simp [receiptFields])
    · exact h.canonicalFields _ _ (by decide) (List.subset_append_left _ _)
  obtain ⟨w, hw⟩ := hpayload
  exact ⟨_, bind_eq_ok.mpr ⟨w, hw, rfl⟩⟩

theorem nextChainPosition_of_framed {P : Primitives} {scan : Scan ReceiptRow} {t : ReceiptTable}
    (h : ∀ row ∈ t.rows, Framed (.ofRow row)) (tenantId : String) :
    ∃ position, nextChainPosition P scan t tenantId = .ok position := by
  unfold nextChainPosition chainHead
  cases hlast : scan.last (fun r ↦ r.tenantId = tenantId) ReceiptRow.seq t.rows with
  | none => exact ⟨_, rfl⟩
  | some row =>
    have hrow := (Scan.last_eq_some hlast).1
    obtain ⟨payload, hpayload⟩ := (h row hrow).chainPayload
    rw [Option.map_some, linkAfter, loadReceipt_of_mem hrow]
    split_ifs
    · exact ⟨_, rfl⟩
    · exact ⟨_, bind_eq_ok.mpr ⟨_, bind_eq_ok.mpr ⟨payload, hpayload, rfl⟩, rfl⟩⟩

theorem Ticket.issuable_of_framed {S : Server} {t : Ticket} {dir : Directory}
    {receipts : ReceiptTable} {random : String}
    (hstored : ∀ row ∈ receipts.rows, Framed (.ofRow row))
    (hnew : ∀ position, nextChainPosition S.primitives S.scan receipts t.tenantId = .ok position →
      Framed (t.draft random position (t.ownerMandateHash dir))) :
    t.Issuable S dir receipts random := by
  obtain ⟨position, hposition⟩ := nextChainPosition_of_framed hstored t.tenantId
  exact ⟨position, hposition, (hnew position hposition).signReceipt _ _⟩

end Framed

end SauronId.Action
