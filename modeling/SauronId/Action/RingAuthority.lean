import SauronId.Action.Acceptance

namespace SauronId.Action

open CryptoProtocol Lib Lib.Encoding Lib.Text Receipt

variable {C : Curve} {ι : Type}

def AnonActionEnvelope.rings (env : AnonActionEnvelope) : List String :=
  env.ringId :: env.alsoRingIds

def AnonActionProof.signatures (proof : AnonActionProof) : List RingSignature :=
  proof.ringSignature :: proof.alsoRingSignatures

/-- The ring exists in the tenant and its rule allows the action and the
configuration. -/
def Permits (dir : Directory) (tenantId action configDigest ringId : String) : Prop :=
  ∃ row rule, dir.rings.get (tenantId, ringId) = some row ∧ row.rule = .ok rule ∧
    evaluateRule rule action configDigest = none

/-- The ring has members, and one of them signed this very envelope. -/
def Vouches (C : Curve) (dir : Directory) (env : AnonActionEnvelope) (ringId : String)
    (signature : RingSignature) : Prop :=
  ∃ members, listMemberPoints C dir env.tenantId ringId = .ok members ∧ members ≠ [] ∧
    C.verify (bytes (canonicalAnonEnvelopeJson env)) members signature = true

def authority (dir : Directory) (tenantId : String) (rings : List String) :
    Set (String × String) :=
  {x | ∀ r ∈ rings, Permits dir tenantId x.1 x.2 r}

theorem authority_anti (dir : Directory) (tenantId : String) {fewer rings : List String}
    (h : fewer ⊆ rings) : authority dir tenantId rings ⊆ authority dir tenantId fewer :=
  fun _ hx r hr ↦ hx r (h hr)

variable {dir : Directory} {env : AnonActionEnvelope} {c : RingCheck} {rule : RingRule}

theorem admitRing_eq_ok {version : ℤ} :
    admitRing dir env c = .ok (rule, version) ↔
      ∃ row, dir.rings.get (env.tenantId, c.ringId) = some row ∧ row.rule = .ok rule ∧
        evaluateRule rule env.action env.configDigest = none ∧ row.version = version := by
  unfold admitRing
  cases dir.rings.get (env.tenantId, c.ringId) with
  | none => simp
  | some row =>
    cases hrule : row.rule with
    | error e => simp [hrule]
    | ok found =>
      simp only [Option.some.injEq, exists_eq_left', hrule, Except.ok.injEq]
      constructor
      · intro h
        split at h
        · cases h
        · cases h
          exact ⟨rfl, ‹_›, rfl⟩
      · rintro ⟨rfl, heval, rfl⟩
        rw [heval]

theorem checkMembers_eq_ok :
    checkMembers C dir env c = .ok () ↔ Vouches C dir env c.ringId c.signature := by
  unfold checkMembers Vouches
  cases listMemberPoints C dir env.tenantId c.ringId with
  | error e => simp
  | ok members =>
    simp only [List.isEmpty_iff, Except.ok.injEq, exists_eq_left']
    split_ifs with hempty hverify
    · simp [hempty]
    · simp [hempty, hverify]
    · simp [hverify]

theorem checkUsage_eq_ok {keyImageHex : String} {budgets : RingBudgets} :
    checkUsage dir env keyImageHex budgets = .ok () ↔
      budgetExceeded (getUsage dir env.tenantId env.ringId keyImageHex) budgets = none := by
  unfold checkUsage
  cases budgetExceeded (getUsage dir env.tenantId env.ringId keyImageHex) budgets <;> simp

theorem checkAlsoRings_eq_ok {ringId : String} {before rest : List String}
    (hbefore : (ringId :: before).Nodup) :
    checkAlsoRings ringId before rest = .ok () ↔
      (∀ r ∈ rest, trim r ≠ "") ∧ (ringId :: (before ++ rest)).Nodup := by
  induction rest generalizing before with
  | nil => simpa [checkAlsoRings] using hbefore
  | cons r rest ih =>
    rw [checkAlsoRings, List.forall_mem_cons]
    split_ifs with hblank hdup
    · simp [hblank]
    · refine iff_of_false nofun (fun h ↦ ?_)
      rw [← List.cons_append, List.nodup_append'] at h
      exact h.2.2.2 (List.mem_cons.mpr hdup) List.mem_cons_self
    · have hfresh : (ringId :: (before ++ [r])).Nodup := by
        rw [← List.cons_append]
        refine hbefore.append (List.nodup_singleton r) ?_
        rw [List.disjoint_singleton]
        exact fun hmem ↦ hdup (List.mem_cons.mp hmem)
      rw [ih hfresh, List.append_assoc, List.singleton_append]
      simp [hblank]

variable {proof : AnonActionProof}

theorem checkAnonEnvelope_eq_ok {now : ℤ} :
    checkAnonEnvelope proof now = .ok () ↔
      (∀ r ∈ proof.envelope.rings, trim r ≠ "") ∧ proof.envelope.rings.Nodup ∧
        nonceLengthOk proof.envelope.nonce = true ∧ now ≤ proof.envelope.expiresAt ∧
        proof.alsoRingSignatures.length = proof.envelope.alsoRingIds.length := by
  rw [checkAnonEnvelope, andThen_eq_ok, require_eq_ok,
    checkAlsoRings_eq_ok (List.nodup_singleton _), List.nil_append]
  simp only [AnonActionEnvelope.rings, List.forall_mem_cons, decide_eq_true_eq]
  constructor
  · rintro ⟨⟨hring, hnonce, hexpiry, hlen, -⟩, halso, hnodup⟩
    exact ⟨⟨hring, halso⟩, hnodup, hnonce, hexpiry, hlen⟩
  · rintro ⟨⟨hring, halso⟩, hnodup, hnonce, hexpiry, hlen⟩
    exact ⟨⟨hring, hnonce, hexpiry, hlen, List.forall_mem_nil _⟩, halso, hnodup⟩

def Admits (C : Curve) (dir : Directory) (env : AnonActionEnvelope) (ringId : String)
    (signature : RingSignature) : Prop :=
  Permits dir env.tenantId env.action env.configDigest ringId ∧ Vouches C dir env ringId signature

def AnonPass.admitted (dir : Directory) (pass : AnonPass) (c : RingCheck) : AnonPass :=
  match dir.rings.get (pass.proof.envelope.tenantId, c.ringId) with
  | some ⟨_, _, .ok rule, version⟩ => (pass.underRule c rule).verified c version
  | _ => pass

theorem AnonPass.admitted_eq {pass : AnonPass} {version : ℤ}
    (h : admitRing dir pass.proof.envelope c = .ok (rule, version)) :
    pass.admitted dir c = (pass.underRule c rule).verified c version := by
  obtain ⟨⟨_, _, _, _⟩, hget, rfl, -, rfl⟩ := admitRing_eq_ok.mp h
  rw [AnonPass.admitted, hget]

@[simp] theorem AnonPass.proof_underRule (pass : AnonPass) (c : RingCheck) (rule : RingRule) :
    (pass.underRule c rule).proof = pass.proof := by
  unfold AnonPass.underRule
  split <;> rfl

@[simp] theorem AnonPass.proof_verified (pass : AnonPass) (c : RingCheck) (version : ℤ) :
    (pass.verified c version).proof = pass.proof := rfl

@[simp] theorem AnonPass.proof_admitted (dir : Directory) (pass : AnonPass) (c : RingCheck) :
    (pass.admitted dir c).proof = pass.proof := by
  unfold AnonPass.admitted
  split
  · rw [AnonPass.proof_verified, AnonPass.proof_underRule]
  · rfl

@[simp] theorem AnonPass.now_admitted (dir : Directory) (pass : AnonPass) (c : RingCheck) :
    (pass.admitted dir c).now = pass.now := by
  unfold AnonPass.admitted
  split
  · rw [AnonPass.now_verified, AnonPass.now_underRule]
  · rfl

theorem AnonPass.budgets_admitted (dir : Directory) (pass : AnonPass) (hc : c.primary = false) :
    (pass.admitted dir c).budgets = pass.budgets := by
  unfold AnonPass.admitted AnonPass.underRule AnonPass.verified
  split
  · rw [hc]
    rfl
  · rfl

@[simp] theorem AnonPass.proof_foldl (dir : Directory) (pass : AnonPass) (rings : List RingCheck) :
    (rings.foldl (AnonPass.admitted dir) pass).proof = pass.proof := by
  induction rings generalizing pass with
  | nil => rfl
  | cons c rings ih => rw [List.foldl_cons, ih, AnonPass.proof_admitted]

@[simp] theorem AnonPass.now_foldl (dir : Directory) (pass : AnonPass) (rings : List RingCheck) :
    (rings.foldl (AnonPass.admitted dir) pass).now = pass.now := by
  induction rings generalizing pass with
  | nil => rfl
  | cons c rings ih => rw [List.foldl_cons, ih, AnonPass.now_admitted]

theorem AnonPass.budgets_foldl (dir : Directory) (pass : AnonPass) {rings : List RingCheck}
    (h : ∀ c ∈ rings, c.primary = false) :
    (rings.foldl (AnonPass.admitted dir) pass).budgets = pass.budgets := by
  induction rings generalizing pass with
  | nil => rfl
  | cons c rings ih =>
    rw [List.forall_mem_cons] at h
    rw [List.foldl_cons, ih _ h.2, AnonPass.budgets_admitted dir pass h.1]

section Rings

variable [DecidableEq ι] {S : Server} {i : ι} {random : String}

variable {pass : AnonPass} {w : World C ι}

theorem accepts_findingRing {c : RingCheck} {rest : List RingCheck} :
    Accepts S i random (w.move i (.admitting (.findingRing pass c rest))) ↔
      Admits C w.directory pass.proof.envelope c.ringId c.signature ∧
        Accepts S i random (w.move i (.admitting (.afterRing (pass.admitted w.directory c) rest))) := by
  rw [accepts_admitting]
  constructor
  · rintro ⟨r, hr, h⟩
    obtain ⟨⟨rule, version⟩, hadmit, hr⟩ := bind_eq_ok.mp hr
    cases hr
    obtain ⟨r, hr, h⟩ := accepts_admitting.mp h
    obtain ⟨hmembers, hr⟩ := andThen_eq_ok.mp hr
    cases hr
    rw [AnonPass.proof_underRule, checkMembers_eq_ok] at hmembers
    rw [AnonPass.admitted_eq hadmit]
    obtain ⟨row, hget, hrule, heval, -⟩ := admitRing_eq_ok.mp hadmit
    exact ⟨⟨⟨row, rule, hget, hrule, heval⟩, hmembers⟩, h⟩
  · rintro ⟨⟨⟨row, rule, hget, hrule, heval⟩, hvouch⟩, h⟩
    have hadmit : admitRing w.directory pass.proof.envelope c = .ok (rule, row.version) :=
      admitRing_eq_ok.mpr ⟨row, hget, hrule, heval, rfl⟩
    rw [AnonPass.admitted_eq hadmit] at h
    refine ⟨_, bind_eq_ok.mpr ⟨_, hadmit, rfl⟩, accepts_admitting.mpr ⟨.inl _, ?_, h⟩⟩
    refine andThen_eq_ok.mpr ⟨?_, rfl⟩
    rw [AnonPass.proof_underRule]
    exact checkMembers_eq_ok.mpr hvouch

/-- The loop over the rings: every one has to admit the action. -/
theorem accepts_afterRing {rings : List RingCheck} :
    Accepts S i random (w.move i (.admitting (.afterRing pass rings))) ↔
      (∀ c ∈ rings, Admits C w.directory pass.proof.envelope c.ringId c.signature) ∧
        Accepts S i random (w.move i (.admitting
          (.readingUsage (rings.foldl (AnonPass.admitted w.directory) pass)))) := by
  induction rings generalizing pass with
  | nil => exact (and_iff_right (List.forall_mem_nil _)).symm
  | cons c rings ih =>
    rw [Admission.afterRing, accepts_findingRing, ih, AnonPass.proof_admitted, List.forall_mem_cons,
      List.foldl_cons, and_assoc]

theorem accepts_readingUsage :
    Accepts S i random (w.move i (.admitting (.readingUsage pass))) ↔
      budgetExceeded (getUsage w.directory pass.proof.envelope.tenantId
        pass.proof.envelope.ringId pass.proof.ringSignature.keyImageHex) pass.budgets = none ∧
      Accepts S i random (w.move i (.sweeping (anonTicket S.primitives pass))) := by
  rw [accepts_admitting, ← checkUsage_eq_ok]
  constructor
  · rintro ⟨r, hr, h⟩
    obtain ⟨husage, hr⟩ := andThen_eq_ok.mp hr
    cases hr
    exact ⟨husage, h⟩
  · rintro ⟨husage, h⟩
    exact ⟨_, andThen_eq_ok.mpr ⟨husage, rfl⟩, h⟩

end Rings

theorem outcome_eq {p : Phase C} (h : ∃ outcome, p = .finished outcome) (outcome : Outcome) :
    p.outcome h = outcome ↔ p = .finished outcome := by
  obtain ⟨_, rfl⟩ := h
  rw [Phase.finished.injEq]
  rfl

def validateAnonAction (S : Server) (proof : AnonActionProof) (random : String)
    (w : World C Unit) : Outcome × World C Unit :=
  match checkAnonEnvelope proof w.clock with
  | .error rejection => (.rejected rejection, w)
  | .ok () =>
    let checked := w.move () (.admitting
      (.findingRing (.begin proof w.clock) (primaryRing proof) (alsoRings proof)))
    let steps := 10 + 2 * (alsoRings proof).length
    have hbusy : checked.phase () ≠ .idle ∧ (checked.phase ()).rank < steps := by
      rw [phase_move]
      exact ⟨nofun, by simp only [Phase.rank, Admission.rank, steps]; omega⟩
    (((drive S () random steps checked).phase ()).outcome (finished_drive hbusy.1 hbusy.2),
      drive S () random steps checked)

theorem validateAnonAction_accepted {S : Server} {random : String} {w : World C Unit} :
    (∃ receipt, (validateAnonAction S proof random w).1 = .accepted receipt) ↔
      checkAnonEnvelope proof w.clock = .ok () ∧ Accepts S () random (w.move () (.admitting
        (.afterRing (.begin proof w.clock) (primaryRing proof :: alsoRings proof)))) := by
  unfold validateAnonAction
  cases checkAnonEnvelope proof w.clock with
  | error rejection => simp
  | ok =>
    simp only [outcome_eq, true_and, Accepts, phase_move, Admission.afterRing, Phase.rank,
      Admission.rank]
    rw [Nat.add_right_comm]

structure Authorised (C : Curve) (dir : Directory) (proof : AnonActionProof) : Prop where
  distinct : proof.envelope.rings.Nodup
  admitted : List.Forall₂ (Admits C dir proof.envelope) proof.envelope.rings proof.signatures

structure Fresh (nonces : NonceTable) (proof : AnonActionProof) (now : ℤ) : Prop where
  nonce : nonceLengthOk proof.envelope.nonce = true
  unexpired : now ≤ proof.envelope.expiresAt
  unused : ∀ row ∈ nonces.rows,
    row.nonce = proof.ringSignature.keyImageHex ++ "|" ++ proof.envelope.nonce → row.expiresAt < now

def WithinBudget (dir : Directory) (proof : AnonActionProof) : Prop :=
  ∀ row rule, dir.rings.get (proof.envelope.tenantId, proof.envelope.ringId) = some row →
    row.rule = .ok rule → budgetExceeded (getUsage dir proof.envelope.tenantId
      proof.envelope.ringId proof.ringSignature.keyImageHex) rule.budgets = none

def admittedTicket (P : Primitives) (dir : Directory) (proof : AnonActionProof) (now : ℤ) :
    Ticket :=
  anonTicket P
    ((primaryRing proof :: alsoRings proof).foldl (AnonPass.admitted dir) (.begin proof now))

theorem forall_alsoRings {R : String → RingSignature → Prop} {ids : List String}
    {signatures : List RingSignature} (h : signatures.length = ids.length) :
    (∀ c ∈ List.zipWith (fun ringId signature ↦ (⟨ringId, signature, false⟩ : RingCheck)) ids
      signatures, R c.ringId c.signature) ↔ List.Forall₂ R ids signatures := by
  induction ids generalizing signatures with
  | nil =>
    rw [List.length_eq_zero_iff.mp h]
    simp
  | cons r ids ih =>
    cases signatures with
    | nil => cases h
    | cons s signatures =>
      rw [List.zipWith_cons_cons, List.forall_mem_cons, List.forall₂_cons,
        ih (Nat.succ.inj h)]

theorem forall_rings {C : Curve}
    (h : proof.alsoRingSignatures.length = proof.envelope.alsoRingIds.length) :
    (∀ c ∈ primaryRing proof :: alsoRings proof,
      Admits C dir proof.envelope c.ringId c.signature) ↔
      List.Forall₂ (Admits C dir proof.envelope) proof.envelope.rings proof.signatures := by
  rw [List.forall_mem_cons, alsoRings, forall_alsoRings h, AnonActionEnvelope.rings,
    AnonActionProof.signatures, List.forall₂_cons]
  rfl

theorem primary_alsoRings :
    ∀ c ∈ alsoRings proof, c.primary = false := by
  intro c hc
  rw [alsoRings, ← List.map_uncurry_zip_eq_zipWith] at hc
  obtain ⟨_, _, rfl⟩ := List.mem_map.mp hc
  rfl

theorem budgets_primary {now : ℤ} {row : RingRow}
    (hget : dir.rings.get (proof.envelope.tenantId, proof.envelope.ringId) = some row)
    (hrule : row.rule = .ok rule) :
    ((primaryRing proof :: alsoRings proof).foldl (AnonPass.admitted dir)
      (.begin proof now)).budgets = rule.budgets := by
  obtain ⟨_, _, _, _⟩ := row
  cases hrule
  rw [List.foldl_cons, AnonPass.budgets_foldl dir _ primary_alsoRings, AnonPass.admitted,
    AnonPass.begin, primaryRing, hget]
  rfl

theorem accepts_rings {S : Server} {random : String} {w : World C Unit}
    (hlen : proof.alsoRingSignatures.length = proof.envelope.alsoRingIds.length) :
    Accepts S () random (w.move () (.admitting
        (.afterRing (.begin proof w.clock) (primaryRing proof :: alsoRings proof)))) ↔
      List.Forall₂ (Admits C w.directory proof.envelope) proof.envelope.rings proof.signatures ∧
        WithinBudget w.directory proof ∧
        (∀ row ∈ w.nonces.rows, row.nonce = proof.ringSignature.keyImageHex ++ "|" ++
          proof.envelope.nonce → row.expiresAt < w.clock) ∧
        (admittedTicket S.primitives w.directory proof w.clock).Issuable S w.directory w.receipts
          random := by
  rw [accepts_afterRing, accepts_readingUsage, AnonPass.proof_foldl, AnonPass.begin,
    forall_rings hlen]
  refine and_congr_right (fun hrings ↦ and_congr ?_ ?_)
  · obtain ⟨⟨⟨row, rule, hget, hrule, -⟩, -⟩, -⟩ := List.forall₂_cons.mp hrings
    rw [← AnonPass.begin, budgets_primary hget hrule]
    constructor
    · intro h row' rule' hget' hrule'
      cases hget.symm.trans hget'
      cases hrule.symm.trans hrule'
      exact h
    · exact fun h ↦ h row rule hget hrule
  · rw [accepts_sweeping rfl]
    simp only [anonTicket, AnonPass.proof_foldl, AnonPass.now_foldl, SignedEnvelope.nonceKey,
      admittedTicket, AnonPass.begin]

/-- A proof is accepted if and only if its rings are distinct, not blank and
admit the action, each with its own signature, the envelope is fresh and within
the budget of the primary ring, and the receipt can be issued. Receipts whose
texts stay below the limit of the length prefix can. Naming further rings leaves
a part of what fewer rings permit. -/
theorem validateAnonAction_intersects (S : Server) (proof : AnonActionProof) (random : String)
    (w : World C Unit) :
    ((∃ receipt, (validateAnonAction S proof random w).1 = .accepted receipt) ↔
      Authorised C w.directory proof ∧ (∀ r ∈ proof.envelope.rings, trim r ≠ "") ∧
        Fresh w.nonces proof w.clock ∧ WithinBudget w.directory proof ∧
        (admittedTicket S.primitives w.directory proof w.clock).Issuable S w.directory w.receipts
          random) ∧
      ((∀ row ∈ w.receipts.rows, Framed (.ofRow row)) →
        (∀ position, nextChainPosition S.primitives S.scan w.receipts proof.envelope.tenantId =
            .ok position →
          Framed ((admittedTicket S.primitives w.directory proof w.clock).draft random position "")) →
        (admittedTicket S.primitives w.directory proof w.clock).Issuable S w.directory w.receipts
          random) ∧
      (Authorised C w.directory proof →
        (proof.envelope.action, proof.envelope.configDigest) ∈
            authority w.directory proof.envelope.tenantId proof.envelope.rings ∧
          ∀ fewer ⊆ proof.envelope.rings,
            authority w.directory proof.envelope.tenantId proof.envelope.rings ⊆
              authority w.directory proof.envelope.tenantId fewer) := by
  refine ⟨?_, fun hstored hnew ↦ ?_, fun h ↦ ⟨?_, fun _ ↦ authority_anti _ _⟩⟩
  · rw [validateAnonAction_accepted, checkAnonEnvelope_eq_ok]
    constructor
    · rintro ⟨⟨hblank, hnodup, hnonce, hexpiry, hlen⟩, h⟩
      obtain ⟨hrings, hbudget, hunused, hissue⟩ := (accepts_rings hlen).mp h
      exact ⟨⟨hnodup, hrings⟩, hblank, ⟨hnonce, hexpiry, hunused⟩, hbudget, hissue⟩
    · rintro ⟨⟨hnodup, hrings⟩, hblank, ⟨hnonce, hexpiry, hunused⟩, hbudget, hissue⟩
      have hlen : proof.alsoRingSignatures.length = proof.envelope.alsoRingIds.length :=
        (Nat.succ.inj hrings.length_eq).symm
      exact ⟨⟨hblank, hnodup, hnonce, hexpiry, hlen⟩,
        (accepts_rings hlen).mpr ⟨hrings, hbudget, hunused, hissue⟩⟩
  · refine Ticket.issuable_of_framed hstored (fun position hposition ↦ ?_)
    simp only [admittedTicket, anonTicket, AnonPass.proof_foldl] at hposition
    exact hnew position hposition
  · exact ((List.forall₂_and_left _ _).mp h.admitted).1

def unnamedRing : Directory where
  agents := .empty
  rings := ⟨[⟨"acme", " ", .ok ⟨["pay"], [], ⟨none, none, none⟩⟩, 1⟩], by simp⟩
  members := ⟨[⟨"acme", " ", zeroKey⟩], by simp⟩
  usage := .empty

def unnamedPayment : AnonActionProof :=
  ⟨⟨"acme", " ", [], "pay", "", "", 500, "USD", "", "nonce-0123456789", 100⟩,
    ⟨"pseudonym", []⟩, []⟩

/-- A ring may be stored under a blank name, and no action on it is accepted. -/
theorem unnamed_ring_refused :
    Authorised openCurve unnamedRing unnamedPayment ∧ Fresh .empty unnamedPayment 0 ∧
      WithinBudget unnamedRing unnamedPayment ∧
      (admittedTicket countingPrimitives unnamedRing unnamedPayment 0).Issuable openServer
        unnamedRing .empty "0" ∧
      (validateAnonAction (C := openCurve) openServer unnamedPayment "0"
        (World.init 0 unnamedRing)).1 = .rejected ⟨400, "ring_id is required"⟩ := by
  refine ⟨⟨by decide, .cons ⟨⟨_, _, rfl, rfl, by decide⟩, ?_⟩ .nil⟩,
    ⟨by decide, by decide, nofun⟩, ?_, ?_, by decide⟩
  · exact ⟨[List.replicate 32 0], by decide +kernel, nofun, rfl⟩
  · intro row rule hget hrule
    cases hget
    cases hrule
    rfl
  · refine Ticket.issuable_of_framed nofun (fun position hposition ↦ ?_)
    cases hposition
    unfold Framed
    decide +kernel

end SauronId.Action
