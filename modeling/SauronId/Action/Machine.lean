import SauronId.Action.Admission
import SauronId.Lib.Run
import SauronId.Receipt.Chain

namespace SauronId.Action

open CryptoProtocol Lib Lib.Run Receipt

structure NonceRow where
  (nonce agentId actionHash : String)
  (expiresAt usedAt : ℤ)

abbrev NonceTable := Table NonceRow.nonce

def Ticket.nonceRow (t : Ticket) : NonceRow where
  nonce := t.envelope.nonceKey
  agentId := t.agentId
  actionHash := t.actionHash
  expiresAt := t.envelope.expiresAt
  usedAt := t.now

def Ticket.draft (t : Ticket) (random : String) (position : ℤ × String) (mandate : String) :
    ActionReceipt where
  tenantId := t.tenantId
  receiptId := "ar_" ++ random
  actionHash := t.actionHash
  agentId := t.agentId
  ringKeyImageHex := t.ringKeyImageHex
  policyVersion := t.policyVersion
  ajwtJti := t.ajwtJti
  popJkt := t.popJkt
  timestamp := t.now
  status := t.status
  signature := ""
  seq := position.1
  prevHash := position.2
  ownerMandateHash := mandate

def Ticket.row (t : Ticket) (receipt : ActionReceipt) : ReceiptRow :=
  receipt.toRow t.ringId t.configDigest

def Ticket.ownerMandateHash (t : Ticket) (dir : Directory) : String :=
  match t.envelope with
  | .identified _ => ((findAgent dir t.agentId t.tenantId).map AgentRow.ownerMandateHash).getD ""
  | .anonymous _ _ => ""

inductive Outcome
  | accepted (receipt : ActionReceipt)
  | rejected (rejection : Rejection)
  | panicked (message : String)
  deriving DecidableEq

def Outcome.ofFailure : Failure → Outcome
  | .failed message => .rejected ⟨500, message⟩
  | .panicked message => .panicked message

/-- Where a request stands. Each phase but the first and the last ends with one
clock reading or one statement. -/
inductive Phase (C : Curve)
  | idle
  | admitting (a : Admission C)
  | sweeping (t : Ticket)
  | claiming (t : Ticket)
  | readingHead (t : Ticket)
  | loadingHead (t : Ticket) (head : Option (ℤ × String))
  | readingMandate (t : Ticket) (head : Option (ℤ × String)) (position : ℤ × String)
  | issuing (t : Ticket) (head : Option (ℤ × String)) (position : ℤ × String) (mandate : String)
  | finished (outcome : Outcome)

structure Server where
  primitives : Primitives
  scan : Scan ReceiptRow
  jwtSecret : List UInt8
  anonRings : Bool

/-- The requests in flight over the shared tables. `claimed` and `issued` only
record the history: who inserted which nonce and who issued which receipt. -/
structure World (C : Curve) (ι : Type) where
  clock : ℤ
  directory : Directory
  nonces : NonceTable
  receipts : ReceiptTable
  phase : ι → Phase C
  claimed : List (ι × SignedEnvelope)
  issued : List (ι × SignedEnvelope × ActionReceipt)

variable {C : Curve} {ι : Type}

def World.init (clock : ℤ) (directory : Directory) : World C ι where
  clock := clock
  directory := directory
  nonces := .empty
  receipts := .empty
  phase _ := .idle
  claimed := []
  issued := []

def World.issuedFor (w : World C ι) (tenantId : String) : List ActionReceipt :=
  (w.issued.map (fun i ↦ i.2.2)).filter (fun r ↦ r.tenantId = tenantId)

/-- The other endpoints change the directory at will and put nonces of their own
into the shared table. -/
inductive Event (ι : Type)
  | tick (seconds : ℕ)
  | setDirectory (directory : Directory)
  | recordNonce (row : NonceRow)
  | arrive (i : ι) (request : ActionRequest)
  | advance (i : ι) (random : String)

def afterAdmission : Except Rejection (Admission C ⊕ Ticket) → Phase C
  | .error rejection => .finished (.rejected rejection)
  | .ok (.inl a) => .admitting a
  | .ok (.inr t) => if t.ringOk then .sweeping t else .readingHead t

def afterLink (t : Ticket) (head : Option (ℤ × String)) : Except Failure (ℤ × String) → Phase C
  | .error failure => .finished (.ofFailure failure)
  | .ok position => .readingMandate t head position

variable [DecidableEq ι]

def World.move (w : World C ι) (i : ι) (phase : Phase C) : World C ι :=
  { w with phase := Function.update w.phase i phase }

def World.sweep (w : World C ι) (now : ℤ) : World C ι :=
  { w with nonces := w.nonces.deleteWhere (fun r ↦ r.expiresAt < now) }

def World.claim (w : World C ι) (i : ι) (t : Ticket) : World C ι :=
  match w.nonces.insert t.nonceRow with
  | none => w.move i (.finished (.rejected ⟨401, t.envelope.replayMessage⟩))
  | some nonces =>
    { w with nonces := nonces, claimed := w.claimed ++ [(i, t.envelope)] }.move i (.readingHead t)

def World.store (w : World C ι) (i : ι) (t : Ticket) (receipt : ActionReceipt) : World C ι :=
  { w with
    receipts := w.receipts.replace (t.row receipt)
    issued := w.issued ++ [(i, t.envelope, receipt)] }.move i (.finished (.accepted receipt))

def World.issue (w : World C ι) (S : Server) (i : ι) (t : Ticket) (draft : ActionReceipt) :
    World C ι :=
  match signReceipt S.primitives S.jwtSecret draft with
  | .error failure => w.move i (.finished (.ofFailure failure))
  | .ok signature =>
    if t.ringOk then w.store i t { draft with signature := signature }
    else w.move i
      (.finished (.rejected ⟨401, "agent_action ring signature verification failed"⟩))

def World.advance (S : Server) (w : World C ι) (i : ι) (random : String) : Option (World C ι) :=
  match w.phase i with
  | .idle | .finished _ => none
  | .admitting a =>
    some (w.move i
      (afterAdmission (a.next S.primitives S.anonRings w.clock w.directory)))
  | .sweeping t => some ((w.sweep t.now).move i (.claiming t))
  | .claiming t => some (w.claim i t)
  | .readingHead t => some (w.move i (.loadingHead t (chainHead S.scan w.receipts t.tenantId)))
  | .loadingHead t head => some (w.move i (afterLink t head (linkAfter S.primitives w.receipts head)))
  | .readingMandate t head position =>
    some (w.move i (.issuing t head position (t.ownerMandateHash w.directory)))
  | .issuing t _ position mandate => some (w.issue S i t (t.draft random position mandate))

def next (S : Server) (w : World C ι) : Event ι → Option (World C ι)
  | .tick seconds => some { w with clock := w.clock + seconds }
  | .setDirectory directory => some { w with directory := directory }
  | .recordNonce row => (w.nonces.insert row).map (fun nonces ↦ { w with nonces := nonces })
  | .arrive i request =>
    match w.phase i with
    | .idle => some (w.move i (.admitting (.arrived request)))
    | _ => none
  | .advance i random => w.advance S i random

/-- The steps of a request that write to no table. -/
inductive Quiet (S : Server) (w : World C ι) (i : ι) : Phase C → Prop
  | arrive (request : ActionRequest) : w.phase i = .idle → Quiet S w i (.admitting (.arrived request))
  | admission (a : Admission C) : w.phase i = .admitting a →
      Quiet S w i (afterAdmission (a.next S.primitives S.anonRings w.clock w.directory))
  | replayed (t : Ticket) (rejection : Rejection) : w.phase i = .claiming t →
      Quiet S w i (.finished (.rejected rejection))
  | readHead (t : Ticket) : w.phase i = .readingHead t →
      Quiet S w i (.loadingHead t (chainHead S.scan w.receipts t.tenantId))
  | loadHead (t : Ticket) (head : Option (ℤ × String)) : w.phase i = .loadingHead t head →
      Quiet S w i (afterLink t head (linkAfter S.primitives w.receipts head))
  | readMandate (t : Ticket) (head : Option (ℤ × String)) (position : ℤ × String)
      (mandate : String) : w.phase i = .readingMandate t head position →
      Quiet S w i (.issuing t head position mandate)
  | refuse (t : Ticket) (head : Option (ℤ × String)) (position : ℤ × String) (mandate : String)
      (outcome : Outcome) : w.phase i = .issuing t head position mandate →
      Quiet S w i (.finished outcome)

inductive Step (S : Server) (w : World C ι) : Event ι → World C ι → Prop
  | tick (seconds : ℕ) : Step S w (.tick seconds) { w with clock := w.clock + seconds }
  | setDirectory (directory : Directory) :
      Step S w (.setDirectory directory) { w with directory := directory }
  | recordNonce (row : NonceRow) (nonces : NonceTable) : w.nonces.insert row = some nonces →
      Step S w (.recordNonce row) { w with nonces := nonces }
  | quiet (e : Event ι) (i : ι) (phase : Phase C) : Quiet S w i phase → Step S w e (w.move i phase)
  | sweep (i : ι) (random : String) (t : Ticket) : w.phase i = .sweeping t →
      Step S w (.advance i random) ((w.sweep t.now).move i (.claiming t))
  | claim (i : ι) (random : String) (t : Ticket) (nonces : NonceTable) : w.phase i = .claiming t →
      w.nonces.insert t.nonceRow = some nonces →
      Step S w (.advance i random)
        ({ w with nonces := nonces, claimed := w.claimed ++ [(i, t.envelope)] }.move i
          (.readingHead t))
  | issue (i : ι) (random : String) (t : Ticket) (head : Option (ℤ × String))
      (position : ℤ × String) (mandate signature : String) :
      w.phase i = .issuing t head position mandate → t.ringOk = true →
      signReceipt S.primitives S.jwtSecret (t.draft random position mandate) = .ok signature →
      Step S w (.advance i random)
        (w.store i t { t.draft random position mandate with signature := signature })

theorem step_of_advance {S : Server} {w v : World C ι} {i : ι} {random : String}
    (h : w.advance S i random = some v) : Step S w (.advance i random) v := by
  unfold World.advance at h
  split at h
  case h_1 | h_2 => cases h
  case h_3 a hp =>
    cases h
    exact .quiet _ i _ (.admission a hp)
  case h_4 t hp =>
    cases h
    exact .sweep i random t hp
  case h_5 t hp =>
    cases h
    unfold World.claim
    cases hn : w.nonces.insert t.nonceRow with
    | none => exact .quiet _ i _ (.replayed t _ hp)
    | some nonces => exact .claim i random t nonces hp hn
  case h_6 t hp =>
    cases h
    exact .quiet _ i _ (.readHead t hp)
  case h_7 t head hp =>
    cases h
    exact .quiet _ i _ (.loadHead t head hp)
  case h_8 t head position hp =>
    cases h
    exact .quiet _ i _ (.readMandate t head position _ hp)
  case h_9 t head position mandate hp =>
    cases h
    unfold World.issue
    cases hs : signReceipt S.primitives S.jwtSecret (t.draft random position mandate) with
    | error failure => exact .quiet _ i _ (.refuse t head position mandate _ hp)
    | ok signature =>
      dsimp only
      split_ifs with hr
      · exact .issue i random t head position mandate signature hp hr hs
      · exact .quiet _ i _ (.refuse t head position mandate _ hp)

theorem step_of_next {S : Server} {w v : World C ι} {e : Event ι} (h : next S w e = some v) :
    Step S w e v := by
  cases e with
  | tick seconds =>
    cases h
    exact .tick seconds
  | setDirectory directory =>
    cases h
    exact .setDirectory directory
  | recordNonce row =>
    obtain ⟨nonces, hn, rfl⟩ := Option.map_eq_some_iff.mp h
    exact .recordNonce row nonces hn
  | arrive i request =>
    simp only [next] at h
    split at h
    · cases h
      exact .quiet _ i _ (.arrive request ‹_›)
    · cases h
  | advance i random => exact step_of_advance h

def openCurve : Curve := ⟨List UInt8, inferInstance, some, fun _ _ _ ↦ true, fun _ ↦ ""⟩

def openServer : Server := ⟨countingPrimitives, .stored, [], true⟩

def zeroKey : String := "0000000000000000000000000000000000000000000000000000000000000000"

def payers : Directory where
  agents := ⟨[⟨"agent", "acme", "human", 0, 1000, zeroKey, "image", "", "mandate",
    "delegated_bank", ""⟩], by decide⟩
  rings := ⟨[⟨"acme", "ring", .ok ⟨["pay"], [], ⟨none, none, none⟩⟩, 1⟩], by simp⟩
  members := ⟨[⟨"acme", "ring", zeroKey⟩], by simp⟩
  usage := .empty

def agentPayment : ActionRequest :=
  .identified
    ⟨"acme", "agent", "human", "jti", some (.obj [("action", .str "pay")]), "pay", none, none, none,
      none, none, "accepted"⟩
    ⟨⟨"agent", "human", "pay", "", "", 500, "USD", "nonce-0123456789", 100,
      expectedPolicyHash countingPrimitives "pay", "jti"⟩, ⟨"image", []⟩⟩

def ringPayment : ActionRequest :=
  .anonymous
    ⟨⟨"acme", "ring", [], "pay", "", "", 500, "USD", "", "nonce-0123456789", 100⟩,
      ⟨"pseudonym", []⟩, []⟩

def advances {ι : Type} (i : ι) (n : ℕ) (random : String) : List (Event ι) :=
  List.replicate n (.advance i random)

end SauronId.Action
