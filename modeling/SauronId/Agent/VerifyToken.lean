import SauronId.Payment.Tables

namespace SauronId.Agent

open SauronId.Action (AgentRow)
open CryptoProtocol Lib Lib.Text
open SauronId.Payment (PopChallenge RiskCounter Token UsedJti checkAndIncrement consumeAjwtJti
  hashBucket secondsClaim takePopChallenge textClaim verifyAjwtForTenant)

structure Verifier where
  primitives : Primitives
  ajwtAudience : String
  decodeToken : String → Option Token
  writeJson : Json → String
  verifyEd25519PopJws : (challenge jws publicKeyB64u : String) → Except String Unit
  (windowSecs limitAgentVerify : ℤ)

structure VerifyCall where
  (tenantId ajwt : String)
  consumeJti : Bool
  (popChallengeId popJws : String)

structure VerifyAjwtResponse where
  valid : Bool
  (agentId humanKeyImage intentJson assuranceLevel error : Option String)

def invalidAjwt : VerifyAjwtResponse :=
  ⟨false, none, none, none, none, some "Invalid or expired A-JWT"⟩

/-- The `intent` claim as text, whichever form the token has it in. -/
def intentText (V : Verifier) (claims : Json) : Option String :=
  (claims.get "intent").map (fun
    | .str s => s
    | v => V.writeJson v)

def accepted (V : Verifier) (claims : Json) (assuranceLevel : Option String) :
    VerifyAjwtResponse where
  valid := true
  agentId := textClaim claims "agent_id"
  humanKeyImage := textClaim claims "sub"
  intentJson := intentText V claims
  assuranceLevel := assuranceLevel
  error := none

def VerifyAjwtResponse.refused (r : VerifyAjwtResponse) (message : String) : VerifyAjwtResponse :=
  { r with valid := false, error := some message }

def countVerification (V : Verifier) (call : VerifyCall) (claims : Json) (now : ℤ)
    (counters : Table RiskCounter.key) : Except String Unit × Table RiskCounter.key :=
  match textClaim claims "agent_id" with
  | none => (.ok (), counters)
  | some agentId => checkAndIncrement V.windowSecs counters
      (hashBucket V.primitives "agent_verify" [call.tenantId, agentId]) now V.limitAgentVerify

def provePossession (V : Verifier) (call : VerifyCall) (agentId publicKey : String) (now : ℤ)
    (challenges : Table PopChallenge.id) : Except String Unit × Table PopChallenge.id :=
  if publicKey = "" then (.ok (), challenges)
  else if call.popChallengeId = "" ∨ call.popJws = "" then
    (.error ("Agent requires PoP: provide pop_challenge_id and pop_jws " ++
      "(see POST /agent/pop/challenge)"), challenges)
  else
    let (taken, challenges) := takePopChallenge challenges call.popChallengeId agentId now
    (taken.bind (fun challenge ↦ V.verifyEd25519PopJws challenge call.popJws publicKey),
      challenges)

def checkRegistration (V : Verifier) (call : VerifyCall) (agent : Option AgentRow)
    (agentId : String) (now : ℤ) (challenges : Table PopChallenge.id) :
    Except String Unit × Table PopChallenge.id :=
  match agent with
  | none => (.error "Agent has been revoked", challenges)
  | some a =>
    if a.revoked ≠ 0 then (.error "Agent has been revoked", challenges)
    else provePossession V call agentId a.popPublicKeyB64u now challenges

/-- Where a request stands. A step reads the clock once or runs the statements
under one lock of the database. -/
inductive VerifyPhase
  | idle
  | arrived (call : VerifyCall)
  | verified (call : VerifyCall) (claims : Json)
  | counted (call : VerifyCall) (claims : Json)
  | consuming (reply : VerifyAjwtResponse) (jti : String) (exp : ℤ)
  | inserting (reply : VerifyAjwtResponse) (jti : String) (exp now : ℤ)
  | finished (reply : VerifyAjwtResponse)

def afterVerify (V : Verifier) (call : VerifyCall) (clock : ℤ) : VerifyPhase :=
  match verifyAjwtForTenant V.decodeToken V.ajwtAudience clock call.ajwt call.tenantId with
  | none => .finished invalidAjwt
  | some claims => .verified call claims

def afterCount (V : Verifier) (call : VerifyCall) (claims : Json) :
    Except String Unit → VerifyPhase
  | .error _ => .finished ((accepted V claims none).refused
      "Rate limit exceeded for agent verification")
  | .ok () => .counted call claims

def afterAgent (call : VerifyCall) (claims : Json) (reply : VerifyAjwtResponse) : VerifyPhase :=
  if call.consumeJti then
    match (textClaim claims "jti").filter (fun j ↦ j ≠ ""), secondsClaim claims "exp" with
    | none, _ => .finished (reply.refused "A-JWT missing jti; cannot consume")
    | some _, none => .finished (reply.refused "A-JWT missing exp")
    | some jti, some exp => .consuming reply jti exp
  else .finished reply

def afterRegistration (call : VerifyCall) (claims : Json) (reply : VerifyAjwtResponse) :
    Except String Unit → VerifyPhase
  | .error e => .finished (reply.refused e)
  | .ok () => afterAgent call claims reply

/-- The requests in flight over the shared tables, and the clean-up task with
its reading of the clock. `consumed` only records the history. -/
structure TokenWorld (ι : Type) where
  clock : ℤ
  agents : Table AgentRow.agentId
  counters : Table RiskCounter.key
  challenges : Table PopChallenge.id
  usedJtis : Table UsedJti.jti
  phase : ι → VerifyPhase
  sweepNow : Option ℤ
  consumed : List (ι × UsedJti)

variable {ι : Type}

/-- Other endpoints change the agents and the challenges at will. -/
inductive TokenEvent (ι : Type)
  | tick (seconds : ℕ)
  | setAgents (agents : Table AgentRow.agentId)
  | setChallenges (challenges : Table PopChallenge.id)
  | arrive (i : ι) (call : VerifyCall)
  | advance (i : ι)
  | readSweep
  | sweep

def TokenWorld.sweep (V : Verifier) (w : TokenWorld ι) (now : ℤ) : TokenWorld ι :=
  { w with
    usedJtis := w.usedJtis.deleteWhere (fun r ↦ r.exp < now)
    challenges := w.challenges.deleteWhere (fun c ↦ c.exp < now)
    counters := w.counters.deleteWhere (fun c ↦ c.windowId < now.tdiv V.windowSecs - 120)
    sweepNow := none }

variable [DecidableEq ι]

def TokenWorld.move (w : TokenWorld ι) (i : ι) (phase : VerifyPhase) : TokenWorld ι :=
  { w with phase := Function.update w.phase i phase }

/-- The transaction of `consume_ajwt_jti`, with the time it read before. -/
def TokenWorld.consume (w : TokenWorld ι) (i : ι) (reply : VerifyAjwtResponse) (jti : String)
    (exp now : ℤ) : TokenWorld ι :=
  match consumeAjwtJti w.usedJtis jti exp now with
  | (.error e, _) => w.move i (.finished (reply.refused e))
  | (.ok (), usedJtis) =>
    { w with usedJtis := usedJtis, consumed := w.consumed ++ [(i, UsedJti.mk jti exp)] }.move i
      (.finished reply)

def TokenWorld.count (V : Verifier) (w : TokenWorld ι) (i : ι) (call : VerifyCall)
    (claims : Json) : TokenWorld ι :=
  let (counted, counters) := countVerification V call claims w.clock w.counters
  { w with counters := counters }.move i (afterCount V call claims counted)

def TokenWorld.checkAgent (V : Verifier) (w : TokenWorld ι) (i : ι) (call : VerifyCall)
    (claims : Json) : TokenWorld ι :=
  match textClaim claims "agent_id" with
  | none => w.move i (afterAgent call claims (accepted V claims none))
  | some agentId =>
    let agent := (w.agents.get agentId).filter (fun a ↦ a.tenantId = call.tenantId)
    let assurance := (agent.map AgentRow.assuranceLevel).getD "delegated_nonbank"
    let (checked, challenges) := checkRegistration V call agent agentId w.clock w.challenges
    { w with challenges := challenges }.move i
      (afterRegistration call claims (accepted V claims (some assurance)) checked)

def TokenWorld.advance (V : Verifier) (w : TokenWorld ι) (i : ι) : Option (TokenWorld ι) :=
  match w.phase i with
  | .idle | .finished _ => none
  | .arrived call => some (w.move i (afterVerify V call w.clock))
  | .verified call claims => some (w.count V i call claims)
  | .counted call claims => some (w.checkAgent V i call claims)
  | .consuming reply jti exp => some (w.move i (.inserting reply jti exp w.clock))
  | .inserting reply jti exp now => some (w.consume i reply jti exp now)

def nextToken (V : Verifier) (w : TokenWorld ι) : TokenEvent ι → Option (TokenWorld ι)
  | .tick seconds => some { w with clock := w.clock + seconds }
  | .setAgents agents => some { w with agents := agents }
  | .setChallenges challenges => some { w with challenges := challenges }
  | .arrive i call =>
    match w.phase i with
    | .idle => some (w.move i (.arrived call))
    | _ => none
  | .advance i => w.advance V i
  | .readSweep => some { w with sweepNow := some w.clock }
  | .sweep => w.sweepNow.map (w.sweep V)

def TokenWorld.init (clock : ℤ) (agents : Table AgentRow.agentId)
    (counters : Table RiskCounter.key) (challenges : Table PopChallenge.id)
    (usedJtis : Table UsedJti.jti) : TokenWorld ι where
  clock := clock
  agents := agents
  counters := counters
  challenges := challenges
  usedJtis := usedJtis
  phase _ := .idle
  sweepNow := none
  consumed := []

end SauronId.Agent
