import SauronId.Agent.Scopes

namespace SauronId.Kyc

open SauronId.Action (Rejection)
open Agent (TextReader)
open Lib Lib.Text

abbrev Claims := List (String × Json)

/-! ### The public signals in production -/

def decimal (status : ℕ) (label value : String) : Except Rejection String := do
  let value := trim value
  ensure (value ≠ "" ∧ value.toList.all Char.isDigit)
    ⟨status, label ++ " must be an unsigned decimal public signal"⟩
  let canonical := String.ofList (value.toList.dropWhile (fun c ↦ c = '0'))
  return if canonical = "" then "0" else canonical

def requiredEnv (env : String → Option String) (name : String) : Except Rejection String := do
  let raw ← (env name).elim
    (.error ⟨500, "production KYC proof policy is missing " ++ name⟩) .ok
  decimal 500 name raw

def requireEqual (label got expected : String) : Except Rejection Unit := do
  let got ← decimal 400 label got
  let expected ← decimal 400 label expected
  ensure (got = expected)
    ⟨401, "KYC proof " ++ label ++ " is not the server-authoritative value"⟩

def requireAllEqual (checks : List (String × String × String)) : Except Rejection Unit :=
  checks.forM (fun (label, got, expected) ↦ requireEqual label got expected)

def checkAgeSignals (threshold today issuerAx issuerAy : String) (signals : List String) :
    Except Rejection Unit :=
  match signals with
  | [valid, age, date, ax, ay] => do
    ensure (trim valid = "1") ⟨401, "AgeVerification valid output must equal 1"⟩
    requireAllEqual [("ageThreshold", age, threshold), ("currentDate", date, today),
      ("issuerPubKeyAx", ax, issuerAx), ("issuerPubKeyAy", ay, issuerAy)]
  | _ => .error ⟨400, "AgeVerification requires exactly 5 public signals"⟩

def checkCredentialSignals (env : String → Option String)
    (threshold today issuerAx issuerAy : String) (signals : List String) :
    Except Rejection Unit :=
  match signals with
  | [ageVerified, nationalityMatched, credentialValid, date, age, nationality, root, ax, ay] => do
    ensure ([ageVerified, nationalityMatched, credentialValid].all (fun v ↦ trim v = "1"))
      ⟨401, "CredentialVerification outputs must all equal 1"⟩
    let requiredNationality ← requiredEnv env "SAURON_ZKP_REQUIRED_NATIONALITY"
    let merkleRoot ← requiredEnv env "SAURON_ZKP_CREDENTIAL_MERKLE_ROOT"
    requireAllEqual [("currentDate", date, today), ("ageThreshold", age, threshold),
      ("requiredNationality", nationality, requiredNationality), ("merkleRoot", root, merkleRoot),
      ("issuerPubKeyAx", ax, issuerAx), ("issuerPubKeyAy", ay, issuerAy)]
  | _ => .error ⟨400, "CredentialVerification requires exactly 9 public signals"⟩

def enforceAuthoritativeKycPublicInputs (development : Bool) (env : String → Option String)
    (today circuit : String) (signals : List String) : Except Rejection Unit :=
  if development then .ok ()
  else do
    let threshold ← requiredEnv env "SAURON_ZKP_AGE_THRESHOLD"
    let issuerAx ← requiredEnv env "SAURON_ZKP_ISSUER_PUBKEY_AX"
    let issuerAy ← requiredEnv env "SAURON_ZKP_ISSUER_PUBKEY_AY"
    if circuit = "AgeVerification" then
      checkAgeSignals threshold today issuerAx issuerAy signals
    else if circuit = "CredentialVerification" then
      checkCredentialSignals env threshold today issuerAx issuerAy signals
    else
      .error ⟨400, "production KYC accepts only the reviewed AgeVerification or " ++
        "CredentialVerification circuits"⟩

/-! ### What a verified proof asserts -/

def parseBoolSignal (v : Option String) : Option Bool :=
  match v.bind (parseUnsigned 255) with
  | some 0 => some false
  | some 1 => some true
  | _ => none

def parseU64Signal (v : Option String) : Option ℕ := v.bind (parseUnsigned (2 ^ 64 - 1))

def ageSignals (signals : List String) : Bool × ℕ :=
  let firstBool := parseBoolSignal signals.head?
  let lastBool := parseBoolSignal signals.getLast?
  if 5 ≤ signals.length then
    if firstBool.isSome ∧ lastBool.isNone then
      (firstBool.getD false, (parseU64Signal (signals[1]?)).getD 0)
    else (lastBool.getD false, (parseU64Signal signals.head?).getD 0)
  else (firstBool.getD false, (parseU64Signal (signals[1]?)).getD 0)

def credentialSignals (signals : List String) : Bool × Bool × Bool × ℕ :=
  let bit := fun i : ℕ ↦ (parseBoolSignal (signals[i]?)).getD false
  let n := signals.length
  if 9 ≤ n then
    if (signals.take 3).all (fun v ↦ (parseBoolSignal (some v)).isSome) then
      (bit 0, bit 1, bit 2, (parseU64Signal (signals[4]?)).getD 0)
    else (bit (n - 3), bit (n - 2), bit (n - 1), (parseU64Signal (signals[1]?)).getD 0)
  else (bit 0, bit 1, bit 2, 0)

def inclusionSignal (signals : List String) : Bool :=
  let v := if 4 ≤ signals.length then signals.getLast? else signals.head?
  (v.bind (parseUnsigned 255)).getD 0 = 1

def circuitAssertions (circuit : String) (signals : List String) : Claims :=
  if circuit = "AgeVerification" then
    let (ageOk, threshold) := ageSignals signals
    [("age_over_threshold", .bool ageOk), ("age_threshold", .integer threshold)]
  else if circuit = "CredentialVerification" then
    let (ageOk, nationalityOk, credentialOk, threshold) := credentialSignals signals
    [("age_over_threshold", .bool ageOk), ("age_threshold", .integer threshold),
      ("nationality_match", .bool nationalityOk), ("credential_valid", .bool credentialOk)]
  else if circuit = "MerkleInclusion" then
    [("merkle_inclusion", .bool (inclusionSignal signals))]
  else []

def buildZkpAssertions (circuit : String) (signals : List String) : Claims :=
  ("proof_verified", .bool true) :: ("circuit", .str circuit) :: circuitAssertions circuit signals

def selectDisclosedClaims (assertions : Claims) (requested : List String) :
    Except (List String) Claims := do
  let unsupported := requested.filter (fun c ↦ (assertions.lookup c).isNone)
  ensure (unsupported = []) unsupported
  return if requested = [] then assertions
    else requested.dedup.filterMap (fun c ↦ (assertions.lookup c).map (fun v ↦ (c, v)))

def requestedClaims (R : TextReader) (requestedClaimsJson : String) : List String :=
  (((R.intent requestedClaimsJson).bind Json.asArray).bind
    (fun items ↦ items.mapM Json.asStr)).getD []

def disclosedClaims (R : TextReader) (circuit : String) (signals : List String)
    (requestedClaimsJson : String) : Except Rejection Claims :=
  (selectDisclosedClaims (buildZkpAssertions circuit signals)
    (requestedClaims R requestedClaimsJson)).mapError (fun unsupported ↦
      ⟨400, "Unsupported claim request for zkp-only disclosure: [" ++
        ", ".intercalate (unsupported.map R.debugStr) ++ "]"⟩)

end SauronId.Kyc
