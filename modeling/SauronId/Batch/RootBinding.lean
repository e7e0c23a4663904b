import SauronId.Lib.BigEndian
import SauronId.Lib.Decimal
import SauronId.Lib.Fallible

namespace SauronId.Zk.RootBinding

open Lib Lib.BigEndian Lib.Encoding Lib.Text

/-- The loop over the buffer from its end: every byte times ten plus the carry. No product leaves
the sixteen bits it is computed in. -/
def timesTen (buf : List UInt8) (d : ℕ) : List UInt8 × ℕ :=
  buf.foldr (fun byte (out, carry) ↦
    let prod := byte.toNat * 10 + carry
    (UInt8.ofNat prod :: out, prod / 256)) ([], d)

def addDigit (buf : List UInt8) (ch : Char) : Except String (List UInt8) :=
  let (buf, carry) := timesTen buf (ch.toNat - '0'.toNat)
  if carry ≠ 0 then .error "value exceeds 32 bytes" else .ok buf

def decimalToPaddedHex (dec : String) : Except String String :=
  if dec.toList = [] ∨ dec.toList.all Char.isDigit = false then
    .error ("not a base-10 unsigned integer: " ++ dec)
  else do
    let buf ← dec.toList.foldlM addDigit (List.replicate 32 0)
    return hexEncode buf

theorem timesTen_cons (b : UInt8) (buf : List UInt8) (d : ℕ) :
    timesTen (b :: buf) d = (UInt8.ofNat (b.toNat * 10 + (timesTen buf d).2) :: (timesTen buf d).1,
      (b.toNat * 10 + (timesTen buf d).2) / 256) := rfl

theorem timesTen_be (width n d : ℕ) :
    timesTen (be width n) d =
      (be width (10 * n + d), (10 * (n % 256 ^ width) + d) / 256 ^ width) := by
  induction width with
  | zero => simp [timesTen, be, Nat.mod_one]
  | succ width ih =>
    have hpos : 0 < 256 ^ width := by positivity
    have hquot : (10 * n + d) / 256 ^ width =
        10 * (n / 256 ^ width) + (10 * (n % 256 ^ width) + d) / 256 ^ width := by
      have hsplit : 10 * n + d =
          10 * (n % 256 ^ width) + d + 256 ^ width * (10 * (n / 256 ^ width)) := by
        have hn := Nat.mod_add_div n (256 ^ width)
        calc 10 * n + d = 10 * (n % 256 ^ width + 256 ^ width * (n / 256 ^ width)) + d := by rw [hn]
          _ = _ := by ring
      rw [hsplit, Nat.add_mul_div_left _ _ hpos, Nat.add_comm]
    have hcarry : (10 * (n % 256 ^ (width + 1)) + d) / 256 ^ (width + 1) =
        (n / 256 ^ width % 256 * 10 + (10 * (n % 256 ^ width) + d) / 256 ^ width) / 256 := by
      have hsplit : 10 * (n % 256 ^ (width + 1)) + d =
          10 * (n % 256 ^ width) + d + 256 ^ width * (n / 256 ^ width % 256 * 10) := by
        rw [pow_succ, Nat.mod_mul]
        ring
      rw [hsplit, pow_succ, ← Nat.div_div_eq_div_mul, Nat.add_mul_div_left _ _ hpos, Nat.add_comm]
    have hbyte : (UInt8.ofNat (n / 256 ^ width)).toNat = n / 256 ^ width % 256 := rfl
    rw [be, timesTen_cons, ih, be, hbyte, hcarry, hquot, Prod.mk.injEq, List.cons.injEq,
      ← UInt8.toNat_inj, UInt8.toNat_ofNat', UInt8.toNat_ofNat']
    exact ⟨⟨by omega, rfl⟩, rfl⟩

theorem addDigit_be {n : ℕ} (hn : n < 256 ^ 32) (ch : Char) :
    addDigit (be 32 n) ch =
      if readDigits n [ch] < 256 ^ 32 then .ok (be 32 (readDigits n [ch]))
      else .error "value exceeds 32 bytes" := by
  have hcarry : (10 * n + (ch.toNat - '0'.toNat)) / 256 ^ 32 ≠ 0 ↔
      ¬ readDigits n [ch] < 256 ^ 32 := by
    rw [ne_eq, Nat.div_eq_zero_iff]
    simp [readDigits]
  rw [addDigit, timesTen_be, Nat.mod_eq_of_lt hn]
  simp only [hcarry, ite_not]
  rfl

theorem le_readDigits (n : ℕ) (digits : List Char) : n ≤ readDigits n digits := by
  induction digits generalizing n with
  | nil => exact le_rfl
  | cons c digits ih => exact le_trans (by omega) (ih (10 * n + (c.toNat - '0'.toNat)))

theorem foldlM_addDigit {n : ℕ} (hn : n < 256 ^ 32) (digits : List Char) :
    digits.foldlM addDigit (be 32 n) =
      if readDigits n digits < 256 ^ 32 then .ok (be 32 (readDigits n digits))
      else .error "value exceeds 32 bytes" := by
  induction digits generalizing n with
  | nil => exact (if_pos hn).symm
  | cons ch digits ih =>
    have hread : readDigits n (ch :: digits) = readDigits (readDigits n [ch]) digits := rfl
    rw [List.foldlM_cons, addDigit_be hn, hread]
    by_cases hnext : readDigits n [ch] < 256 ^ 32
    · rw [if_pos hnext]
      exact ih hnext
    · rw [if_neg hnext, if_neg (fun h ↦ hnext ((le_readDigits _ _).trans_lt h))]
      rfl

theorem decimalToPaddedHex_eq_ok {dec out : String} :
    decimalToPaddedHex dec = .ok out ↔
      ∃ n, digitsValue dec.toList = some n ∧ n < 256 ^ 32 ∧ out = hexEncode (be 32 n) := by
  unfold decimalToPaddedHex
  split_ifs with hdec
  · refine iff_of_false nofun ?_
    rintro ⟨n, hvalue, -⟩
    obtain ⟨hne, hdigits, -⟩ := digitsValue_eq_some.mp hvalue
    rw [List.all_eq_true.mpr hdigits] at hdec
    exact hdec.elim hne nofun
  · rw [not_or, Bool.not_eq_false, List.all_eq_true] at hdec
    have hzero : List.replicate 32 0 = be 32 0 := by decide
    rw [hzero, foldlM_addDigit (by positivity), bind_eq_ok]
    simp only [digitsValue_eq_some]
    constructor
    · rintro ⟨buf, hbuf, h⟩
      split_ifs at hbuf with hlt
      cases hbuf
      exact ⟨_, ⟨hdec.1, hdec.2, rfl⟩, hlt, (Except.ok.inj h).symm⟩
    · rintro ⟨n, ⟨-, -, rfl⟩, hlt, rfl⟩
      exact ⟨_, if_pos hlt, rfl⟩

/-! ### The root of a proof -/

structure ActionLogProofPayload where
  (circuit proofB64 vkId : String)
  publicInputs : List String

inductive ZkVerifyError
  | malformed (m : String)
  | keyNotFound (m : String)
  | verifierFailed (m : String)
  | invalid (m : String)

/-- What the verifier does before and after it looks at the first two public inputs, of which the
first part ensures that there are two. -/
structure Verifier where
  lowercase : String → String
  validatePayloadShape : ActionLogProofPayload → Except ZkVerifyError Unit
  groth16 : ActionLogProofPayload → Except ZkVerifyError Unit

def trimStartMatches : List Char → List Char
  | '0' :: 'x' :: rest => trimStartMatches rest
  | text => text

def expectedRoot (V : Verifier) (expectedRootHex : String) : String :=
  V.lowercase (String.ofList (trimStartMatches (trim expectedRootHex).toList))

def verifyActionLogProofWithVk (V : Verifier) (payload : ActionLogProofPayload)
    (expectedRootHex : String) : Except ZkVerifyError Unit := do
  V.validatePayloadShape payload
  let claimedValid := trim (payload.publicInputs.getD 0 "")
  ensure (claimedValid = "1") (.invalid ("circuit output valid=" ++ claimedValid ++
    ", expected 1 (proof attests a FAILED predicate)"))
  let expected := expectedRoot V expectedRootHex
  let claimed ← (decimalToPaddedHex (trim (payload.publicInputs.getD 1 ""))).mapError
    (fun e ↦ .malformed ("bad root encoding: " ++ e))
  ensure (claimed = expected)
    (.invalid ("proof root " ++ claimed ++ " ≠ expected root " ++ expected))
  V.groth16 payload

def hexNumber (text : String) : Option ℕ := (hexDecode text).map fromBytesBe

end SauronId.Zk.RootBinding
