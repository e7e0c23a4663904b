import SauronId.Action.Directory
import SauronId.Lib.Joined
import SauronId.Rings.Signature

namespace SauronId.Rings

open SauronId.Action (parsePointHex listMemberPoints Directory MemberRow)
open Lib Lib.Encoding Lib.Text

variable {q : ℕ} {Point : Type} [AddCommGroup Point] [Module (ZMod q) Point]

section Pseudonyms

variable (E : Ristretto q Point)

def sharedSecretAgent (agentMasterSecret : ZMod q) (operatorPubT : Point) : Point :=
  agentMasterSecret • operatorPubT

def sharedSecretOperator (operatorTrapdoorT : ZMod q) (agentMasterPubA : Point) : Point :=
  operatorTrapdoorT • agentMasterPubA

def ringOffset (shared : Point) (ringId : String) : ZMod q :=
  E.scalarFromHash
    (bytes "SAURON_RING_PSEUDONYM:" ++ E.compress shared ++ bytes "|" ++ bytes ringId)

def agentPerRingSecret (agentMasterSecret : ZMod q) (shared : Point) (ringId : String) : ZMod q :=
  agentMasterSecret + ringOffset E shared ringId

def perRingPublic (agentMasterPubA shared : Point) (ringId : String) : Point :=
  agentMasterPubA + ringOffset E shared ringId • E.basepoint

def perRingKeyImage (perRingSecret : ZMod q) (perRingPublic : Point) : Point :=
  perRingSecret • E.hashToPoint perRingPublic

def agentRingIdentity (agentMasterSecret : ZMod q) (shared : Point) (ringId : String) :
    Identity E :=
  .fromScalar (agentPerRingSecret E agentMasterSecret shared ringId)

def deriveMemberPointHex (trapdoor : ZMod q) (agentMasterPub : Point) (ringId : String) :
    String :=
  let shared := sharedSecretOperator trapdoor agentMasterPub
  let pR := perRingPublic E agentMasterPub shared ringId
  hexEncode (E.compress pR)

def Ristretto.curve [DecidableEq Point] (decode : Action.RingSignature → Option (RingSignature q Point))
    (hexError : String → String) : Action.Curve where
  Point := Point
  decEq := inferInstance
  decompress := E.decompress
  verify message ring sig := (decode sig).any (verify E message ring)
  hexError := hexError

end Pseudonyms

variable {E : Ristretto q Point}

/-! ### The two sides derive the same keys -/

theorem sharedSecret_agree (a t : ZMod q) :
    sharedSecretAgent a (t • E.basepoint) = sharedSecretOperator t (a • E.basepoint) := by
  rw [sharedSecretAgent, sharedSecretOperator, smul_smul, smul_smul, mul_comm]

theorem publicPoint_agentRingIdentity (a : ZMod q) (shared : Point) (ringId : String) :
    (agentRingIdentity E a shared ringId).publicPoint =
      perRingPublic E (a • E.basepoint) shared ringId :=
  add_smul a (ringOffset E shared ringId) E.basepoint

theorem keyImage_agentRingIdentity (a : ZMod q) (shared : Point) (ringId : String) :
    (agentRingIdentity E a shared ringId).keyImage =
      perRingKeyImage E (agentPerRingSecret E a shared ringId)
        (perRingPublic E (a • E.basepoint) shared ringId) := by
  rw [← publicPoint_agentRingIdentity]
  rfl

/-! ### Stored points -/

theorem trim_hexEncode (bs : List UInt8) : trim (hexEncode bs) = hexEncode bs := by
  apply trim_eq_self
  intro c hc
  obtain ⟨d, hd, rfl⟩ := Joined.mem_hexEncode hc
  have hall : ∀ d < 16, isWhitespace (Nat.digitChar d) = false := by decide
  exact hall d hd

section Stored

variable [DecidableEq Point] {decode : Action.RingSignature → Option (RingSignature q Point)}
  {hexError : String → String}

theorem parsePointHex_compress (p : Point) :
    parsePointHex (E.curve decode hexError) (hexEncode (E.compress p)) = .ok p := by
  have hdecompress : (E.curve decode hexError).decompress (E.compress p) = some p :=
    E.decompress_compress p
  rw [parsePointHex, trim_hexEncode, hexDecode_hexEncode]
  simp only [E.length_compress, ne_eq, not_true_eq_false, if_false, hdecompress]

theorem parsePointHex_derived (a t : ZMod q) (ringId : String) :
    parsePointHex (E.curve decode hexError)
        (deriveMemberPointHex E t (a • E.basepoint) ringId) =
      .ok (agentRingIdentity E a (sharedSecretAgent a (t • E.basepoint)) ringId).publicPoint := by
  rw [publicPoint_agentRingIdentity, sharedSecret_agree]
  exact parsePointHex_compress _

end Stored

def ringKeyImage (E : Ristretto q Point) (a t : ZMod q) (ringId : String) : Point :=
  let shared := sharedSecretAgent a (t • E.basepoint)
  perRingKeyImage E (agentPerRingSecret E a shared ringId)
    (perRingPublic E (a • E.basepoint) shared ringId)

/-- Whatever an agent signs with its identity of a ring is accepted, at any position among any
other points, and the key image is that of the agent in the ring. -/
theorem member_signs [DecidableEq Point]
    (decode : Action.RingSignature → Option (RingSignature q Point))
    (hexError : String → String) (a t : ZMod q) (ringId : String) :
    ∃ member : Point,
      parsePointHex (E.curve decode hexError)
        (deriveMemberPointHex E t (a • E.basepoint) ringId) = .ok member ∧
      ∀ (ring : List Point) (signerIdx : Fin ring.length), ring.get signerIdx = member →
        ∀ (msg : List UInt8) (random : ℕ → ZMod q),
          verify E msg ring (sign E msg ring
            (agentRingIdentity E a (sharedSecretAgent a (t • E.basepoint)) ringId)
            signerIdx random) = true ∧
          (sign E msg ring (agentRingIdentity E a (sharedSecretAgent a (t • E.basepoint)) ringId)
            signerIdx random).keyImage = ringKeyImage E a t ringId := by
  refine ⟨_, parsePointHex_derived a t ringId, ?_⟩
  intro ring signerIdx hmember msg random
  exact ⟨verify_sign hmember, keyImage_agentRingIdentity a _ ringId⟩

section Demo

def fivePoints : Ristretto 5 (ZMod 5) where
  basepoint := (2 : ℕ)
  compress p := UInt8.ofNat p.val :: List.replicate 31 0
  decompress bs := bs.head?.map (fun b ↦ (b.toNat : ZMod 5))
  length_compress _ := by rw [List.length_cons, List.length_replicate]
  decompress_compress := by decide
  hashFromBytes bs := (bs.map UInt8.toNat).sum + 1
  scalarFromHash bs := (bs.map UInt8.toNat).sum

/-- The agent 3 signs in the middle of a ring. -/
theorem member_signs_fivePoints :
    ∃ member : ZMod 5, verify fivePoints [7] [1, member, 4] (sign fivePoints [7] [1, member, 4]
      (agentRingIdentity fivePoints 3
        (sharedSecretAgent (3 : ZMod 5) ((2 : ZMod 5) • fivePoints.basepoint)) "r")
      1 (fun i ↦ (i : ZMod 5))) = true := by
  obtain ⟨member, -, h⟩ := member_signs (fun _ ↦ none) id (E := fivePoints) 3 2 "r"
  exact ⟨member, (h [1, member, 4] 1 rfl [7] (fun i ↦ (i : ZMod 5))).1⟩

end Demo

end SauronId.Rings
