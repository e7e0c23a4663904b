import Mathlib.Algebra.Module.Basic
import Mathlib.Data.ZMod.Basic
import SauronId.Lib.Cycle
import SauronId.Lib.Encoding

namespace SauronId.Rings

open Lib.Cycle Lib.Encoding

variable {q : ℕ} {Point : Type}

/-- What the code takes from the group besides its operations: the base point, the encoding of
points in 32 bytes, and the two hashes, of which it is only assumed that they are functions. -/
structure Ristretto (q : ℕ) (Point : Type) where
  basepoint : Point
  compress : Point → List UInt8
  decompress : List UInt8 → Option Point
  length_compress : ∀ p, (compress p).length = 32
  decompress_compress : ∀ p, decompress (compress p) = some p
  hashFromBytes : List UInt8 → Point
  scalarFromHash : List UInt8 → ZMod q

def Ristretto.hashToPoint (E : Ristretto q Point) (p : Point) : Point :=
  E.hashFromBytes (E.compress p)

def Ristretto.challenge (E : Ristretto q Point) (msg : List UInt8) (l r : Point) : ZMod q :=
  E.scalarFromHash (bytes "SAURON_RING_CHALLENGE:" ++ msg ++ E.compress l ++ E.compress r)

structure RingSignature (q : ℕ) (Point : Type) where
  c0 : ZMod q
  responses : List (ZMod q)
  keyImage : Point

/-! The points form a module over the scalars: the group has order `q`. -/

variable [AddCommGroup Point] [Module (ZMod q) Point]

structure Identity (E : Ristretto q Point) where
  secret : ZMod q
  publicPoint : Point
  public_eq : publicPoint = secret • E.basepoint

namespace Identity

variable {E : Ristretto q Point}

def fromScalar (secret : ZMod q) : Identity E := ⟨secret, secret • E.basepoint, rfl⟩

def keyImage (identity : Identity E) : Point :=
  identity.secret • E.hashFromBytes (E.compress identity.publicPoint)

end Identity

def linkChallenge (E : Ristretto q Point) (msg : List UInt8) (keyImage member : Point)
    (response c : ZMod q) : ZMod q :=
  E.challenge msg (response • E.basepoint + c • member)
    (response • E.hashToPoint member + c • keyImage)

def signStep (E : Ristretto q Point) (msg : List UInt8) (ring : List Point) (keyImage : Point)
    (signerIdx : Fin ring.length) (responses challenges : Fin ring.length → ZMod q) (offset : ℕ) :
    Fin ring.length → ZMod q :=
  let i := wrap signerIdx.pos (signerIdx + offset)
  let next := wrap signerIdx.pos (i + 1)
  let c := linkChallenge E msg keyImage (ring.get i) (responses i) (challenges i)
  if next ≠ signerIdx then Function.update challenges next c
  else Function.update challenges signerIdx c

/-- `random` is what the generator returns: the responses, and then `alpha`. -/
def sign (E : Ristretto q Point) (msg : List UInt8) (ring : List Point) (identity : Identity E)
    (signerIdx : Fin ring.length) (random : ℕ → ZMod q) : RingSignature q Point :=
  let responses : Fin ring.length → ZMod q := fun i ↦ random i
  let keyImage := identity.keyImage
  let alpha := random ring.length
  let lInit := alpha • E.basepoint
  let rInit := alpha • E.hashToPoint (ring.get signerIdx)
  let first := Function.update (fun _ ↦ 0) (wrap signerIdx.pos (signerIdx + 1))
    (E.challenge msg lInit rInit)
  let challenges := (List.range' 1 (ring.length - 1)).foldl
    (signStep E msg ring keyImage signerIdx responses) first
  { c0 := challenges (wrap signerIdx.pos 0)
    responses := List.ofFn (Function.update responses signerIdx
      (alpha - challenges signerIdx * identity.secret))
    keyImage := keyImage }

def verify (E : Ristretto q Point) (msg : List UInt8) (ring : List Point)
    (sig : RingSignature q Point) : Bool :=
  if ring.length = 0 ∨ sig.responses.isEmpty then false
  else if sig.responses.length ≠ ring.length then false
  else
    (ring.zip sig.responses).foldl (fun c member ↦
      linkChallenge E msg sig.keyImage member.1 member.2 c) sig.c0 == sig.c0

/-! ### Signatures are accepted -/

section Accepted

variable {E : Ristretto q Point} {msg : List UInt8} {ring : List Point} {identity : Identity E}
  {signerIdx : Fin ring.length} {random : ℕ → ZMod q}

theorem signStep_eq (keyImage : Point) (responses : Fin ring.length → ZMod q) :
    signStep E msg ring keyImage signerIdx responses = advance signerIdx.pos
      (fun i ↦ linkChallenge E msg keyImage (ring.get i) (responses i)) signerIdx := by
  funext challenges offset
  unfold signStep advance
  simp only [wrap_wrap_add]
  split_ifs with hnext
  · rfl
  · rw [not_ne_iff.mp hnext]

theorem verify_of_links (hn : 0 < ring.length) {keyImage : Point}
    {responses c : Fin ring.length → ZMod q}
    (h : ∀ i : Fin ring.length, c (wrap hn (i + 1)) =
      linkChallenge E msg keyImage (ring.get i) (responses i) (c i)) :
    verify E msg ring ⟨c (wrap hn 0), List.ofFn responses, keyImage⟩ = true := by
  have hlen : (List.ofFn responses).length = ring.length := List.length_ofFn
  have hresponses : (List.ofFn responses).isEmpty = false := by
    rw [List.isEmpty_eq_false_iff_exists_mem]
    exact ⟨responses ⟨0, hn⟩, List.mem_ofFn.mpr ⟨_, rfl⟩⟩
  have hzip : (ring.zip (List.ofFn responses)).length = ring.length := by
    rw [List.length_zip, hlen, Nat.min_self]
  have hfold := foldl_of_steps (l := ring.zip (List.ofFn responses))
    (g := fun c member ↦ linkChallenge E msg keyImage member.1 member.2 c)
    (c := fun i ↦ c (wrap hn i)) (by
      intro i hi
      have hi' : i < ring.length := hi.trans_eq hzip
      have hlink := h ⟨i, hi'⟩
      have hwrap : wrap hn i = ⟨i, hi'⟩ := wrap_val hn ⟨i, hi'⟩
      simpa [hwrap] using hlink)
  have hround : wrap hn ring.length = wrap hn 0 := Fin.ext (by simp [wrap])
  rw [hzip, hround] at hfold
  unfold verify
  rw [if_neg (by simp only [hresponses, Bool.false_eq_true, or_false]; omega),
    if_neg (not_ne_iff.mpr hlen)]
  exact beq_iff_eq.mpr hfold

/-- The response of the signer closes the ring: it takes any challenge back to the commitments
to `alpha`. -/
theorem linkChallenge_signer {member : Point} (hmember : member = identity.publicPoint)
    (alpha c : ZMod q) :
    linkChallenge E msg identity.keyImage member (alpha - c * identity.secret) c =
      E.challenge msg (alpha • E.basepoint) (alpha • E.hashToPoint member) := by
  have hl : (alpha - c * identity.secret) • E.basepoint + c • member = alpha • E.basepoint := by
    rw [hmember, identity.public_eq, smul_smul, ← add_smul, sub_add_cancel]
  have hr : (alpha - c * identity.secret) • E.hashToPoint member + c • identity.keyImage =
      alpha • E.hashToPoint member := by
    have himage : identity.keyImage = identity.secret • E.hashToPoint member := by
      rw [hmember]
      rfl
    rw [himage, smul_smul, ← add_smul, sub_add_cancel]
  rw [linkChallenge, hl, hr]

theorem verify_sign (h : ring.get signerIdx = identity.publicPoint) :
    verify E msg ring (sign E msg ring identity signerIdx random) = true := by
  unfold sign
  simp only [signStep_eq]
  set step := fun i ↦ linkChallenge E msg identity.keyImage (ring.get i) (random i)
  set first := Function.update (fun _ : Fin ring.length ↦ (0 : ZMod q))
    (wrap signerIdx.pos (signerIdx + 1)) (E.challenge msg (random ring.length • E.basepoint)
      (random ring.length • E.hashToPoint (ring.get signerIdx))) with hfirst
  change verify E msg ring ⟨fill signerIdx.pos step signerIdx first (wrap signerIdx.pos 0), _, _⟩ = _
  apply verify_of_links
  intro i
  by_cases hi : i = signerIdx
  · subst hi
    rw [Function.update_self, fill_first, hfirst, Function.update_self]
    exact (linkChallenge_signer h _ _).symm
  · rw [Function.update_of_ne hi, fill_next hi]

end Accepted

end SauronId.Rings
