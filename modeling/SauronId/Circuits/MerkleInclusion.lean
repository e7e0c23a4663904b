import SauronId.Circuits.Path

namespace SauronId.Circuits

open Lib.Gadgets

structure EdDSASig where
  (R8x R8y S : Fr)

structure IssuerPubKey where
  (Ax Ay : Fr)

def IssuerSigned (K : Circomlib) (key : IssuerPubKey) (sig : EdDSASig) (message : Fr) : Prop :=
  K.EdDSAPoseidonVerifier 1 key.Ax key.Ay sig.S sig.R8x sig.R8y message

structure InclusionSignals (inclusionLevels revocationLevels : ℕ) where
  credentialHash : Fr
  (inclusionPathElements inclusionPathIndices : Fin inclusionLevels → Fr)
  (revocationPathElements revocationPathIndices : Fin revocationLevels → Fr)
  revocationLeafValue : Fr
  issuerSig : EdDSASig
  (inclusionRoot revocationRoot : Fr)
  issuerPubKey : IssuerPubKey

variable {inclusionLevels revocationLevels : ℕ}

structure MerkleInclusion (K : Circomlib) (s : InclusionSignals inclusionLevels revocationLevels)
    (valid : Fr) : Prop where
  inclusion : ∃ root, MerklePathVerifier K s.credentialHash s.inclusionPathElements
    s.inclusionPathIndices root ∧ IsEqual root s.inclusionRoot 1
  leafValue : s.revocationLeafValue = 0
  /-- The place in the revocation tree is the credential hash. -/
  position : ∃ hashBits, Num2Bits revocationLevels s.credentialHash hashBits ∧
    ∀ i, s.revocationPathIndices i = hashBits i
  revocation : ∃ root, MerklePathVerifier K s.revocationLeafValue s.revocationPathElements
    s.revocationPathIndices root ∧ IsEqual root s.revocationRoot 1
  signature : IssuerSigned K s.issuerPubKey s.issuerSig s.inclusionRoot
  valid : valid = 1

def InclusionSignals.inputs (K : Circomlib) (s : InclusionSignals inclusionLevels revocationLevels) :
    Set (List Fr) :=
  pathInputs K s.credentialHash s.inclusionPathElements s.inclusionPathIndices ∪
    pathInputs K s.revocationLeafValue s.revocationPathElements s.revocationPathIndices

variable {K : Circomlib} {T : Set (List Fr)}

/-- The circuit has a satisfying witness for a credential and a signature, against the roots of
two trees. All that it hashes is among `T`. -/
def Provable (inclusion : Tree K T inclusionLevels) (revocation : Tree K T revocationLevels)
    (credentialHash : Fr) (key : IssuerPubKey) (sig : EdDSASig) : Prop :=
  ∃ (s : InclusionSignals inclusionLevels revocationLevels) (valid : Fr),
    MerkleInclusion K s valid ∧ s.inputs K ⊆ T ∧ s.credentialHash = credentialHash ∧
    s.inclusionRoot = inclusion.root ∧ s.revocationRoot = revocation.root ∧
    s.issuerPubKey = key ∧ s.issuerSig = sig

variable {inclusion : Tree K T inclusionLevels} {revocation : Tree K T revocationLevels}
  {credentialHash : Fr} {key : IssuerPubKey} {sig : EdDSASig}

theorem exists_slot_of_provable (hT : Set.InjOn K.poseidon T)
    (h : Provable inclusion revocation credentialHash key sig) :
    ∃ m : ℕ, m < 2 ^ revocationLevels ∧ (m : Fr) = credentialHash ∧ revocation.leaves m = 0 := by
  obtain ⟨s, valid, hs, hin, rfl, -, hroot, -, -⟩ := h
  obtain ⟨hashBits, hbits, hindices⟩ := hs.position
  obtain ⟨m, hm, hhash, rfl⟩ := num2Bits_iff.mp hbits
  obtain ⟨root, ⟨-, hlevels⟩, heq⟩ := hs.revocation
  obtain rfl := isEqual_one.mp heq
  have hdigits : s.revocationPathIndices = digits scalarModulus revocationLevels m :=
    funext hindices
  rw [hdigits, hashLevels_iff, hroot] at hlevels
  refine ⟨m, hm, hhash, ?_⟩
  rw [← hs.leafValue]
  apply revocation.leaf_of_path hT hm _ hlevels
  rw [← hdigits]
  exact Set.subset_union_right.trans hin

theorem provable_of_slot {i m : ℕ} (hi : i < 2 ^ inclusionLevels)
    (hleaf : inclusion.leaves i = credentialHash) (hm : m < 2 ^ revocationLevels)
    (hhash : (m : Fr) = credentialHash) (hempty : revocation.leaves m = 0)
    (hsig : IssuerSigned K key sig inclusion.root) :
    Provable inclusion revocation credentialHash key sig := by
  obtain ⟨elements, hpath, hin⟩ := inclusion.exists_path hi
  obtain ⟨revElements, hrevPath, hrevIn⟩ := revocation.exists_path hm
  rw [hleaf] at hpath hin
  rw [hempty] at hrevPath hrevIn
  refine ⟨⟨credentialHash, elements, digits _ _ i, revElements, digits _ _ m, 0, sig,
    inclusion.root, revocation.root, key⟩, 1, ?_, Set.union_subset hin hrevIn, rfl, rfl, rfl, rfl,
    rfl⟩
  exact
    { inclusion := ⟨_, merklePathVerifier_iff.mpr ⟨i, hi, rfl, hpath⟩, isEqual_one.mpr rfl⟩
      leafValue := rfl
      position := ⟨_, num2Bits_iff.mpr ⟨m, hm, hhash, rfl⟩, fun _ ↦ rfl⟩
      revocation := ⟨_, merklePathVerifier_iff.mpr ⟨m, hm, rfl, hrevPath⟩, isEqual_one.mpr rfl⟩
      signature := hsig
      valid := rfl }

/-- A proof exists exactly when a slot that stands for the hash is there and is empty. -/
theorem provable_iff (hT : Set.InjOn K.poseidon T) {i : ℕ} (hi : i < 2 ^ inclusionLevels)
    (hleaf : inclusion.leaves i = credentialHash)
    (hsig : IssuerSigned K key sig inclusion.root) :
    Provable inclusion revocation credentialHash key sig ↔
      ∃ m : ℕ, m < 2 ^ revocationLevels ∧ (m : Fr) = credentialHash ∧
        revocation.leaves m = 0 := by
  constructor
  · exact exists_slot_of_provable hT
  · rintro ⟨m, hm, hhash, hempty⟩
    exact provable_of_slot hi hleaf hm hhash hempty hsig

theorem cast_eq_iff {m : ℕ} {x : Fr} : (m : Fr) = x ↔ ∃ k, m = x.val + k * scalarModulus := by
  constructor
  · rintro rfl
    refine ⟨m / scalarModulus, ?_⟩
    rw [ZMod.val_natCast, Nat.mod_add_div']
  · rintro ⟨k, rfl⟩
    simp

/-- The condition on the inputs: the hash fits the revocation tree if its slot there is empty, and
if that slot is not empty, no other slot that stands for the same signal is empty. Such slots
exist only in trees of more than 253 levels. -/
def HashAddressable (revocation : Tree K T revocationLevels) (credentialHash : Fr) : Prop :=
  (revocation.leaves (credentialHash.val % 2 ^ revocationLevels) = 0 →
    credentialHash.val < 2 ^ revocationLevels) ∧
  (revocation.leaves (credentialHash.val % 2 ^ revocationLevels) ≠ 0 →
    ∀ k, credentialHash.val + k * scalarModulus < 2 ^ revocationLevels →
      revocation.leaves (credentialHash.val + k * scalarModulus) ≠ 0)

/-- For a credential in the inclusion tree and a valid signature on its root, a proof exists
exactly when the slot of the low digits of the hash is empty, if and only if the condition
holds. -/
theorem provable_iff_slot_empty_iff (hT : Set.InjOn K.poseidon T) {i : ℕ}
    (hi : i < 2 ^ inclusionLevels) (hleaf : inclusion.leaves i = credentialHash)
    (hsig : IssuerSigned K key sig inclusion.root) :
    (Provable inclusion revocation credentialHash key sig ↔
        revocation.leaves (credentialHash.val % 2 ^ revocationLevels) = 0) ↔
      HashAddressable revocation credentialHash := by
  rw [provable_iff hT hi hleaf hsig]
  simp only [cast_eq_iff]
  by_cases hlow : revocation.leaves (credentialHash.val % 2 ^ revocationLevels) = 0
  · simp only [HashAddressable, hlow, iff_true, forall_const, ne_eq, not_true_eq_false,
      false_implies, and_true]
    constructor
    · rintro ⟨m, hm, ⟨k, rfl⟩, -⟩
      exact (Nat.le_add_right _ _).trans_lt hm
    · intro hfits
      rw [Nat.mod_eq_of_lt hfits] at hlow
      exact ⟨_, hfits, ⟨0, by simp⟩, hlow⟩
  · simp only [HashAddressable, hlow, iff_false, false_implies, true_and, ne_eq,
      not_false_eq_true, forall_const, not_exists, not_and]
    constructor
    · intro h k hk hempty
      exact h _ hk ⟨k, rfl⟩ hempty
    · rintro h _ hm ⟨k, rfl⟩ hempty
      exact h k hm hempty

section Demo

def selfSigned (message : Fr) : EdDSASig := ⟨0, 0, message⟩

theorem issuerSigned_selfSigned (key : IssuerPubKey) (message : Fr) :
    IssuerSigned sumKit key (selfSigned message) message := fun _ ↦ rfl

def twins : Set (List Fr) := {l | ∃ z, l = [z, z]}

theorem injOn_twins : Set.InjOn sumKit.poseidon twins := by
  rintro _ ⟨y, rfl⟩ _ ⟨z, rfl⟩ he
  have hsum : y + y = z + z := by simpa [sumKit] using he
  have htwo : (2 : Fr) ≠ 0 := by decide
  rw [← two_mul, ← two_mul] at hsum
  rw [mul_left_cancel₀ htwo hsum]

def uniform (levels : ℕ) (c : Fr) : Tree sumKit twins levels where
  leaves _ := c
  asked a b := by
    induction levels generalizing c with
    | zero => exact False.elim
    | succ levels ih =>
      rintro (⟨i, -, hab⟩ | hab)
      · obtain ⟨rfl, rfl⟩ := Prod.mk.inj hab
        exact ⟨_, rfl⟩
      · exact ih (sumKit.hash2 c c) hab

theorem provable_five :
    Provable (uniform 3 5) (uniform 3 0) 5 ⟨0, 0⟩ (selfSigned (uniform 3 5).root) ↔
      (uniform 3 0).leaves ((5 : Fr).val % 2 ^ 3) = 0 := by
  apply (provable_iff_slot_empty_iff injOn_twins (i := 0) (by decide) rfl
    (issuerSigned_selfSigned _ _)).mpr
  exact ⟨fun _ ↦ by decide, fun h ↦ absurd rfl h⟩

/-- With the shipped depths the hash 1024 cannot be proved, although nothing is revoked. -/
theorem not_provable_1024 :
    (uniform 10 1024).leaves 0 = 1024 ∧
      IssuerSigned sumKit ⟨0, 0⟩ (selfSigned (uniform 10 1024).root) (uniform 10 1024).root ∧
      (∀ i, (uniform 10 0).leaves i = 0) ∧
      ¬ Provable (uniform 10 1024) (uniform 10 0) 1024 ⟨0, 0⟩
        (selfSigned (uniform 10 1024).root) := by
  refine ⟨rfl, issuerSigned_selfSigned _ _, fun _ ↦ rfl, ?_⟩
  intro h
  obtain ⟨m, hm, hhash, -⟩ := exists_slot_of_provable injOn_twins h
  obtain ⟨k, rfl⟩ := cast_eq_iff.mp hhash
  have hval : (1024 : Fr).val = 1024 := by decide
  omega

end Demo

end SauronId.Circuits
