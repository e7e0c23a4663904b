import SauronId.Lib.Encoding
import SauronId.Lib.Fallible
import SauronId.Lib.Merkle

namespace SauronId.Kyc.Commitments

open Lib Lib.Encoding

/-- The library `rs_merkle`, whose operations are taken to be correct: besides the proofs, every
tree with a leaf has a root. -/
structure RsMerkle extends MerkleScheme (List UInt8) where
  root_isSome : ∀ leaves, leaves ≠ [] → (root leaves).isSome

example : Nonempty RsMerkle :=
  ⟨{ toMerkleScheme := .pairwise (· ++ ·)
     root_isSome := fun l hl ↦ Option.isSome_iff_exists.mpr
      ⟨_, MerkleScheme.pairRoot_append (Nat.le_succ l.length) hl⟩ }⟩

structure MerkleTree where
  committed : List (List UInt8) := []
  uncommitted : List (List UInt8) := []

namespace MerkleTree

def insert (t : MerkleTree) (leaf : List UInt8) : MerkleTree :=
  { t with uncommitted := t.uncommitted ++ [leaf] }

def commit (t : MerkleTree) : MerkleTree := ⟨t.committed ++ t.uncommitted, []⟩

end MerkleTree

structure MerkleCommitmentLedger where
  leaves : List (List UInt8) := []
  tree : MerkleTree := {}

structure CommitmentReceipt where
  (leafIndex totalLeaves : ℕ)
  merkleRoot : String
  merkleProof : List String

def decodeLeaf (invalid : String) (wrongSize : ℕ → String) (hex : String) :
    Except String (List UInt8) :=
  match hexDecode hex with
  | none => .error invalid
  | some bs => if bs.length ≠ 32 then .error (wrongSize bs.length) else .ok bs

def leafOf (hex : String) : Option (List UInt8) :=
  (hexDecode hex).filter (fun bs ↦ bs.length = 32)

theorem decodeLeaf_eq_ok {invalid hex : String} {wrongSize : ℕ → String} {leaf : List UInt8} :
    decodeLeaf invalid wrongSize hex = .ok leaf ↔ leafOf hex = some leaf := by
  unfold decodeLeaf leafOf
  cases hexDecode hex with
  | none => simp
  | some bs =>
    rw [Option.filter_some]
    by_cases hlen : bs.length = 32
    · simp [hlen]
    · simp [hlen]

namespace MerkleCommitmentLedger

variable (M : RsMerkle) (hexError : String → String)

def rootHex (ledger : MerkleCommitmentLedger) : Option String :=
  (M.root ledger.tree.committed).map hexEncode

def len (ledger : MerkleCommitmentLedger) : ℕ := ledger.leaves.length

def addCommitment (ledger : MerkleCommitmentLedger) (commitmentHex : String) :
    Except String CommitmentReceipt × MerkleCommitmentLedger :=
  match decodeLeaf ("commitment hex invalide : " ++ hexError commitmentHex)
      (fun n ↦ "commitment doit être 32 octets (SHA256), reçu " ++ toString n ++ " octets")
      commitmentHex with
  | .error e => (.error e, ledger)
  | .ok leaf =>
    let tree := (ledger.tree.insert leaf).commit
    let next : MerkleCommitmentLedger := ⟨ledger.leaves ++ [leaf], tree⟩
    let leafIndex := next.leaves.length - 1
    match M.root tree.committed with
    | none => (.error "impossible de calculer la racine Merkle", next)
    | some root =>
      (.ok ⟨leafIndex, next.leaves.length, hexEncode root,
        (M.proof tree.committed leafIndex).map hexEncode⟩, next)

def insertDbLeaf (ledger : MerkleCommitmentLedger) (hex : String) :
    Except String MerkleCommitmentLedger := do
  let leaf ← decodeLeaf ("feuille DB corrompue '" ++ hex ++ "' : " ++ hexError hex)
    (fun n ↦ "feuille DB invalide : " ++ toString n ++ " octets au lieu de 32") hex
  return ⟨ledger.leaves ++ [leaf], ledger.tree.insert leaf⟩

def fromDbLeaves (orderedCommitments : List String) : Except String MerkleCommitmentLedger :=
  if orderedCommitments = [] then .ok {}
  else do
    let ledger ← orderedCommitments.foldlM (insertDbLeaf hexError) {}
    return { ledger with tree := ledger.tree.commit }

def addAll (ledger : MerkleCommitmentLedger) :
    List String → List (Except String CommitmentReceipt) × MerkleCommitmentLedger
  | [] => ([], ledger)
  | hex :: rest =>
    let (answer, next) := ledger.addCommitment M hexError hex
    (answer :: (next.addAll rest).1, (next.addAll rest).2)

def Verifies (hex : String) (r : CommitmentReceipt) : Prop :=
  ∃ leaf root hashes, hexDecode hex = some leaf ∧ hexDecode r.merkleRoot = some root ∧
    r.merkleProof.map hexDecode = hashes.map some ∧
    M.fold leaf r.leafIndex r.totalLeaves hashes = some root

def Settled (ledger : MerkleCommitmentLedger) : Prop := ledger.tree = ⟨ledger.leaves, []⟩

variable {ledger : MerkleCommitmentLedger} {hex : String}

theorem addCommitment_of_none (h : leafOf hex = none) :
    ∃ e, ledger.addCommitment M hexError hex = (.error e, ledger) := by
  unfold addCommitment
  split
  · exact ⟨_, rfl⟩
  · next leaf hleaf =>
    rw [decodeLeaf_eq_ok, h] at hleaf
    cases hleaf

theorem addCommitment_of_some {leaf : List UInt8} (hs : ledger.Settled)
    (h : leafOf hex = some leaf) :
    ∃ r, ledger.addCommitment M hexError hex =
        (.ok r, ⟨ledger.leaves ++ [leaf], ⟨ledger.leaves ++ [leaf], []⟩⟩) ∧
      (M.root (ledger.leaves ++ [leaf])).map hexEncode = some r.merkleRoot ∧ Verifies M hex r := by
  obtain ⟨hdecode, -⟩ := Option.filter_eq_some_iff.mp h
  have htree : (ledger.tree.insert leaf).commit = ⟨ledger.leaves ++ [leaf], []⟩ := by
    rw [hs]
    rfl
  obtain ⟨root, hroot⟩ := Option.isSome_iff_exists.mp
    (M.root_isSome (ledger.leaves ++ [leaf]) (List.concat_ne_nil _ _))
  have hlast : (ledger.leaves ++ [leaf])[ledger.leaves.length]? = some leaf :=
    List.getElem?_concat_length
  have hfold := (M.fold_proof _ _ _ hlast).trans hroot
  have hadd : ledger.addCommitment M hexError hex =
      (.ok ⟨ledger.leaves.length, (ledger.leaves ++ [leaf]).length, hexEncode root,
        (M.proof (ledger.leaves ++ [leaf]) ledger.leaves.length).map hexEncode⟩,
        ⟨ledger.leaves ++ [leaf], ⟨ledger.leaves ++ [leaf], []⟩⟩) := by
    rw [addCommitment, decodeLeaf_eq_ok.mpr h]
    dsimp only
    rw [htree, hroot, List.length_append, List.length_singleton, Nat.add_sub_cancel]
  refine ⟨_, hadd, ?_, leaf, root, _, hdecode, hexDecode_hexEncode root, ?_, hfold⟩
  · rw [hroot, Option.map_some]
  · rw [List.map_map]
    exact List.map_congr_left fun bs _ ↦ hexDecode_hexEncode bs

theorem addAll_spec (hs : ledger.Settled) (commitments : List String) :
    (ledger.addAll M hexError commitments).2 =
        ⟨ledger.leaves ++ commitments.filterMap leafOf,
          ⟨ledger.leaves ++ commitments.filterMap leafOf, []⟩⟩ ∧
      ((∀ a ∈ (ledger.addAll M hexError commitments).1, a.isOk = true) ↔
        ∀ hex ∈ commitments, (leafOf hex).isSome) := by
  induction commitments generalizing ledger with
  | nil =>
    rw [List.filterMap_nil, List.append_nil, ← hs]
    exact ⟨rfl, iff_of_true nofun nofun⟩
  | cons hex rest ih =>
    cases hleaf : leafOf hex with
    | none =>
      obtain ⟨e, hadd⟩ := addCommitment_of_none M hexError hleaf
      rw [addAll, hadd, List.filterMap_cons_none hleaf]
      refine ⟨(ih hs).1, iff_of_false (fun h ↦ ?_) (fun h ↦ ?_)⟩
      · exact absurd (h _ List.mem_cons_self) Bool.false_ne_true
      · rw [List.forall_mem_cons, hleaf] at h
        exact Bool.false_ne_true h.1
    | some leaf =>
      obtain ⟨r, hadd, -⟩ := addCommitment_of_some M hexError hs hleaf
      have hrest := @ih ⟨ledger.leaves ++ [leaf], ⟨ledger.leaves ++ [leaf], []⟩⟩ rfl
      rw [addAll, hadd, List.filterMap_cons_some hleaf, List.append_cons ledger.leaves leaf
        (rest.filterMap leafOf)]
      refine ⟨hrest.1, ?_⟩
      rw [List.forall_mem_cons, List.forall_mem_cons, hleaf, hrest.2]
      exact and_congr_left fun _ ↦ iff_of_true rfl rfl

variable {hexError}

theorem insertDbLeaf_eq_ok {next : MerkleCommitmentLedger} :
    ledger.insertDbLeaf hexError hex = .ok next ↔ ∃ leaf, leafOf hex = some leaf ∧
      ⟨ledger.leaves ++ [leaf], ledger.tree.insert leaf⟩ = next := by
  simp only [insertDbLeaf, bind_eq_ok, decodeLeaf_eq_ok, pure, Except.pure, Except.ok.injEq]

variable {commitments : List String}

theorem foldlM_insertDbLeaf_eq_ok {last : MerkleCommitmentLedger} :
    commitments.foldlM (insertDbLeaf hexError) ledger = .ok last ↔
      (∀ hex ∈ commitments, (leafOf hex).isSome) ∧
        last = ⟨ledger.leaves ++ commitments.filterMap leafOf, ⟨ledger.tree.committed,
          ledger.tree.uncommitted ++ commitments.filterMap leafOf⟩⟩ := by
  induction commitments generalizing ledger with
  | nil =>
    rw [List.foldlM_nil, List.filterMap_nil, List.append_nil, List.append_nil]
    exact ⟨fun h ↦ ⟨nofun, (Except.ok.inj h).symm⟩, fun h ↦ congrArg _ h.2.symm⟩
  | cons hex rest ih =>
    rw [List.foldlM_cons, bind_eq_ok, List.forall_mem_cons]
    simp only [insertDbLeaf_eq_ok, ih]
    cases hleaf : leafOf hex with
    | none => simp
    | some leaf =>
      simp [List.filterMap_cons_some hleaf, MerkleTree.insert]

theorem fromDbLeaves_eq_ok :
    fromDbLeaves hexError commitments = .ok ledger ↔
      (∀ hex ∈ commitments, (leafOf hex).isSome) ∧
        ledger = ⟨commitments.filterMap leafOf, ⟨commitments.filterMap leafOf, []⟩⟩ := by
  unfold fromDbLeaves
  split_ifs with hempty
  · subst hempty
    exact ⟨fun h ↦ ⟨nofun, (Except.ok.inj h).symm⟩, fun h ↦ congrArg _ h.2.symm⟩
  · rw [bind_eq_ok]
    simp only [foldlM_insertDbLeaf_eq_ok]
    constructor
    · rintro ⟨last, ⟨hall, rfl⟩, h⟩
      exact ⟨hall, (Except.ok.inj h).symm⟩
    · rintro ⟨hall, rfl⟩
      exact ⟨_, ⟨hall, rfl⟩, rfl⟩

/-- Commitments that are added one by one are all accepted exactly if the ledger can be rebuilt from
them, with the same root and size then. Every receipt proves its commitment against the root of the
ledger it was issued by. -/
theorem ledger_rebuilt (M : RsMerkle) (hexError : String → String) (commitments : List String) :
    ((∃ ledger, fromDbLeaves hexError commitments = .ok ledger) ↔
      ∀ a ∈ (addAll M hexError {} commitments).1, a.isOk = true) ∧
    (∀ ledger, fromDbLeaves hexError commitments = .ok ledger →
      ledger.rootHex M = (addAll M hexError {} commitments).2.rootHex M ∧
        ledger.len = (addAll M hexError {} commitments).2.len) ∧
    ∀ hex r after,
      (addAll M hexError {} commitments).2.addCommitment M hexError hex = (.ok r, after) →
        after.rootHex M = some r.merkleRoot ∧ Verifies M hex r := by
  obtain ⟨hlive, hall⟩ := @addAll_spec M hexError {} rfl commitments
  refine ⟨?_, ?_, ?_⟩
  · rw [hall]
    constructor
    · rintro ⟨ledger, h⟩
      exact (fromDbLeaves_eq_ok.mp h).1
    · exact fun h ↦ ⟨_, fromDbLeaves_eq_ok.mpr ⟨h, rfl⟩⟩
  · intro ledger h
    obtain ⟨-, rfl⟩ := fromDbLeaves_eq_ok.mp h
    rw [hlive]
    exact ⟨rfl, rfl⟩
  · intro hex r after h
    rw [hlive] at h
    cases hleaf : leafOf hex with
    | none =>
      obtain ⟨e, hadd⟩ := addCommitment_of_none M hexError hleaf
      rw [hadd] at h
      cases h
    | some leaf =>
      have hsettled : Settled ⟨[] ++ commitments.filterMap leafOf,
        ⟨[] ++ commitments.filterMap leafOf, []⟩⟩ := rfl
      obtain ⟨r', hadd, hroot, hverifies⟩ := addCommitment_of_some M hexError hsettled hleaf
      cases hadd.symm.trans h
      exact ⟨hroot, hverifies⟩

end MerkleCommitmentLedger

end SauronId.Kyc.Commitments
