import SauronId.Lib.Merkle
import Mathlib.Data.Set.Function

namespace SauronId.Lib

/-- A tree of hashes with the preimages at its leaves. -/
inductive HashTree (π : Type)
  | leaf (p : π)
  | node (l r : HashTree π)

namespace HashTree

open MerkleScheme

variable {π δ : Type}

def leaves : HashTree π → List π
  | leaf p => [p]
  | node l r => l.leaves ++ r.leaves

def ofLeaves (ps : List π) : Option (HashTree π) := pairRoot node ps.length (ps.map leaf)

section Hashing

variable (hash : π → δ) (pair : δ → δ → π)

def preimage : HashTree π → π
  | leaf p => p
  | node l r => pair (hash l.preimage) (hash r.preimage)

def preimages : HashTree π → List π
  | leaf p => [p]
  | node l r => (node l r).preimage hash pair :: (l.preimages ++ r.preimages)

def digest (t : HashTree π) : δ := hash (t.preimage hash pair)

def hashed (ps : List π) : List π := (ofLeaves ps).elim [] (preimages hash pair)

def nodeHash (a b : δ) : δ := hash (pair a b)

variable {hash pair}

theorem root_eq_digest (ps : List π) :
    (pairwise (nodeHash hash pair)).root (ps.map hash) =
      (ofLeaves ps).map (digest hash pair) := by
  have hmap : ps.map hash = (ps.map leaf).map (digest hash pair) := by
    rw [List.map_map]
    rfl
  show pairRoot (nodeHash hash pair) (ps.map hash).length (ps.map hash) = _
  rw [List.length_map, hmap]
  exact pairRoot_map (fun _ _ ↦ rfl) ps.length (ps.map leaf)

theorem leaves_ofLeaves {ps : List π} {t : HashTree π} (h : ofLeaves ps = some t) :
    t.leaves = ps := by
  have hne : ps ≠ [] := by
    rintro rfl
    cases h
  have hflat : (ofLeaves ps).map leaves = some ps := by
    have hmap : (ps.map leaf).map leaves = ps.map (fun p ↦ [p]) := by
      rw [List.map_map]
      rfl
    have hroot := pairRoot_append (l := ps.map (fun p ↦ [p])) (n := ps.length)
      (by rw [List.length_map]; omega) (by simpa using hne)
    rw [ofLeaves, ← pairRoot_map (fun _ _ ↦ rfl), hmap, hroot, ← List.flatMap_def,
      List.flatMap_singleton']
  rw [h, Option.map_some] at hflat
  exact Option.some.inj hflat

theorem preimage_mem_preimages (t : HashTree π) :
    t.preimage hash pair ∈ t.preimages hash pair := by
  cases t with
  | leaf p => exact List.mem_singleton_self p
  | node l r => exact List.mem_cons_self

/-- The digest of a tree determines the tree, as long as nothing that is hashed
collides and no leaf can be read as a pair of digests. -/
theorem eq_of_digest_eq
    (hpair : ∀ a b c d, pair (hash a) (hash b) = pair (hash c) (hash d) →
      hash a = hash c ∧ hash b = hash d)
    {s t : HashTree π}
    (hs : ∀ p ∈ s.leaves, ∀ a b, p ≠ pair (hash a) (hash b))
    (ht : ∀ p ∈ t.leaves, ∀ a b, p ≠ pair (hash a) (hash b))
    (hinj : Set.InjOn hash {p | p ∈ s.preimages hash pair ∨ p ∈ t.preimages hash pair})
    (h : s.digest hash pair = t.digest hash pair) : s = t := by
  have htop : s.preimage hash pair = t.preimage hash pair :=
    hinj (.inl (preimage_mem_preimages s)) (.inr (preimage_mem_preimages t)) h
  induction s generalizing t with
  | leaf p =>
    cases t with
    | leaf q => exact congrArg leaf htop
    | node l r => exact absurd htop (hs p (List.mem_singleton_self p) _ _)
  | node l r ihl ihr =>
    cases t with
    | leaf q => exact absurd htop.symm (ht q (List.mem_singleton_self q) _ _)
    | node l' r' =>
      obtain ⟨hl, hr⟩ := hpair _ _ _ _ htop
      have hleft : Set.InjOn hash {p | p ∈ l.preimages hash pair ∨ p ∈ l'.preimages hash pair} := by
        refine hinj.mono (fun p hp ↦ hp.imp ?_ ?_)
        all_goals exact fun hp ↦ List.mem_cons_of_mem _ (List.mem_append_left _ hp)
      have hright : Set.InjOn hash
          {p | p ∈ r.preimages hash pair ∨ p ∈ r'.preimages hash pair} := by
        refine hinj.mono (fun p hp ↦ hp.imp ?_ ?_)
        all_goals exact fun hp ↦ List.mem_cons_of_mem _ (List.mem_append_right _ hp)
      have hel : l = l' := ihl (fun p hp ↦ hs p (List.mem_append_left _ hp))
        (fun p hp ↦ ht p (List.mem_append_left _ hp)) hleft hl
        (hleft (.inl (preimage_mem_preimages l)) (.inr (preimage_mem_preimages l')) hl)
      have her : r = r' := ihr (fun p hp ↦ hs p (List.mem_append_right _ hp))
        (fun p hp ↦ ht p (List.mem_append_right _ hp)) hright hr
        (hright (.inl (preimage_mem_preimages r)) (.inr (preimage_mem_preimages r')) hr)
      rw [hel, her]

/-- A root determines the list of leaves, whatever the lengths of the two lists. -/
theorem leaves_eq_of_root_eq
    (hpair : ∀ a b c d, pair (hash a) (hash b) = pair (hash c) (hash d) →
      hash a = hash c ∧ hash b = hash d)
    {ps qs : List π} {root : δ}
    (hps : ∀ p ∈ ps, ∀ a b, p ≠ pair (hash a) (hash b))
    (hqs : ∀ q ∈ qs, ∀ a b, q ≠ pair (hash a) (hash b))
    (hinj : Set.InjOn hash {p | p ∈ hashed hash pair ps ∨ p ∈ hashed hash pair qs})
    (hp : (pairwise (nodeHash hash pair)).root (ps.map hash) = some root)
    (hq : (pairwise (nodeHash hash pair)).root (qs.map hash) = some root) : ps = qs := by
  obtain ⟨s, hs, hsroot⟩ := Option.map_eq_some_iff.mp (root_eq_digest ps ▸ hp)
  obtain ⟨t, ht, htroot⟩ := Option.map_eq_some_iff.mp (root_eq_digest qs ▸ hq)
  have hsl := leaves_ofLeaves hs
  have htl := leaves_ofLeaves ht
  simp only [hashed, hs, ht, Option.elim_some] at hinj
  have hst : s = t := eq_of_digest_eq hpair (hsl ▸ hps) (htl ▸ hqs) hinj (hsroot.trans htroot.symm)
  rw [← hsl, hst, htl]

end Hashing

end HashTree

end SauronId.Lib
