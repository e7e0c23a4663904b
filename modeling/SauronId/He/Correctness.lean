import SauronId.He.Paillier
import SauronId.Lib.PrincipalUnit

namespace SauronId.He

open Lib.PrincipalUnit

/-- What decryption needs of a private key: the units of its modulus vanish
under `lambda`, and `mu` undoes `lambda`. -/
structure PaillierPrivateKey.Sound (sk : PaillierPrivateKey) : Prop where
  one_lt : 1 < sk.public.n
  nSquared_eq : sk.public.nSquared = sk.public.n ^ 2
  pow_lambda : ∀ c : ℕ, c.Coprime sk.public.n → c ^ sk.lambda ≡ 1 [MOD sk.public.n]
  mul_mu : sk.lambda * sk.mu ≡ 1 [MOD sk.public.n]

def PaillierPublicKey.Member (pk : PaillierPublicKey) (ct : Ciphertext) : Prop :=
  ct.c ≠ 0 ∧ ct.c < pk.nSquared ∧ ct.c.gcd pk.n = 1

instance (pk : PaillierPublicKey) (ct : Ciphertext) : Decidable (pk.Member ct) :=
  inferInstanceAs (Decidable (_ ∧ _ ∧ _))

/-- A ciphertext in the group of the key that decrypts to `m`. -/
def PaillierPrivateKey.Encrypts (sk : PaillierPrivateKey) (ct : Ciphertext) (m : ℕ) : Prop :=
  sk.public.Member ct ∧ sk.decrypt ct = some (.ok m)

section Key

theorem natAbs_reduced_modEq {x : ℤ} {m : ℕ} (hm : 0 < m) :
    ((if x.tmod m < 0 then x.tmod m + m else x.tmod m).natAbs : ℤ) ≡ x [ZMOD m] := by
  have hm' : (0 : ℤ) < m := by omega
  have htmod : x.tmod m ≡ x [ZMOD m] := by
    have hdiv := Int.tmod_add_mul_tdiv x m
    have hdvd : (m : ℤ) ∣ x - x.tmod m := ⟨x.tdiv m, by omega⟩
    exact (Int.modEq_iff_dvd).mpr hdvd
  have hlow : -(m : ℤ) < x.tmod m := Int.lt_tmod_of_pos x hm'
  split_ifs with hneg
  · have habs : ((x.tmod m + m).natAbs : ℤ) = x.tmod m + m := by omega
    rw [habs]
    simpa using htmod
  · have habs : ((x.tmod m).natAbs : ℤ) = x.tmod m := by omega
    rw [habs]
    exact htmod

theorem mul_modInv_modEq {a m x : ℕ} (hm : 0 < m) (h : modInv a m = some x) :
    a * x ≡ 1 [MOD m] := by
  unfold modInv at h
  split at h
  · rename_i hgcd
    obtain rfl := Option.some.inj h
    have hbezout : (1 : ℤ) = a * Nat.gcdA a m + m * Nat.gcdB a m := by
      rw [← Nat.gcd_eq_gcd_ab, hgcd]
      rfl
    have hcoeff : (a : ℤ) * Nat.gcdA a m ≡ 1 [ZMOD m] := by
      rw [hbezout]
      exact Int.modEq_iff_dvd.mpr ⟨Nat.gcdB a m, by ring⟩
    rw [← Int.natCast_modEq_iff, Nat.cast_mul]
    exact ((natAbs_reduced_modEq hm).mul_left a).trans hcoeff
  · cases h

variable {sk : PaillierPrivateKey}

theorem fromPrimes_eq_ok {p q : ℕ} :
    PaillierPrivateKey.fromPrimes p q = .ok sk ↔
      p ≠ q ∧ ∃ mu, modInv ((p - 1).lcm (q - 1)) (p * q) = some mu ∧
        sk = ⟨⟨p * q, p * q * (p * q), p * q + 1⟩, (p - 1).lcm (q - 1), mu⟩ := by
  unfold PaillierPrivateKey.fromPrimes
  by_cases hpq : p = q
  · simp [hpq]
  · cases hmu : modInv ((p - 1).lcm (q - 1)) (p * q) with
    | none => simp [hpq, hmu]
    | some mu => simp [hpq, hmu, eq_comm]

theorem sound_of_fromPrimes {p q : ℕ} (hp : p.Prime) (hq : q.Prime)
    (h : PaillierPrivateKey.fromPrimes p q = .ok sk) : sk.Sound := by
  obtain ⟨hpq, mu, hmu, rfl⟩ := fromPrimes_eq_ok.mp h
  have hone : 1 < p * q := Nat.one_lt_mul_iff.mpr ⟨hp.pos, hq.pos, Or.inl hp.one_lt⟩
  exact {
    one_lt := hone
    nSquared_eq := (pow_two (p * q)).symm
    pow_lambda := fun c hc ↦ pow_lcm_modEq_one hp hq hpq hc
    mul_mu := mul_modInv_modEq (Nat.zero_lt_of_lt hone) hmu }

end Key

section Sampling

variable {σ : Type} (R : RngCore σ)

def RngCore.draws (bits : ℕ) : ℕ → σ → List ℕ
  | 0, _ => []
  | k + 1, s => (R.genBiguint bits s).1 :: RngCore.draws bits k (R.genBiguint bits s).2

def RngCore.sampled (n : ℕ) (s : σ) : Option ℕ :=
  (R.draws n.size 256 s).find? (fun r ↦ decide (IsUnitOf n r))

theorem sampleLoop_fst (n bits k : ℕ) (s : σ) :
    (sampleLoop R n bits k s).1 =
      ((R.draws bits k s).find? (fun r ↦ decide (IsUnitOf n r))).elim
        (.error .randomSamplingFailed) .ok := by
  induction k generalizing s with
  | zero => rfl
  | succ k ih =>
    rw [sampleLoop, RngCore.draws, List.find?_cons]
    by_cases hr : IsUnitOf n (R.genBiguint bits s).1
    · rw [if_pos hr, decide_eq_true hr]
      rfl
    · rw [if_neg hr, decide_eq_false hr]
      exact ih _

theorem sampleZnStar_fst (n : ℕ) (s : σ) :
    (sampleZnStar R n s).1 = (R.sampled n s).elim (.error .randomSamplingFailed) .ok :=
  sampleLoop_fst R n n.size 256 s

theorem isUnitOf_of_sampled {n r : ℕ} {s : σ} (h : R.sampled n s = some r) : IsUnitOf n r := by
  have hunit := List.find?_some h
  exact of_decide_eq_true hunit

theorem sampleZnStar_cases (n : ℕ) (s : σ) :
    (R.sampled n s = none ∧ ∃ s', sampleZnStar R n s = (.error .randomSamplingFailed, s')) ∨
    (∃ r s', R.sampled n s = some r ∧ IsUnitOf n r ∧ sampleZnStar R n s = (.ok r, s')) := by
  have hsample := sampleZnStar_fst R n s
  cases hr : R.sampled n s with
  | none =>
    rw [hr] at hsample
    exact .inl ⟨rfl, _, Prod.ext hsample rfl⟩
  | some r =>
    rw [hr] at hsample
    exact .inr ⟨r, _, rfl, isUnitOf_of_sampled R hr, Prod.ext hsample rfl⟩

end Sampling

section Decrypt

variable {sk : PaillierPrivateKey}

theorem member_mod (hsk : sk.Sound) {x : ℕ} (hx : x.Coprime sk.public.n) :
    sk.public.Member ⟨x % sk.public.nSquared⟩ := by
  have hn := hsk.one_lt
  have hgcd : (x % sk.public.nSquared).gcd sk.public.n = 1 := by
    rw [hsk.nSquared_eq]
    exact ((mod_sq_modEq sk.public.n x).gcd_eq).trans hx
  have hpos : 0 < sk.public.nSquared := by
    rw [hsk.nSquared_eq]
    positivity
  refine ⟨fun (hzero : x % sk.public.nSquared = 0) ↦ ?_, Nat.mod_lt x hpos, hgcd⟩
  rw [hzero, Nat.gcd_zero_left] at hgcd
  omega

variable {ct : Ciphertext}

theorem decrypt_of_member (hsk : sk.Sound) (hct : sk.public.Member ct) :
    sk.decrypt ct =
      some (.ok (index sk.public.n (ct.c ^ sk.lambda) * sk.mu % sk.public.n)) := by
  obtain ⟨hzero, hlt, hgcd⟩ := hct
  have hone : ct.c ^ sk.lambda % sk.public.nSquared ≡ 1 [MOD sk.public.n] := by
    rw [hsk.nSquared_eq]
    exact (mod_sq_modEq _ _).trans (hsk.pow_lambda ct.c hgcd)
  have hpos := pos_of_modEq_one hsk.one_lt hone
  have hrange : ¬(ct.c = 0 ∨ ct.c ≥ sk.public.nSquared) := by
    rw [not_or]
    exact ⟨hzero, by omega⟩
  rw [PaillierPrivateKey.decrypt, if_neg hrange, if_neg hpos.ne', index, hsk.nSquared_eq]

theorem encrypts_iff (hsk : sk.Sound) {m : ℕ} :
    sk.Encrypts ct m ↔ sk.public.Member ct ∧
      m = index sk.public.n (ct.c ^ sk.lambda) * sk.mu % sk.public.n := by
  refine and_congr_right (fun hct ↦ ?_)
  rw [decrypt_of_member hsk hct, Option.some.injEq, Except.ok.injEq]
  exact eq_comm

theorem Encrypts.lt (hsk : sk.Sound) {m : ℕ} (h : sk.Encrypts ct m) :
    m < sk.public.n := by
  obtain ⟨-, rfl⟩ := (encrypts_iff hsk).mp h
  exact Nat.mod_lt _ (by have := hsk.one_lt; omega)

theorem exists_encrypts (hsk : sk.Sound) (hct : sk.public.Member ct) :
    ∃ m, sk.Encrypts ct m :=
  ⟨_, hct, decrypt_of_member hsk hct⟩

theorem index_mod_pow (hsk : sk.Sound) (x : ℕ) :
    index sk.public.n ((x % sk.public.nSquared) ^ sk.lambda) =
      index sk.public.n (x ^ sk.lambda) := by
  apply index_congr
  rw [hsk.nSquared_eq]
  exact (Nat.mod_modEq x _).pow sk.lambda

theorem encrypts_mod (hsk : sk.Sound) {x : ℕ} (hx : x.Coprime sk.public.n) {m : ℕ}
    (hm : index sk.public.n (x ^ sk.lambda) * sk.mu % sk.public.n = m) :
    sk.Encrypts ⟨x % sk.public.nSquared⟩ m := by
  rw [encrypts_iff hsk]
  refine ⟨member_mod hsk hx, ?_⟩
  rw [index_mod_pow hsk, hm]

theorem index_mul_pow_n (hsk : sk.Sound) {x r : ℕ} (hx : x.Coprime sk.public.n)
    (hr : r.Coprime sk.public.n) :
    index sk.public.n ((x * r ^ sk.public.n) ^ sk.lambda) =
      index sk.public.n (x ^ sk.lambda) := by
  have hpow : (r ^ sk.lambda) ^ sk.public.n ≡ 1 [MOD sk.public.n] := by
    simpa using (hsk.pow_lambda r hr).pow sk.public.n
  have hr0 : index sk.public.n ((r ^ sk.lambda) ^ sk.public.n) = 0 := by
    rw [index_pow hsk.one_lt (hsk.pow_lambda r hr), Nat.mul_mod_right]
  have hsplit : (x * r ^ sk.public.n) ^ sk.lambda =
      x ^ sk.lambda * (r ^ sk.lambda) ^ sk.public.n := by
    rw [mul_pow, ← pow_mul, ← pow_mul, Nat.mul_comm sk.public.n]
  rw [hsplit, index_mul hsk.one_lt (hsk.pow_lambda x hx) hpow, hr0, Nat.add_zero]
  exact Nat.mod_eq_of_lt (index_lt hsk.one_lt _)

theorem encrypts_one_add_mul (hsk : sk.Sound) {m r : ℕ} (hm : m < sk.public.n)
    (hr : r.Coprime sk.public.n) :
    sk.Encrypts ⟨(1 + m * sk.public.n) % sk.public.nSquared *
      (r ^ sk.public.n % sk.public.nSquared) % sk.public.nSquared⟩ m := by
  have hone : 1 + m * sk.public.n ≡ 1 [MOD sk.public.n] := by
    simp [Nat.ModEq]
  have hcop : (1 + m * sk.public.n).Coprime sk.public.n := by simp
  rw [← Nat.mul_mod]
  apply encrypts_mod hsk (hcop.mul_left (hr.pow_left _))
  rw [index_mul_pow_n hsk hcop hr, index_pow hsk.one_lt hone, index_one_add_mul hsk.one_lt,
    Nat.mod_eq_of_lt hm, Nat.mod_mul_mod]
  -- `mu` undoes the factor `lambda`, and the message is below the modulus
  have hmu : sk.lambda * m * sk.mu ≡ m [MOD sk.public.n] := by
    have hmul := hsk.mul_mu.mul_right m
    rw [Nat.one_mul] at hmul
    rwa [Nat.mul_right_comm]
  exact Nat.ModEq.eq_of_lt_of_lt ((Nat.mod_modEq _ _).trans hmu) (Nat.mod_lt _ (by omega)) hm

theorem encrypts_add (hsk : sk.Sound) {a b : Ciphertext} {x y : ℕ} (ha : sk.Encrypts a x)
    (hb : sk.Encrypts b y) : sk.Encrypts (sk.public.add a b) ((x + y) % sk.public.n) := by
  obtain ⟨hma, rfl⟩ := (encrypts_iff hsk).mp ha
  obtain ⟨hmb, rfl⟩ := (encrypts_iff hsk).mp hb
  have hca : a.c.Coprime sk.public.n := hma.2.2
  have hcb : b.c.Coprime sk.public.n := hmb.2.2
  apply encrypts_mod hsk (hca.mul_left hcb)
  rw [mul_pow, index_mul hsk.one_lt (hsk.pow_lambda _ hca) (hsk.pow_lambda _ hcb),
    Nat.mod_mul_mod, Nat.add_mul, Nat.add_mod]

theorem encrypts_mulScalar (hsk : sk.Sound) {a : Ciphertext} {x : ℕ} (ha : sk.Encrypts a x)
    (k : ℕ) : sk.Encrypts (sk.public.mulScalar a k) (x * k % sk.public.n) := by
  obtain ⟨hma, rfl⟩ := (encrypts_iff hsk).mp ha
  have hca : a.c.Coprime sk.public.n := hma.2.2
  apply encrypts_mod hsk (hca.pow_left k)
  rw [← pow_mul, Nat.mul_comm k, pow_mul, index_pow hsk.one_lt (hsk.pow_lambda _ hca),
    Nat.mod_mul_mod, Nat.mod_mul_mod]
  congr 1
  ring

theorem encrypts_mul_pow_n (hsk : sk.Sound) {a : Ciphertext} {x r : ℕ} (ha : sk.Encrypts a x)
    (hr : r.Coprime sk.public.n) :
    sk.Encrypts ⟨a.c * (r ^ sk.public.n % sk.public.nSquared) % sk.public.nSquared⟩ x := by
  obtain ⟨hma, rfl⟩ := (encrypts_iff hsk).mp ha
  have hca : a.c.Coprime sk.public.n := hma.2.2
  rw [Nat.mul_mod, Nat.mod_mod, ← Nat.mul_mod]
  apply encrypts_mod hsk (hca.mul_left (hr.pow_left _))
  rw [index_mul_pow_n hsk hca hr]

end Decrypt

section Operations

variable {sk : PaillierPrivateKey} {σ : Type} (R : RngCore σ)

/-- The answer of an operation that multiplies by the `n`-th power of a sampled
unit: it fails exactly when no draw is a unit. -/
def Randomized (sk : PaillierPrivateKey) (answer : Except HeError Ciphertext) (unit : Option ℕ)
    (m : ℕ) : Prop :=
  match unit with
  | none => answer = .error .randomSamplingFailed
  | some _ => ∃ ct, answer = .ok ct ∧ sk.Encrypts ct m

theorem encrypt_randomized (hsk : sk.Sound) {m : ℕ} (hm : m < sk.public.n) (s : σ) :
    Randomized sk (sk.public.encrypt R m s).1 (R.sampled sk.public.n s) m := by
  unfold PaillierPublicKey.encrypt
  rw [if_neg (by omega)]
  rcases sampleZnStar_cases R sk.public.n s with ⟨hnone, s', hs⟩ | ⟨r, s', hsome, hunit, hs⟩
  · rw [hs, hnone]
    rfl
  · rw [hs, hsome]
    exact ⟨_, rfl, encrypts_one_add_mul hsk hm hunit.2.2⟩

theorem rerandomize_randomized (hsk : sk.Sound) {ct : Ciphertext} {m : ℕ}
    (hct : sk.Encrypts ct m) (s : σ) :
    Randomized sk (sk.public.rerandomize R ct s).1 (R.sampled sk.public.n s) m := by
  unfold PaillierPublicKey.rerandomize
  rcases sampleZnStar_cases R sk.public.n s with ⟨hnone, s', hs⟩ | ⟨r, s', hsome, hunit, hs⟩
  · rw [hs, hnone]
    rfl
  · rw [hs, hsome]
    exact ⟨_, rfl, encrypts_mul_pow_n hsk hct hunit.2.2⟩

theorem Randomized.encrypts {answer : Except HeError Ciphertext} {unit : Option ℕ} {m : ℕ}
    (h : Randomized sk answer unit m) {ct : Ciphertext} (hct : answer = .ok ct) :
    sk.Encrypts ct m := by
  cases unit with
  | none => exact absurd (hct.symm.trans h) (by simp)
  | some r =>
    obtain ⟨ct', hct', henc⟩ := h
    obtain rfl := Except.ok.inj (hct.symm.trans hct')
    exact henc

end Operations

section Aggregate

variable {sk : PaillierPrivateKey}

namespace HeAggregator

def offerAll (agg : HeAggregator) : List Ciphertext → HeAggregator × List Ciphertext
  | [] => (agg, [])
  | ct :: cts =>
    match agg.addEncrypted ct with
    | (.ok (), agg') => ((agg'.offerAll cts).1, ct :: (agg'.offerAll cts).2)
    | (.error _, agg') => agg'.offerAll cts

variable {agg : HeAggregator} {ct : Ciphertext}

theorem addEncrypted_of_member (h : agg.pk.Member ct) :
    agg.addEncrypted ct = (.ok (), { agg with
      sumCiphertext := agg.pk.add agg.sumCiphertext ct
      nContributions := min (agg.nContributions + 1) u32Max }) := by
  have hrange : ¬(ct.c = 0 ∨ ct.c ≥ agg.pk.nSquared) := not_or.mpr ⟨h.1, not_le.mpr h.2.1⟩
  rw [addEncrypted, if_neg hrange, if_neg (not_not.mpr h.2.2)]

theorem addEncrypted_of_not_member (h : ¬agg.pk.Member ct) :
    agg.addEncrypted ct = (.error .invalidCiphertext, agg) := by
  unfold addEncrypted
  split_ifs with hrange hgcd
  · rfl
  · rfl
  · rw [not_or] at hrange
    exact absurd ⟨hrange.1, by omega, not_not.mp hgcd⟩ h

theorem addEncrypted_cases (agg : HeAggregator) (ct : Ciphertext) :
    (agg.pk.Member ct ∧ agg.addEncrypted ct = (.ok (), { agg with
      sumCiphertext := agg.pk.add agg.sumCiphertext ct
      nContributions := min (agg.nContributions + 1) u32Max })) ∨
    (¬agg.pk.Member ct ∧ agg.addEncrypted ct = (.error .invalidCiphertext, agg)) := by
  by_cases h : agg.pk.Member ct
  · exact .inl ⟨h, addEncrypted_of_member h⟩
  · exact .inr ⟨h, addEncrypted_of_not_member h⟩

/-- The aggregator is under the key and its sum decrypts to `total`. -/
structure Holds (sk : PaillierPrivateKey) (agg : HeAggregator) (total count : ℕ) : Prop where
  pk_eq : agg.pk = sk.public
  sum : sk.Encrypts agg.sumCiphertext total
  counted : agg.nContributions = min count u32Max

theorem Holds.add (hsk : sk.Sound) {total count m : ℕ} (h : Holds sk agg total count)
    (hct : sk.Encrypts ct m) :
    Holds sk (agg.addEncrypted ct).2 ((total + m) % sk.public.n) (count + 1) := by
  have hmem : agg.pk.Member ct := h.pk_eq ▸ hct.1
  rw [addEncrypted_of_member hmem]
  refine ⟨h.pk_eq, ?_, ?_⟩
  · show sk.Encrypts (agg.pk.add agg.sumCiphertext ct) _
    rw [h.pk_eq]
    exact encrypts_add hsk h.sum hct
  · show min (agg.nContributions + 1) u32Max = _
    rw [h.counted]
    omega

/-- Whatever is offered, the sum goes up by the plaintexts of what is accepted
and the counter by their number. -/
theorem Holds.offerAll (hsk : sk.Sound) {total count : ℕ} (h : Holds sk agg total count)
    (cts : List Ciphertext) :
    ∃ ms, List.Forall₂ sk.Encrypts (agg.offerAll cts).2 ms ∧
      Holds sk (agg.offerAll cts).1 ((total + ms.sum) % sk.public.n) (count + ms.length) := by
  induction cts generalizing agg total count with
  | nil =>
    refine ⟨[], .nil, ?_⟩
    rw [List.sum_nil, Nat.add_zero, Nat.mod_eq_of_lt (Encrypts.lt hsk h.sum)]
    exact h
  | cons ct cts ih =>
    rcases addEncrypted_cases agg ct with ⟨hct, hadd⟩ | ⟨-, hadd⟩
    · obtain ⟨m, hm⟩ := exists_encrypts hsk (h.pk_eq ▸ hct)
      have hnext := h.add hsk hm
      rw [hadd] at hnext
      obtain ⟨ms, hms, hlast⟩ := ih hnext
      refine ⟨m :: ms, ?_, ?_⟩
      · rw [HeAggregator.offerAll, hadd]
        exact .cons hm hms
      · rw [HeAggregator.offerAll, hadd]
        rw [Nat.mod_add_mod, Nat.add_assoc, Nat.add_assoc, Nat.add_comm 1] at hlast
        rw [List.sum_cons, List.length_cons]
        exact hlast
    · obtain ⟨ms, hms, hlast⟩ := ih h
      rw [HeAggregator.offerAll, hadd]
      exact ⟨ms, hms, hlast⟩

theorem holds_new (hsk : sk.Sound) {σ : Type} {R : RngCore σ} {s : σ}
    (h : (HeAggregator.new R sk.public s).1 = .ok agg) : Holds sk agg 0 0 := by
  have hn := hsk.one_lt
  have hzero := encrypt_randomized R hsk (show 0 < sk.public.n by omega) s
  unfold HeAggregator.new PaillierPublicKey.encryptZero at h
  rcases henc : sk.public.encrypt R 0 s with ⟨answer, s'⟩
  rw [henc] at h hzero
  cases answer with
  | error e => cases h
  | ok zero =>
    obtain rfl := Except.ok.inj h
    exact ⟨rfl, hzero.encrypts rfl, rfl⟩

end HeAggregator

end Aggregate

/-- For a key assembled from two primes: a fresh encryption decrypts to its
message, the operations on ciphertexts act on the messages, and an aggregator
sums what it accepts. -/
theorem decrypt_correct {p q : ℕ} {sk : PaillierPrivateKey} (hp : p.Prime) (hq : q.Prime)
    (hkey : PaillierPrivateKey.fromPrimes p q = .ok sk) :
    (∀ {σ : Type} (R : RngCore σ) (s : σ) (m : ℕ), m < sk.public.n →
      Randomized sk (sk.public.encrypt R m s).1 (R.sampled sk.public.n s) m) ∧
    (∀ (a b : Ciphertext) (x y : ℕ), sk.Encrypts a x → sk.Encrypts b y →
      sk.Encrypts (sk.public.add a b) ((x + y) % sk.public.n)) ∧
    (∀ (a : Ciphertext) (x k : ℕ), sk.Encrypts a x →
      sk.Encrypts (sk.public.mulScalar a k) (x * k % sk.public.n)) ∧
    (∀ {σ : Type} (R : RngCore σ) (s : σ) (a : Ciphertext) (x : ℕ), sk.Encrypts a x →
      Randomized sk (sk.public.rerandomize R a s).1 (R.sampled sk.public.n s) x) ∧
    (∀ {σ : Type} (R : RngCore σ) (s : σ) (agg : HeAggregator) (cts : List Ciphertext),
      (HeAggregator.new R sk.public s).1 = .ok agg →
      ∃ ms, List.Forall₂ sk.Encrypts (agg.offerAll cts).2 ms ∧
        (agg.offerAll cts).1.finalizeBiguint sk = some (.ok (ms.sum % sk.public.n))) ∧
    (∀ (agg : HeAggregator) (ct : Ciphertext), (agg.addEncrypted ct).1 ≠ .ok () →
      (agg.addEncrypted ct).2 = agg) := by
  have hsk := sound_of_fromPrimes hp hq hkey
  refine ⟨fun R s m hm ↦ encrypt_randomized R hsk hm s, fun a b x y ↦ encrypts_add hsk,
    fun a x k ha ↦ encrypts_mulScalar hsk ha k,
    fun R s a x ha ↦ rerandomize_randomized R hsk ha s, ?_, ?_⟩
  · intro σ R s agg cts hnew
    obtain ⟨ms, hms, hlast⟩ := (HeAggregator.holds_new hsk hnew).offerAll hsk cts
    rw [Nat.zero_add] at hlast
    exact ⟨ms, hms, hlast.sum.2⟩
  · intro agg ct hrejected
    rcases agg.addEncrypted_cases ct with ⟨-, hadd⟩ | ⟨-, hadd⟩
    · rw [hadd] at hrejected
      exact absurd rfl hrejected
    · rw [hadd]

namespace Demo

def key : PaillierPrivateKey := ⟨⟨15, 225, 16⟩, 4, 4⟩

def two : RngCore Unit := ⟨fun _ _ ↦ (2, ())⟩

end Demo

section Verdict

variable {p q c : ℕ} {sk : PaillierPrivateKey}

/-- A message for every number of the group of the key, and a refusal for every other one. -/
def PaillierPrivateKey.Judges (sk : PaillierPrivateKey) (c : ℕ) : Prop :=
  if sk.public.Member ⟨c⟩ then ∃ m < sk.public.n, sk.decrypt ⟨c⟩ = some (.ok m)
  else sk.decrypt ⟨c⟩ = some (.error .invalidCiphertext)

theorem two_le_lcm (hp : p.Prime) (hq : q.Prime) (hpq : p ≠ q) :
    2 ≤ (p - 1).lcm (q - 1) := by
  have hp2 := hp.two_le
  have hq2 := hq.two_le
  have hpos : 0 < (p - 1).lcm (q - 1) := Nat.lcm_pos (by omega) (by omega)
  have hleft := Nat.le_of_dvd hpos (Nat.dvd_lcm_left (p - 1) (q - 1))
  have hright := Nat.le_of_dvd hpos (Nat.dvd_lcm_right (p - 1) (q - 1))
  omega

theorem sq_dvd_pow_iff (hp : p.Prime) (hq : q.Prime) (hpq : p ≠ q) {e : ℕ} (he : 2 ≤ e) :
    p * q * (p * q) ∣ c ^ e ↔ p * q ∣ c := by
  constructor
  · intro h
    have hdvd : p * q ∣ c ^ e := (Nat.dvd_mul_right _ _).trans h
    have hcop : p.Coprime q := (Nat.coprime_primes hp hq).mpr hpq
    exact hcop.mul_dvd_of_dvd_of_dvd
      (hp.dvd_of_dvd_pow ((Nat.dvd_mul_right p q).trans hdvd))
      (hq.dvd_of_dvd_pow ((Nat.dvd_mul_left q p).trans hdvd))
  · intro h
    rw [← pow_two]
    exact (pow_dvd_pow_of_dvd h 2).trans (pow_dvd_pow c he)

theorem decrypt_eq_invalid_iff :
    sk.decrypt ⟨c⟩ = some (.error .invalidCiphertext) ↔ c = 0 ∨ sk.public.nSquared ≤ c := by
  unfold PaillierPrivateKey.decrypt
  dsimp only
  split_ifs with hrange
  · exact iff_of_true rfl hrange
  · exact iff_of_false nofun hrange
  · exact iff_of_false (by simp) hrange

theorem decrypt_eq_none_iff :
    sk.decrypt ⟨c⟩ = none ↔
      0 < c ∧ c < sk.public.nSquared ∧ sk.public.nSquared ∣ c ^ sk.lambda := by
  unfold PaillierPrivateKey.decrypt
  dsimp only
  split_ifs with hrange hzero
  · exact iff_of_false nofun (fun h ↦ hrange.elim h.1.ne' (not_le.mpr h.2.1))
  · rw [not_or] at hrange
    exact iff_of_true rfl ⟨Nat.pos_of_ne_zero hrange.1, not_le.mp hrange.2,
      Nat.dvd_of_mod_eq_zero hzero⟩
  · exact iff_of_false nofun (fun h ↦ hzero (Nat.mod_eq_zero_of_dvd h.2.2))

theorem judges_iff (hsk : sk.Sound) :
    sk.Judges c ↔ c = 0 ∨ sk.public.nSquared ≤ c ∨ c.Coprime sk.public.n := by
  unfold PaillierPrivateKey.Judges
  split_ifs with hmember
  · refine iff_of_true ?_ (.inr (.inr hmember.2.2))
    obtain ⟨m, hm⟩ := exists_encrypts hsk hmember
    exact ⟨m, Encrypts.lt hsk hm, hm.2⟩
  · rw [decrypt_eq_invalid_iff, ← or_assoc, iff_self_or]
    intro hcop
    by_contra hrange
    rw [not_or] at hrange
    exact hmember ⟨hrange.1, not_le.mp hrange.2, hcop⟩

/-- Decryption judges a number exactly if it is out of range or prime to the modulus. On a multiple
of the modulus it panics. -/
theorem decrypt_judges_iff (hp : p.Prime) (hq : q.Prime)
    (hkey : PaillierPrivateKey.fromPrimes p q = .ok sk) (c : ℕ) :
    (sk.Judges c ↔ c = 0 ∨ sk.public.nSquared ≤ c ∨ c.Coprime sk.public.n) ∧
      (sk.decrypt ⟨c⟩ = none ↔ 0 < c ∧ c < sk.public.nSquared ∧ sk.public.n ∣ c) := by
  refine ⟨judges_iff (sound_of_fromPrimes hp hq hkey), ?_⟩
  obtain ⟨hpq, mu, -, rfl⟩ := fromPrimes_eq_ok.mp hkey
  rw [decrypt_eq_none_iff, sq_dvd_pow_iff hp hq hpq (two_le_lcm hp hq hpq)]

theorem fromPrimes_demo : PaillierPrivateKey.fromPrimes 3 5 = .ok Demo.key := by
  rw [fromPrimes_eq_ok]
  decide +kernel

theorem decrypt_judges_two : Demo.key.Judges 2 :=
  (decrypt_judges_iff Nat.prime_three Nat.prime_five fromPrimes_demo 2).1.mpr
    (.inr (.inr (by decide)))

/-- A number that shares one prime with the modulus is decrypted, and the modulus itself makes the
subtraction go below zero. -/
theorem decrypt_not_coprime :
    PaillierPrivateKey.fromPrimes 3 5 = .ok Demo.key ∧ Demo.key.decrypt ⟨3⟩ = some (.ok 5) ∧
      Demo.key.decrypt ⟨15⟩ = none :=
  ⟨fromPrimes_demo, rfl, rfl⟩

end Verdict

/-- Encryptions of `7` and `9` with a zero offered between them: the zero is
refused, and the others are summed. -/
theorem decrypt_correct_threeOffers :
    (HeAggregator.new Demo.two Demo.key.public ()).1 = .ok ⟨Demo.key.public, ⟨143⟩, 0⟩ ∧
    (HeAggregator.offerAll ⟨Demo.key.public, ⟨143⟩, 0⟩ [⟨83⟩, ⟨0⟩, ⟨98⟩]).2 = [⟨83⟩, ⟨98⟩] ∧
    ∃ ms, List.Forall₂ Demo.key.Encrypts
        (HeAggregator.offerAll ⟨Demo.key.public, ⟨143⟩, 0⟩ [⟨83⟩, ⟨0⟩, ⟨98⟩]).2 ms ∧
      (HeAggregator.offerAll ⟨Demo.key.public, ⟨143⟩, 0⟩ [⟨83⟩, ⟨0⟩, ⟨98⟩]).1.finalizeBiguint
        Demo.key = some (.ok (ms.sum % Demo.key.public.n)) := by
  have hcorrect := decrypt_correct Nat.prime_three Nat.prime_five fromPrimes_demo
  exact ⟨rfl, rfl, hcorrect.2.2.2.2.1 Demo.two () _ _ rfl⟩

end SauronId.He
