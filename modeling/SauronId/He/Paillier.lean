import Mathlib.Data.Int.GCD
import Mathlib.Data.Nat.Size

namespace SauronId.He

inductive HeError
  | messageOutOfRange
  | invalidCiphertext
  | randomSamplingFailed
  | decodeOverflow
  | invalidParameter (m : String)
deriving DecidableEq

def HeError.display : HeError → String
  | .messageOutOfRange => "message must be in [0, n)"
  | .invalidCiphertext => "ciphertext not in Z_\x7bn^2\x7d*"
  | .randomSamplingFailed => "rejection sampling exhausted retries"
  | .decodeOverflow => "decode out of representable range"
  | .invalidParameter m => "invalid parameter: " ++ m

structure PaillierPublicKey where
  (n nSquared g : ℕ)
deriving DecidableEq

structure PaillierPrivateKey where
  «public» : PaillierPublicKey
  (lambda mu : ℕ)
deriving DecidableEq

structure Ciphertext where
  c : ℕ

/-- A source of random numbers: `genBiguint bits` draws a number of at most
that many bits. Nothing is assumed of what it draws. -/
structure RngCore (σ : Type) where
  genBiguint : ℕ → σ → ℕ × σ

variable {σ : Type} (R : RngCore σ)

abbrev IsUnitOf (n r : ℕ) : Prop := 1 ≤ r ∧ r < n ∧ r.gcd n = 1

def sampleLoop (n bits : ℕ) : ℕ → σ → Except HeError ℕ × σ
  | 0, s => (.error .randomSamplingFailed, s)
  | tries + 1, s =>
    let drawn := R.genBiguint bits s
    if IsUnitOf n drawn.1 then (.ok drawn.1, drawn.2) else sampleLoop n bits tries drawn.2

def sampleZnStar (n : ℕ) (s : σ) : Except HeError ℕ × σ :=
  sampleLoop R n n.size 256 s

/-- The inverse of `a` by the extended Euclidean algorithm, whose first
coefficient is reduced into `[0, m)`. -/
def modInv (a modulus : ℕ) : Option ℕ :=
  if a.gcd modulus = 1 then
    let x := (Nat.gcdA a modulus).tmod modulus
    some (if x < 0 then x + modulus else x).natAbs
  else
    none

namespace PaillierPublicKey

variable (pk : PaillierPublicKey)

def encrypt (m : ℕ) (s : σ) : Except HeError Ciphertext × σ :=
  if m ≥ pk.n then
    (.error .messageOutOfRange, s)
  else
    match sampleZnStar R pk.n s with
    | (.error e, s') => (.error e, s')
    | (.ok r, s') =>
      let onePlusMn := (1 + m * pk.n) % pk.nSquared
      let rToN := r ^ pk.n % pk.nSquared
      (.ok ⟨onePlusMn * rToN % pk.nSquared⟩, s')

def add (a b : Ciphertext) : Ciphertext := ⟨a.c * b.c % pk.nSquared⟩

def mulScalar (a : Ciphertext) (k : ℕ) : Ciphertext := ⟨a.c ^ k % pk.nSquared⟩

def rerandomize (ct : Ciphertext) (s : σ) : Except HeError Ciphertext × σ :=
  match sampleZnStar R pk.n s with
  | (.error e, s') => (.error e, s')
  | (.ok r, s') => (.ok ⟨ct.c * (r ^ pk.n % pk.nSquared) % pk.nSquared⟩, s')

def encryptZero (s : σ) : Except HeError Ciphertext × σ := pk.encrypt R 0 s

end PaillierPublicKey

namespace PaillierPrivateKey

def fromPrimes (p q : ℕ) : Except HeError PaillierPrivateKey :=
  if p = q then
    .error (.invalidParameter "p must differ from q")
  else
    let n := p * q
    let lambda := (p - 1).lcm (q - 1)
    match modInv lambda n with
    | none => .error (.invalidParameter "lambda not invertible mod n")
    | some mu => .ok ⟨⟨n, n * n, n + 1⟩, lambda, mu⟩

/-- `none` is a panic: the subtraction of one from a power that is zero. -/
def decrypt (sk : PaillierPrivateKey) (ct : Ciphertext) : Option (Except HeError ℕ) :=
  let n := sk.public.n
  let nSquared := sk.public.nSquared
  if ct.c = 0 ∨ ct.c ≥ nSquared then
    some (.error .invalidCiphertext)
  else
    let u := ct.c ^ sk.lambda % nSquared
    if u = 0 then
      none
    else
      let lu := (u - 1) / n
      some (.ok (lu * sk.mu % n))

end PaillierPrivateKey

/-- The running encrypted sum of one cohort, metric and period. The number of
contributions is a `u32`. -/
structure HeAggregator where
  pk : PaillierPublicKey
  sumCiphertext : Ciphertext
  nContributions : ℕ

namespace HeAggregator

def u32Max : ℕ := 2 ^ 32 - 1

def new (pk : PaillierPublicKey) (s : σ) : Except HeError HeAggregator × σ :=
  match pk.encryptZero R s with
  | (.error e, s') => (.error e, s')
  | (.ok zero, s') => (.ok ⟨pk, zero, 0⟩, s')

def fromParts (pk : PaillierPublicKey) (sumCiphertext : Ciphertext) (nContributions : ℕ) :
    HeAggregator :=
  ⟨pk, sumCiphertext, nContributions⟩

def addEncrypted (agg : HeAggregator) (ct : Ciphertext) : Except HeError Unit × HeAggregator :=
  if ct.c = 0 ∨ ct.c ≥ agg.pk.nSquared then
    (.error .invalidCiphertext, agg)
  else if ct.c.gcd agg.pk.n ≠ 1 then
    (.error .invalidCiphertext, agg)
  else
    (.ok (), { agg with
      sumCiphertext := agg.pk.add agg.sumCiphertext ct
      nContributions := min (agg.nContributions + 1) u32Max })

def finalizeBiguint (agg : HeAggregator) (sk : PaillierPrivateKey) : Option (Except HeError ℕ) :=
  sk.decrypt agg.sumCiphertext

end HeAggregator

end SauronId.He
