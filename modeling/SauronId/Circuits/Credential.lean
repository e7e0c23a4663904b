import SauronId.Circuits.MerkleInclusion

namespace SauronId.Circuits

open Lib.Gadgets

/-! ### Dates -/

def daysInMonth (year month : ℕ) : ℕ :=
  if month = 2 then
    if year % 4 = 0 ∧ (year % 100 ≠ 0 ∨ year % 400 = 0) then 29 else 28
  else if month = 4 ∨ month = 6 ∨ month = 9 ∨ month = 11 then 30
  else 31

structure CalendarDate where
  (year month day : ℕ)
  year_le : year ≤ 9999 := by decide
  month_pos : 1 ≤ month := by decide
  month_le : month ≤ 12 := by decide
  day_pos : 1 ≤ day := by decide
  day_le : day ≤ daysInMonth year month := by decide

namespace CalendarDate

def yyyymmdd (d : CalendarDate) : ℕ := d.year * 10000 + d.month * 100 + d.day

def EarlierInYear (d e : CalendarDate) : Prop := d.month < e.month ∨ d.month = e.month ∧ d.day < e.day

instance (d e : CalendarDate) : Decidable (d.EarlierInYear e) :=
  inferInstanceAs (Decidable (_ ∨ _))

/-- The years a person born on `birth` has completed: one less than the difference of the years
until the month and the day of the birth are reached. -/
def completedYears (birth current : CalendarDate) : ℤ :=
  (current.year : ℤ) - birth.year - if current.EarlierInYear birth then 1 else 0

def After (d e : CalendarDate) : Prop := e.year < d.year ∨ e.year = d.year ∧ e.EarlierInYear d

theorem day_le_31 (d : CalendarDate) : d.day ≤ 31 := by
  refine d.day_le.trans ?_
  unfold daysInMonth
  split_ifs <;> decide

theorem yyyymmdd_lt (d : CalendarDate) : d.yyyymmdd < 2 ^ 27 := by
  have hy := d.year_le
  have hm := d.month_le
  have hd := d.day_le_31
  unfold yyyymmdd
  omega

theorem not_after_iff {d e : CalendarDate} : ¬ d.After e ↔ d.yyyymmdd ≤ e.yyyymmdd := by
  have hm := d.month_le
  have hd := d.day_le_31
  have hm' := e.month_le
  have hd' := e.day_le_31
  unfold After EarlierInYear yyyymmdd
  omega

theorem le_completedYears_iff {birth current : CalendarDate} {years : ℕ} :
    (years : ℤ) ≤ birth.completedYears current ↔
      birth.yyyymmdd + years * 10000 ≤ current.yyyymmdd := by
  have hm := birth.month_le
  have hd := birth.day_le_31
  have hm' := current.month_le
  have hd' := current.day_le_31
  unfold completedYears yyyymmdd
  split_ifs with h
  · unfold EarlierInYear at h
    omega
  · unfold EarlierInYear at h
    omega

end CalendarDate

/-! ### The age check -/

def AgeCheck (dateOfBirth currentDate ageThreshold out : Fr) : Prop :=
  ∃ ageDiff ageThresholdScaled, ageDiff = currentDate - dateOfBirth ∧
    ageThresholdScaled = ageThreshold * 10000 ∧ Fits 32 dateOfBirth ∧ Fits 32 currentDate ∧
    Fits 8 ageThreshold ∧ Fits 32 ageThresholdScaled ∧ Fits 32 ageDiff ∧
    GreaterEqThan 32 ageDiff ageThresholdScaled out

theorem fits_natCast {n m : ℕ} (hn : n ≤ 253) (hm : m < 2 ^ n) : Fits n (m : Fr) := by
  have hle := two_pow_le_scalarModulus hn
  rw [fits_iff hle, ZMod.val_cast_of_lt (hm.trans_le hle)]
  exact hm

theorem not_fits_sub {a b : ℕ} (hb : b < 2 ^ 32) (hab : a < b) : ¬ Fits 32 ((a : Fr) - (b : Fr)) := by
  have hle : 2 ^ (32 + 1) ≤ scalarModulus := two_pow_33_le
  have hneg : (a : Fr) - (b : Fr) = ((scalarModulus - (b - a) : ℕ) : Fr) := by
    rw [Nat.cast_sub (by omega), Nat.cast_sub hab.le]
    simp
  rw [fits_32_iff, hneg, ZMod.val_cast_of_lt (by omega)]
  omega

theorem ageCheck_iff {birth current threshold : ℕ} (hbirth : birth < 2 ^ 27)
    (hcurrent : current < 2 ^ 27) (hthreshold : threshold ≤ 255) {out : Fr} :
    AgeCheck birth current threshold out ↔ birth ≤ current ∧
      out = if birth + threshold * 10000 ≤ current then 1 else 0 := by
  have hwide : 2 ^ (32 + 1) ≤ scalarModulus := two_pow_33_le
  have hscaled : (threshold : Fr) * 10000 = ((threshold * 10000 : ℕ) : Fr) := by push_cast; rfl
  have hgeq : birth ≤ current →
      (GreaterEqThan 32 ((current : Fr) - (birth : Fr)) ((threshold : Fr) * 10000) out ↔
        out = if birth + threshold * 10000 ≤ current then 1 else 0) := by
    intro hle
    have hd : ((current - birth : ℕ) : Fr).val = current - birth :=
      ZMod.val_cast_of_lt (by omega)
    have hs : ((threshold * 10000 : ℕ) : Fr).val = threshold * 10000 :=
      ZMod.val_cast_of_lt (by omega)
    rw [← Nat.cast_sub hle, hscaled, greaterEqThan_iff hwide (by omega) (by omega), hd, hs]
    simp only [Nat.le_sub_iff_add_le hle, add_comm (threshold * 10000)]
  constructor
  · rintro ⟨_, _, rfl, rfl, -, -, -, -, hdiff, hout⟩
    have hle : birth ≤ current := by
      by_contra hlt
      exact not_fits_sub (by omega) (not_le.mp hlt) hdiff
    exact ⟨hle, (hgeq hle).mp hout⟩
  · rintro ⟨hle, hout⟩
    refine ⟨_, _, rfl, rfl, fits_natCast (by decide) (by omega), fits_natCast (by decide) (by omega),
      fits_natCast (by decide) (by omega), ?_, ?_, (hgeq hle).mpr hout⟩
    · rw [hscaled]
      exact fits_natCast (by decide) (by omega)
    · rw [← Nat.cast_sub hle]
      exact fits_natCast (by decide) (by omega)

/-! ### `AgeVerification` -/

structure AgeSignals where
  dateOfBirth : Fr
  issuerSig : EdDSASig
  (ageThreshold currentDate : Fr)
  issuerPubKey : IssuerPubKey

structure AgeVerification (K : Circomlib) (s : AgeSignals) (valid : Fr) : Prop where
  signature : IssuerSigned K s.issuerPubKey s.issuerSig (K.poseidon [s.dateOfBirth])
  age : AgeCheck s.dateOfBirth s.currentDate s.ageThreshold valid
  valid : valid = 1

variable {K : Circomlib}

theorem ageVerification_iff {birth current : CalendarDate} {threshold : ℕ}
    (hthreshold : threshold ≤ 255) {key : IssuerPubKey} {sig : EdDSASig}
    (hsig : IssuerSigned K key sig (K.poseidon [(birth.yyyymmdd : Fr)])) :
    (∃ valid, AgeVerification K
        ⟨birth.yyyymmdd, sig, threshold, current.yyyymmdd, key⟩ valid) ↔
      (threshold : ℤ) ≤ birth.completedYears current := by
  rw [CalendarDate.le_completedYears_iff]
  constructor
  · rintro ⟨_, -, hage, rfl⟩
    have h := ((ageCheck_iff birth.yyyymmdd_lt current.yyyymmdd_lt hthreshold).mp hage).2
    by_contra hyoung
    rw [if_neg hyoung] at h
    exact one_ne_zero h
  · intro h
    refine ⟨1, hsig, ?_, rfl⟩
    exact (ageCheck_iff birth.yyyymmdd_lt current.yyyymmdd_lt hthreshold).mpr
      ⟨by omega, (if_pos h).symm⟩

/-! ### `CredentialVerification` -/

structure CredentialSignals (treeLevels : ℕ) where
  (dateOfBirth nationality documentNumber expiryDate issuerId : Fr)
  issuerSig : EdDSASig
  (merklePathElements merklePathIndices : Fin treeLevels → Fr)
  (currentDate ageThreshold requiredNationality merkleRoot : Fr)
  issuerPubKey : IssuerPubKey

variable {treeLevels : ℕ}

def CredentialSignals.credentialHash (K : Circomlib) (s : CredentialSignals treeLevels) : Fr :=
  K.poseidon [s.dateOfBirth, s.nationality, s.documentNumber, s.expiryDate, s.issuerId]

def NationalityCheck (nationality requiredNationality nationalityMatched : Fr) : Prop :=
  ∃ natCheck reqIsZero natProduct, IsEqual nationality requiredNationality natCheck ∧
    IsZero requiredNationality reqIsZero ∧ natProduct = reqIsZero * natCheck ∧
    nationalityMatched = reqIsZero + natCheck - natProduct

structure CredentialVerification (K : Circomlib) (s : CredentialSignals treeLevels)
    (ageVerified nationalityMatched credentialValid : Fr) : Prop where
  signature : IssuerSigned K s.issuerPubKey s.issuerSig (s.credentialHash K)
  age : AgeCheck s.dateOfBirth s.currentDate s.ageThreshold ageVerified
  expiryBits : Fits 32 s.expiryDate
  nationality : NationalityCheck s.nationality s.requiredNationality nationalityMatched
  inclusion : ∃ root, MerklePathVerifier K (s.credentialHash K) s.merklePathElements
    s.merklePathIndices root ∧ IsEqual root s.merkleRoot 1
  combined : ∃ expiryCheck temp, GreaterEqThan 32 s.expiryDate s.currentDate expiryCheck ∧
    temp = ageVerified * nationalityMatched ∧ credentialValid = temp * expiryCheck
  valid : credentialValid = 1

theorem nationalityCheck_iff {nationality required out : Fr} :
    NationalityCheck nationality required out ↔
      out = if nationality = required ∨ required = 0 then 1 else 0 := by
  simp only [NationalityCheck, isEqual_iff, isZero_iff, exists_and_left, exists_eq_left]
  by_cases hz : required = 0
  · simp [hz]
  · by_cases hn : nationality = required
    · simp [hn, hz]
    · simp [hn, hz]

theorem flags_eq_one {a b c : Prop} [Decidable a] [Decidable b] [Decidable c] :
    (if a then 1 else 0 : Fr) * (if b then 1 else 0) * (if c then 1 else 0) = 1 ↔ a ∧ b ∧ c := by
  by_cases ha : a <;> by_cases hb : b <;> by_cases hc : c <;> simp [ha, hb, hc]

structure CredentialSignals.Encodes (s : CredentialSignals treeLevels)
    (birth current expiry : CalendarDate) (threshold : ℕ) : Prop where
  birth : s.dateOfBirth = birth.yyyymmdd
  current : s.currentDate = current.yyyymmdd
  expiry : s.expiryDate = expiry.yyyymmdd
  threshold : s.ageThreshold = threshold

theorem credentialVerification_iff {s : CredentialSignals treeLevels}
    {birth current expiry : CalendarDate} {threshold : ℕ}
    (hs : s.Encodes birth current expiry threshold) (hthreshold : threshold ≤ 255)
    (hsig : IssuerSigned K s.issuerPubKey s.issuerSig (s.credentialHash K))
    (hpath : MerklePathVerifier K (s.credentialHash K) s.merklePathElements s.merklePathIndices
      s.merkleRoot) :
    (∃ ageVerified nationalityMatched credentialValid,
        CredentialVerification K s ageVerified nationalityMatched credentialValid) ↔
      (threshold : ℤ) ≤ birth.completedYears current ∧
        (s.nationality = s.requiredNationality ∨ s.requiredNationality = 0) ∧
        ¬ current.After expiry := by
  have hage : ∀ out, AgeCheck s.dateOfBirth s.currentDate s.ageThreshold out ↔
      birth.yyyymmdd ≤ current.yyyymmdd ∧
        out = if birth.yyyymmdd + threshold * 10000 ≤ current.yyyymmdd then 1 else 0 := by
    intro out
    rw [hs.birth, hs.current, hs.threshold]
    exact ageCheck_iff birth.yyyymmdd_lt current.yyyymmdd_lt hthreshold
  have hwide : 2 ^ (32 + 1) ≤ scalarModulus := two_pow_33_le
  have hval : ∀ d : CalendarDate, (d.yyyymmdd : Fr).val = d.yyyymmdd := by
    intro d
    have hd := d.yyyymmdd_lt
    exact ZMod.val_cast_of_lt (by omega)
  have hexpiry : ∀ out, GreaterEqThan 32 s.expiryDate s.currentDate out ↔
      out = if current.yyyymmdd ≤ expiry.yyyymmdd then 1 else 0 := by
    intro out
    have he := expiry.yyyymmdd_lt
    have hc := current.yyyymmdd_lt
    rw [hs.expiry, hs.current, greaterEqThan_iff hwide, hval, hval]
    · rw [hval]
      omega
    · rw [hval]
      omega
  rw [CalendarDate.le_completedYears_iff, CalendarDate.not_after_iff]
  constructor
  · rintro ⟨age, nat, _, -, hchecked, -, hnat, -, ⟨exp, _, hexp, rfl, rfl⟩, hone⟩
    obtain ⟨-, rfl⟩ := (hage age).mp hchecked
    obtain rfl := nationalityCheck_iff.mp hnat
    obtain rfl := (hexpiry exp).mp hexp
    exact flags_eq_one.mp hone
  · intro h
    have hle := h.1
    refine ⟨_, _, _, hsig, (hage _).mpr ⟨by omega, rfl⟩, ?_, nationalityCheck_iff.mpr rfl,
      ⟨_, hpath, isEqual_one.mpr rfl⟩, ⟨_, _, (hexpiry _).mpr rfl, rfl, rfl⟩, flags_eq_one.mpr h⟩
    have he := expiry.yyyymmdd_lt
    rw [hs.expiry]
    exact fits_natCast (by decide) (by omega)

/-- With a valid signature the age circuit can be satisfied exactly when the person has completed
the years of the threshold. With a valid path too, the credential circuit can be satisfied exactly
when, in addition, the nationality is the required one or none is required, and the document has
not expired. -/
theorem proofs_mean_age (K : Circomlib) (birth current : CalendarDate) (threshold : ℕ)
    (hthreshold : threshold ≤ 255) :
    (∀ key sig, IssuerSigned K key sig (K.poseidon [(birth.yyyymmdd : Fr)]) →
      ((∃ valid, AgeVerification K
          ⟨birth.yyyymmdd, sig, threshold, current.yyyymmdd, key⟩ valid) ↔
        (threshold : ℤ) ≤ birth.completedYears current)) ∧
    (∀ (treeLevels : ℕ) (s : CredentialSignals treeLevels) (expiry : CalendarDate),
      s.Encodes birth current expiry threshold →
      IssuerSigned K s.issuerPubKey s.issuerSig (s.credentialHash K) →
      MerklePathVerifier K (s.credentialHash K) s.merklePathElements s.merklePathIndices
        s.merkleRoot →
      ((∃ ageVerified nationalityMatched credentialValid,
          CredentialVerification K s ageVerified nationalityMatched credentialValid) ↔
        (threshold : ℤ) ≤ birth.completedYears current ∧
          (s.nationality = s.requiredNationality ∨ s.requiredNationality = 0) ∧
          ¬ current.After expiry)) := by
  constructor
  · intro key sig hsig
    exact ageVerification_iff hthreshold hsig
  · intro treeLevels s expiry hs hsig hpath
    exact credentialVerification_iff hs hthreshold hsig hpath

section Demo

def demoBirth : CalendarDate := { year := 1990, month := 3, day := 15 }

def demoBirthday : CalendarDate := { year := 2026, month := 3, day := 15 }

def demoExpiry : CalendarDate := { year := 2026, month := 3, day := 15 }

def demoCredentialHash : Fr :=
  sumKit.poseidon [(demoBirth.yyyymmdd : Fr), (250 : ℕ), (7 : ℕ), (demoExpiry.yyyymmdd : Fr), (3 : ℕ)]

def demoCredential : CredentialSignals 1 where
  dateOfBirth := demoBirth.yyyymmdd
  nationality := (250 : ℕ)
  documentNumber := (7 : ℕ)
  expiryDate := demoExpiry.yyyymmdd
  issuerId := (3 : ℕ)
  issuerSig := selfSigned demoCredentialHash
  merklePathElements := fun _ ↦ (9 : ℕ)
  merklePathIndices := digits scalarModulus 1 0
  currentDate := demoBirthday.yyyymmdd
  ageThreshold := (36 : ℕ)
  requiredNationality := (250 : ℕ)
  merkleRoot := sumKit.hash2 demoCredentialHash (9 : ℕ)
  issuerPubKey := ⟨0, 0⟩

/-- On the birthday itself, with a document that is valid on that day for the last time. -/
theorem proofs_mean_age_birthday :
    (∃ valid, AgeVerification sumKit ⟨demoBirth.yyyymmdd,
      selfSigned (sumKit.poseidon [(demoBirth.yyyymmdd : Fr)]), (36 : ℕ), demoBirthday.yyyymmdd,
      ⟨0, 0⟩⟩ valid) ∧
    ∃ ageVerified nationalityMatched credentialValid,
      CredentialVerification sumKit demoCredential ageVerified nationalityMatched
        credentialValid := by
  obtain ⟨hage, hcredential⟩ :=
    proofs_mean_age sumKit demoBirth demoBirthday 36 (by decide)
  constructor
  · exact (hage _ _ (issuerSigned_selfSigned _ _)).mpr (by decide)
  · refine (hcredential 1 demoCredential demoExpiry ⟨rfl, rfl, rfl, rfl⟩
      (issuerSigned_selfSigned _ _) ?_).mpr ⟨by decide, .inl rfl, ?_⟩
    · exact merklePathVerifier_iff.mpr ⟨0, by decide, rfl, rfl⟩
    · exact CalendarDate.not_after_iff.mpr le_rfl

end Demo

end SauronId.Circuits
