import SauronId.Lib.BigEndian

namespace SauronId.Lib.Der

open BigEndian

/-- The octets of a length. Below 128 the one octet is the length, otherwise it counts the octets
that follow, from one to four. -/
inductive LengthOctets : ℕ → List UInt8 → Prop
  | short {b : UInt8} (hb : b.toNat < 128) : LengthOctets b.toNat [b]
  | long {b : UInt8} {ds : List UInt8} (hb : b.toNat = 128 + ds.length) (hne : ds ≠ [])
      (hfour : ds.length ≤ 4) : LengthOctets (fromBytesBe ds) (b :: ds)

/-- One element: its tag, its length and its content. The length need not be in its shortest
form. -/
def Element (tag : UInt8) (content bs : List UInt8) : Prop :=
  ∃ octets, LengthOctets content.length octets ∧ bs = tag :: (octets ++ content)

theorem LengthOctets.eq_cons {n : ℕ} {octets : List UInt8} (h : LengthOctets n octets) :
    ∃ b ds, octets = b :: ds := by
  cases h with
  | short _ => exact ⟨_, _, rfl⟩
  | long _ _ _ => exact ⟨_, _, rfl⟩

section Read

def readLength (b : UInt8) (input : List UInt8) : Option (ℕ × List UInt8) :=
  if b.toNat < 128 then some (b.toNat, input)
  else if b.toNat = 128 ∨ 132 < b.toNat ∨ input.length < b.toNat - 128 then none
  else some (fromBytesBe (input.take (b.toNat - 128)), input.drop (b.toNat - 128))

def read : List UInt8 → Option (UInt8 × List UInt8 × List UInt8)
  | tag :: b :: input =>
    (readLength b input).bind (fun (len, input) ↦
      if len ≤ input.length then some (tag, input.take len, input.drop len) else none)
  | _ => none

variable {tag tag' b : UInt8} {content content' bs bs' input rest rest' : List UInt8} {n : ℕ}

theorem readLength_eq_some :
    readLength b input = some (n, rest) ↔ ∃ ds, LengthOctets n (b :: ds) ∧ input = ds ++ rest := by
  constructor
  · intro h
    unfold readLength at h
    split_ifs at h with hshort hbad
    · obtain ⟨rfl, rfl⟩ := Prod.mk.inj (Option.some.inj h)
      exact ⟨[], .short hshort, rfl⟩
    · obtain ⟨rfl, rfl⟩ := Prod.mk.inj (Option.some.inj h)
      push Not at hbad
      obtain ⟨hzero, hfour, hlen⟩ := hbad
      have htake : (input.take (b.toNat - 128)).length = b.toNat - 128 :=
        List.length_take_of_le hlen
      refine ⟨_, .long ?_ ?_ ?_, (List.take_append_drop _ _).symm⟩
      · omega
      · exact List.ne_nil_of_length_pos (by omega)
      · omega
  · rintro ⟨ds, hoctets, rfl⟩
    cases hoctets with
    | short hb => exact if_pos hb
    | long hb hne hfour =>
      have hpos := List.length_pos_iff.mpr hne
      have hcount : b.toNat - 128 = ds.length := by omega
      rw [readLength, if_neg (by omega), if_neg, hcount, List.take_left, List.drop_left]
      rw [List.length_append]
      omega

theorem read_eq_some :
    read input = some (tag, content, rest) ↔ ∃ bs, Element tag content bs ∧ input = bs ++ rest := by
  constructor
  · intro hread
    unfold read at hread
    split at hread
    · rename_i tag₀ b input
      obtain ⟨⟨len, behind⟩, hlen, h⟩ := Option.bind_eq_some_iff.mp hread
      clear hread
      obtain ⟨ds, hoctets, rfl⟩ := readLength_eq_some.mp hlen
      simp only [Option.ite_none_right_eq_some, Option.some.injEq, Prod.mk.injEq] at h
      obtain ⟨hle, rfl, rfl, rfl⟩ := h
      have htake : (behind.take len).length = len := List.length_take_of_le hle
      refine ⟨_, ⟨b :: ds, ?_, rfl⟩, ?_⟩
      · rw [htake]
        exact hoctets
      · simp
    · cases hread
  · rintro ⟨_, ⟨octets, hoctets, rfl⟩, rfl⟩
    obtain ⟨b, ds, rfl⟩ := hoctets.eq_cons
    have hlen : readLength b (ds ++ (content ++ rest)) = some (content.length, content ++ rest) :=
      readLength_eq_some.mpr ⟨ds, hoctets, rfl⟩
    simp [read, hlen]

theorem Element.read (h : Element tag content bs) (rest : List UInt8) :
    Der.read (bs ++ rest) = some (tag, content, rest) :=
  read_eq_some.mpr ⟨bs, h, rfl⟩

theorem Element.head (h : Element tag content bs) : (bs ++ rest).head? = some tag := by
  obtain ⟨octets, -, rfl⟩ := h
  rfl

end Read

section Encode

def lengthOctets (n : ℕ) : List UInt8 :=
  if n < 128 then [UInt8.ofNat n]
  else UInt8.ofNat (128 + (toBytesBe n).length) :: toBytesBe n

def encode (tag : UInt8) (content : List UInt8) : List UInt8 :=
  tag :: (lengthOctets content.length ++ content)

theorem length_toBytesBe_le {n k : ℕ} (hn : 0 < n) : (toBytesBe n).length ≤ k ↔ n < 256 ^ k := by
  rw [toBytesBe, if_neg (by omega), List.length_reverse, List.length_map,
    Nat.digits_length_le_iff (by omega)]

theorem toNat_ofNat {n : ℕ} (hn : n < 256) : (UInt8.ofNat n).toNat = n :=
  Nat.mod_eq_of_lt hn

theorem lengthOctets_spec {n : ℕ} (h : n < 256 ^ 4) : LengthOctets n (lengthOctets n) := by
  unfold lengthOctets
  split_ifs with hshort
  · have hn : (UInt8.ofNat n).toNat = n := toNat_ofNat (by omega)
    have hoctets := LengthOctets.short (b := UInt8.ofNat n) (by omega)
    rwa [hn] at hoctets
  · have hfour := (length_toBytesBe_le (k := 4) (by omega)).mpr h
    have hoctets := LengthOctets.long (toNat_ofNat (by omega)) (toBytesBe_ne_nil n) hfour
    rwa [fromBytesBe_toBytesBe] at hoctets

theorem element_encode {tag : UInt8} {content : List UInt8} (h : content.length < 256 ^ 4) :
    Element tag content (encode tag content) :=
  ⟨_, lengthOctets_spec h, rfl⟩

theorem read_encode_eq_none {tag : UInt8} {content : List UInt8} (h : 256 ^ 4 ≤ content.length)
    (hmax : content.length < 256 ^ 126) (rest : List UInt8) :
    read (encode tag content ++ rest) = none := by
  have hfour : ¬ (toBytesBe content.length).length ≤ 4 :=
    fun hle ↦ absurd ((length_toBytesBe_le (by omega)).mp hle) (by omega)
  have hbound := (length_toBytesBe_le (k := 126) (by omega)).mpr hmax
  have hcount : (UInt8.ofNat (128 + (toBytesBe content.length).length)).toNat =
      128 + (toBytesBe content.length).length := toNat_ofNat (by omega)
  simp only [encode, lengthOctets, if_neg (show ¬ content.length < 128 by omega),
    List.cons_append, read]
  rw [readLength, if_neg (by omega), if_pos (by omega)]
  rfl

theorem length_lengthOctets_mono {m n : ℕ} (h : m ≤ n) :
    (lengthOctets m).length ≤ (lengthOctets n).length := by
  unfold lengthOctets
  split_ifs with hm hn
  · rfl
  · simp
  · omega
  · have hle : (toBytesBe m).length ≤ (toBytesBe n).length :=
      (length_toBytesBe_le (by omega)).mpr
        (lt_of_le_of_lt h ((length_toBytesBe_le (by omega)).mp le_rfl))
    simpa using hle

theorem encode_injective (tag : UInt8) : Function.Injective (encode tag) := by
  intro c c' h
  have hbytes : lengthOctets c.length ++ c = lengthOctets c'.length ++ c' := (List.cons.inj h).2
  have hlength := congrArg List.length hbytes
  simp only [List.length_append] at hlength
  -- longer content never has fewer octets for its length
  have heq : c.length = c'.length := by
    rcases le_total c.length c'.length with hle | hle
    · have := length_lengthOctets_mono hle
      omega
    · have := length_lengthOctets_mono hle
      omega
  rw [heq] at hbytes
  exact List.append_cancel_left hbytes

theorem length_le_length_encode (tag : UInt8) (content : List UInt8) :
    content.length ≤ (encode tag content).length := by
  simp only [encode, List.length_cons, List.length_append]
  omega

def encodeAll (fs : List (UInt8 × List UInt8)) : List UInt8 := fs.flatMap (fun f ↦ encode f.1 f.2)

theorem length_le_length_encodeAll {fs : List (UInt8 × List UInt8)} {f : UInt8 × List UInt8}
    (hf : f ∈ fs) : f.2.length ≤ (encodeAll fs).length := by
  obtain ⟨s, t, rfl⟩ := List.append_of_mem hf
  have hle := length_le_length_encode f.1 f.2
  simp only [encodeAll, List.flatMap_append, List.flatMap_cons, List.length_append]
  omega

end Encode

section Certificate

def integerTag : UInt8 := 0x02

def bitStringTag : UInt8 := 0x03

def nullTag : UInt8 := 0x05

def objectIdentifierTag : UInt8 := 0x06

def sequenceTag : UInt8 := 0x30

def versionTag : UInt8 := 0xa0

/-- The bytes of `n` elements in a row. -/
inductive Elements : ℕ → List UInt8 → Prop
  | nil : Elements 0 []
  | cons {tag : UInt8} {content bs rest : List UInt8} {n : ℕ} (h : Element tag content bs)
      (hrest : Elements n rest) : Elements (n + 1) (bs ++ rest)

theorem elements_encodeAll {fs : List (UInt8 × List UInt8)}
    (h : ∀ f ∈ fs, f.2.length < 256 ^ 4) : Elements fs.length (encodeAll fs) := by
  induction fs with
  | nil => exact .nil
  | cons f fs ih =>
    obtain ⟨hf, hfs⟩ := List.forall_mem_cons.mp h
    exact .cons (element_encode hf) (ih hfs)

/-- Where a certificate keeps its key. The fields before it are a version that may be missing and
five others; `alg` is the content of the algorithm identifier and `bits` that of the bit string. -/
inductive KeyInfo : List UInt8 → List UInt8 → List UInt8 → Prop
  | intro {outer certificate inner tbs fields info spki algorithm alg key bits r₁ r₂ r₃ r₄ :
        List UInt8}
      (houter : Element sequenceTag certificate outer)
      (hinner : Element sequenceTag tbs inner) (hcertificate : certificate = inner ++ r₂)
      (hfields : Elements (if tbs.head? = some versionTag then 6 else 5) fields)
      (hinfo : Element sequenceTag spki info) (htbs : tbs = fields ++ (info ++ r₃))
      (halgorithm : Element sequenceTag alg algorithm) (hkey : Element bitStringTag bits key)
      (hspki : spki = algorithm ++ (key ++ r₄)) : KeyInfo (outer ++ r₁) alg bits

def readTag (expected : UInt8) (input : List UInt8) : Option (List UInt8 × List UInt8) :=
  (read input).bind (fun (tag, content, rest) ↦
    if tag = expected then some (content, rest) else none)

def skip : ℕ → List UInt8 → Option (List UInt8)
  | 0, input => some input
  | n + 1, input => (read input).bind (fun (_, _, rest) ↦ skip n rest)

def keyInfo (cert : List UInt8) : Option (List UInt8 × List UInt8) :=
  (readTag sequenceTag cert).bind fun (certificate, _) ↦
  (readTag sequenceTag certificate).bind fun (tbs, _) ↦
  (skip (if tbs.head? = some versionTag then 6 else 5) tbs).bind fun info ↦
  (readTag sequenceTag info).bind fun (spki, _) ↦
  (readTag sequenceTag spki).bind fun (alg, key) ↦
  (readTag bitStringTag key).bind fun (bits, _) ↦ some (alg, bits)

variable {tag : UInt8} {cert alg alg' bits bits' content input rest : List UInt8} {n : ℕ}

theorem readTag_eq_some_iff_read :
    readTag tag input = some (content, rest) ↔ read input = some (tag, content, rest) := by
  rw [readTag, Option.bind_eq_some_iff]
  simp only [Option.ite_none_right_eq_some, Option.some.injEq, Prod.mk.injEq]
  constructor
  · rintro ⟨_, hread, rfl, rfl, rfl⟩
    exact hread
  · intro hread
    exact ⟨_, hread, rfl, rfl, rfl⟩

theorem readTag_eq_some :
    readTag tag input = some (content, rest) ↔
      ∃ bs, Element tag content bs ∧ input = bs ++ rest := by
  rw [readTag_eq_some_iff_read, read_eq_some]

theorem skip_eq_some :
    skip n input = some rest ↔ ∃ bs, Elements n bs ∧ input = bs ++ rest := by
  induction n generalizing input with
  | zero =>
    constructor
    · intro h
      exact ⟨[], .nil, Option.some.inj h⟩
    · rintro ⟨_, ⟨⟩, rfl⟩
      rfl
  | succ n ih =>
    rw [skip, Option.bind_eq_some_iff]
    constructor
    · rintro ⟨⟨tag, content, behind⟩, hread, hskip⟩
      obtain ⟨bs, helement, rfl⟩ := read_eq_some.mp hread
      obtain ⟨bss, helements, rfl⟩ := ih.mp hskip
      exact ⟨bs ++ bss, .cons helement helements, (List.append_assoc _ _ _).symm⟩
    · rintro ⟨_, helements, rfl⟩
      cases helements with
      | @cons tag content bs bss _ helement helements =>
        rw [List.append_assoc]
        exact ⟨_, helement.read _, ih.mpr ⟨bss, helements, rfl⟩⟩

theorem keyInfo_eq_some : keyInfo cert = some (alg, bits) ↔ KeyInfo cert alg bits := by
  simp only [keyInfo, Option.bind_eq_some_iff, Prod.exists, readTag_eq_some, skip_eq_some,
    Option.some.injEq, Prod.mk.injEq]
  constructor
  · rintro ⟨certificate, r₁, ⟨outer, houter, rfl⟩, tbs, r₂, ⟨inner, hinner, rfl⟩, info,
      ⟨fields, hfields, htbs⟩, spki, r₃, ⟨key, hinfo, rfl⟩, alg, _, ⟨algorithm, halgorithm, rfl⟩,
      bits, r₄, ⟨key, hkey, rfl⟩, rfl, rfl⟩
    exact .intro houter hinner rfl hfields hinfo htbs halgorithm hkey rfl
  · rintro ⟨houter, hinner, rfl, hfields, hinfo, htbs, halgorithm, hkey, rfl⟩
    exact ⟨_, _, ⟨_, houter, rfl⟩, _, _, ⟨_, hinner, rfl⟩, _, ⟨_, hfields, htbs⟩, _, _,
      ⟨_, hinfo, rfl⟩, _, _, ⟨_, halgorithm, rfl⟩, _, _, ⟨_, hkey, rfl⟩, rfl, rfl⟩

end Certificate

end SauronId.Lib.Der
