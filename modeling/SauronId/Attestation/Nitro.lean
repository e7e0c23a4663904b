import SauronId.Attestation.RoundTrip

namespace SauronId.Attestation

open Lib Encoding Cbor

structure CoseSign1 where
  protectedBstr : List UInt8
  (protectedMap unprotectedMap : CborValue)
  (payloadBstr signature : List UInt8)

section Parse

def expectBytes (v : CborValue) (m : String) : Except AttestationError (List UInt8) :=
  match v with
  | .bytes b => .ok b
  | _ => malformed m

def expectMap (v : CborValue) (m : String) : Except AttestationError CborValue :=
  match v with
  | .map entries => .ok (.map entries)
  | _ => malformed m

def parseProtected (protectedBstr : List UInt8) : Except AttestationError CborValue :=
  if protectedBstr = [] then
    .ok (.map [])
  else do
    let (m, _) ← parseCbor protectedBstr
    return m

def readCose (protectedV unprotectedV payloadV signatureV : CborValue) :
    Except AttestationError CoseSign1 := do
  let protectedBstr ← expectBytes protectedV "cose: protected header is not a bstr"
  let protectedMap ← parseProtected protectedBstr
  let unprotectedMap ← expectMap unprotectedV "cose: unprotected header is not a map"
  let payloadBstr ← expectBytes payloadV "cose: payload is not a bstr"
  let signature ← expectBytes signatureV "cose: signature is not a bstr"
  return ⟨protectedBstr, protectedMap, unprotectedMap, payloadBstr, signature⟩

def parseCoseSign1 (input : List UInt8) : Except AttestationError CoseSign1 := do
  let (top, _) ← parseCbor input
  match top with
  | .array [protectedV, unprotectedV, payloadV, signatureV] =>
    readCose protectedV unprotectedV payloadV signatureV
  | .array arr =>
    malformed ("cose: top-level array has " ++ toString arr.length ++ " items, expected 4")
  | other => malformed ("cose: top-level not array (got " ++ cborKind other ++ ")")

/-- The parsed document. The map of the registers is given by its lookups. -/
structure NitroParsedDoc where
  (moduleId digest : String)
  timestamp : ℕ
  pcrs : ℕ → Option (List UInt8)
  certificateDer : List UInt8
  cabundleDer : List (List UInt8)
  (publicKey userData nonce : Option (List UInt8))

def require {α : Type} (field : Option α) (name : String) : Except AttestationError α :=
  match field with
  | some a => .ok a
  | none => malformed ("nitro doc: missing " ++ name)

def pcrIndex : CborValue → Except AttestationError ℕ
  | .uint u =>
    if u > 31 then malformed ("nitro doc: PCR index " ++ toString u ++ " exceeds 31") else .ok u
  | other => malformed ("nitro doc: pcrs key is not uint (got " ++ cborKind other ++ ")")

def pcrValue (idx : ℕ) : CborValue → Except AttestationError (List UInt8)
  | .bytes b => .ok b
  | other => malformed ("nitro doc: pcrs[" ++ toString idx ++ "] value is not bstr (got " ++
      cborKind other ++ ")")

def readPcrs : List (CborValue × CborValue) → (ℕ → Option (List UInt8)) →
    Except AttestationError (ℕ → Option (List UInt8))
  | [], out => .ok out
  | (k, v) :: entries, out => do
    let idx ← pcrIndex k
    let bytes ← pcrValue idx v
    readPcrs entries (Function.update out idx (some bytes))

def parsePcrs : CborValue → Except AttestationError (ℕ → Option (List UInt8))
  | .map entries => readPcrs entries (fun _ ↦ none)
  | other => malformed ("nitro doc: pcrs is not a map (got " ++ cborKind other ++ ")")

def cabundleEntry : CborValue → Except AttestationError (List UInt8)
  | .bytes b => .ok b
  | other => malformed ("nitro doc: cabundle entry not bstr (got " ++ cborKind other ++ ")")

def parseCabundle : Option CborValue → Except AttestationError (List (List UInt8))
  | some (.array items) => items.mapM cabundleEntry
  | some _ => malformed "nitro doc: cabundle is not an array"
  | none => .ok []

def readDocument (v : CborValue) : Except AttestationError NitroParsedDoc := do
  let moduleId ← require ((v.getText "module_id").bind CborValue.asText) "module_id"
  let digest ← require ((v.getText "digest").bind CborValue.asText) "digest"
  let timestamp ← require ((v.getText "timestamp").bind CborValue.asUint) "timestamp"
  let pcrsV ← require (v.getText "pcrs") "pcrs"
  let pcrs ← parsePcrs pcrsV
  let certificateDer ← require ((v.getText "certificate").bind CborValue.asBytes) "certificate"
  let cabundleDer ← parseCabundle (v.getText "cabundle")
  return {
    moduleId, digest, timestamp, pcrs, certificateDer, cabundleDer
    publicKey := (v.getText "public_key").bind CborValue.asBytes
    userData := (v.getText "user_data").bind CborValue.asBytes
    nonce := (v.getText "nonce").bind CborValue.asBytes }

def parseAttestationPayload (payloadBstr : List UInt8) :
    Except AttestationError NitroParsedDoc := do
  let (v, _) ← parseCbor payloadBstr
  readDocument v

def parseNitroCose (input : List UInt8) :
    Except AttestationError (CoseSign1 × NitroParsedDoc) := do
  let cose ← parseCoseSign1 input
  let doc ← parseAttestationPayload cose.payloadBstr
  return (cose, doc)

end Parse

section Grammar

/-- A field of the documented grammar `bstr | nil`, which may also be left out. -/
inductive OptionalField
  | bytes (b : List UInt8)
  | nil
  | absent
  deriving DecidableEq

namespace OptionalField

def item : OptionalField → Option Item
  | bytes b => some (.bytes b)
  | nil => some .nil
  | absent => none

def content : OptionalField → Option (List UInt8)
  | bytes b => some b
  | _ => none

end OptionalField

structure NitroDocument where
  (moduleId digest : String)
  timestamp : ℕ
  pcrs : List (ℕ × List UInt8)
  certificate : List UInt8
  cabundle : List (List UInt8)
  (publicKey userData nonce : OptionalField)
  pcrs_le : ∀ p ∈ pcrs, p.1 ≤ 31
  pcrs_nodup : (pcrs.map Prod.fst).Nodup
  cabundle_ne : cabundle ≠ []

namespace NitroDocument

variable (doc : NitroDocument)

def fields : List (String × Option Item) :=
  [("module_id", some (.text doc.moduleId)),
    ("digest", some (.text doc.digest)),
    ("timestamp", some (.uint doc.timestamp)),
    ("pcrs", some (.map (doc.pcrs.map (fun p ↦ (.uint p.1, .bytes p.2))))),
    ("certificate", some (.bytes doc.certificate)),
    ("cabundle", some (.array (doc.cabundle.map .bytes))),
    ("public_key", doc.publicKey.item),
    ("user_data", doc.userData.item),
    ("nonce", doc.nonce.item)]

def entries : List (Item × Item) :=
  doc.fields.filterMap (fun f ↦ f.2.map (fun item ↦ (.text f.1, item)))

def parsed : NitroParsedDoc where
  moduleId := doc.moduleId
  digest := doc.digest
  timestamp := doc.timestamp
  pcrs := fun i ↦ doc.pcrs.lookup i
  certificateDer := doc.certificate
  cabundleDer := doc.cabundle
  publicKey := doc.publicKey.content
  userData := doc.userData.content
  nonce := doc.nonce.content

def Readable : Prop :=
  doc.publicKey ≠ .nil ∧ doc.userData ≠ .nil ∧ doc.nonce ≠ .nil ∧ doc.cabundle.length ≤ 65536

instance : Decidable doc.Readable := inferInstanceAs (Decidable (_ ∧ _ ∧ _ ∧ _))

end NitroDocument

/-- The bytes are the document as a map with definite lengths, its entries in
any order. -/
def EncodesDocument (doc : NitroDocument) (payload : List UInt8) : Prop :=
  ∃ entries, entries.Perm doc.entries ∧ Encodes (.map entries) payload

/-- The bytes are the document in a signed envelope with the given headers,
untagged or under the tag of such envelopes. -/
structure Enveloped (doc : NitroDocument) (tagged : Bool)
    (protectedHeader unprotectedHeader : List (Item × Item)) (input : List UInt8) where
  (protectedBstr payload signature : List UInt8)
  protected_encodes : protectedBstr = [] ∧ protectedHeader = [] ∨
    Encodes (.map protectedHeader) protectedBstr
  payload_encodes : EncodesDocument doc payload
  input_encodes :
    let envelope := Item.array [.bytes protectedBstr, .map unprotectedHeader, .bytes payload,
      .bytes signature]
    Encodes (if tagged then .tag 18 envelope else envelope) input

end Grammar

section Values

def entryOf (e : Item × Item) : Option (CborValue × CborValue) :=
  (valueOf e.1).bind (fun k ↦ (valueOf e.2).map (fun v ↦ (k, v)))

theorem entriesOf_cons (e : Item × Item) (entries : List (Item × Item)) :
    entriesOf (e :: entries) =
      (entryOf e).bind (fun x ↦ (entriesOf entries).map (fun xs ↦ x :: xs)) := by
  obtain ⟨k, v⟩ := e
  rw [entriesOf, entryOf]
  cases valueOf k with
  | none => rfl
  | some k' =>
    cases valueOf v with
    | none => rfl
    | some v' =>
      cases entriesOf entries with
      | none => rfl
      | some xs => rfl

variable {entries : List (Item × Item)}

theorem entriesOf_isSome :
    (entriesOf entries).isSome ↔ ∀ e ∈ entries, (entryOf e).isSome := by
  induction entries with
  | nil => simp [entriesOf]
  | cons e entries ih =>
    rw [entriesOf_cons, List.forall_mem_cons, ← ih]
    cases entryOf e with
    | none => simp
    | some x => simp

variable {es : List (CborValue × CborValue)}

theorem mem_entriesOf (h : entriesOf entries = some es) (x : CborValue × CborValue) :
    x ∈ es ↔ ∃ e ∈ entries, entryOf e = some x := by
  induction entries generalizing es with
  | nil =>
    obtain rfl : [] = es := Option.some.inj h
    simp
  | cons e entries ih =>
    rw [entriesOf_cons] at h
    obtain ⟨y, hy, h⟩ := Option.bind_eq_some_iff.mp h
    obtain ⟨ys, hys, rfl⟩ := Option.map_eq_some_iff.mp h
    rw [List.mem_cons, ih hys, List.exists_mem_cons_iff, hy, Option.some.injEq]
    exact or_congr eq_comm Iff.rfl

theorem underText_eq_some {key : String} {e : CborValue × CborValue} {v : CborValue} :
    CborValue.underText key e = some v ↔ e = (.text key, v) := by
  obtain ⟨k, w⟩ := e
  cases k with
  | text s => simp [CborValue.underText]
  | uint n | negInt n | bytes b | array items | map entries => simp [CborValue.underText]

theorem getText_eq {name : String} {o : Option CborValue}
    (h : ∀ v, (.text name, v) ∈ es ↔ o = some v) : CborValue.getText (.map es) name = o := by
  show es.findSome? (CborValue.underText name) = o
  cases hfind : es.findSome? (CborValue.underText name) with
  | none =>
    cases o with
    | none => rfl
    | some v =>
      have hnone := List.findSome?_eq_none_iff.mp hfind (.text name, v) ((h v).mpr rfl)
      rw [underText_eq_some.mpr rfl] at hnone
      cases hnone
  | some v =>
    obtain ⟨e, hmem, he⟩ := List.exists_of_findSome?_eq_some hfind
    rw [underText_eq_some.mp he] at hmem
    exact ((h v).mp hmem).symm

theorem valuesOf_bytes (l : List (List UInt8)) :
    valuesOf (l.map .bytes) = some (l.map .bytes) := by
  induction l with
  | nil => rfl
  | cons b l ih =>
    rw [List.map_cons, valuesOf, ih]
    rfl

theorem entriesOf_pcrs (l : List (ℕ × List UInt8)) :
    entriesOf (l.map (fun p ↦ (.uint p.1, .bytes p.2))) =
      some (l.map (fun p ↦ (.uint p.1, .bytes p.2))) := by
  induction l with
  | nil => rfl
  | cons p l ih =>
    rw [List.map_cons, entriesOf_cons, ih]
    rfl

end Values

namespace NitroDocument

variable {doc : NitroDocument}

theorem mem_entries {e : Item × Item} :
    e ∈ doc.entries ↔ ∃ name item, (name, some item) ∈ doc.fields ∧ e = (.text name, item) := by
  simp only [entries, List.mem_filterMap, Option.map_eq_some_iff, Prod.exists]
  constructor
  · intro h
    obtain ⟨name, o, hmem, item, rfl, rfl⟩ := h
    exact ⟨name, item, hmem, rfl⟩
  · intro h
    obtain ⟨name, item, hmem, rfl⟩ := h
    exact ⟨name, some item, hmem, item, rfl, rfl⟩

theorem fields_nodup (doc : NitroDocument) : (doc.fields.map Prod.fst).Nodup := by
  show ["module_id", "digest", "timestamp", "pcrs", "certificate", "cabundle", "public_key",
    "user_data", "nonce"].Nodup
  decide

theorem field_unique {name : String} {o o' : Option Item} (h : (name, o) ∈ doc.fields)
    (h' : (name, o') ∈ doc.fields) : o = o' := by
  have := List.inj_on_of_nodup_map doc.fields_nodup h h' rfl
  exact congrArg Prod.snd this

theorem length_pcrs_le (doc : NitroDocument) : doc.pcrs.length ≤ 32 := by
  have hsub : doc.pcrs.map Prod.fst ⊆ List.range 32 := by
    intro i hi
    obtain ⟨p, hp, rfl⟩ := List.mem_map.mp hi
    exact List.mem_range.mpr (Nat.lt_succ_of_le (doc.pcrs_le p hp))
  have hlen := (doc.pcrs_nodup.subperm hsub).length_le
  rwa [List.length_map, List.length_range] at hlen

theorem valueOf_pcrs (doc : NitroDocument) :
    valueOf (.map (doc.pcrs.map (fun p ↦ (.uint p.1, .bytes p.2)))) =
      some (.map (doc.pcrs.map (fun p ↦ (.uint p.1, .bytes p.2)))) := by
  have hlen := doc.length_pcrs_le
  rw [valueOf, entriesOf_pcrs, if_pos (by rw [List.length_map]; omega)]
  rfl

theorem valueOf_cabundle (doc : NitroDocument) :
    valueOf (.array (doc.cabundle.map .bytes)) =
      if doc.cabundle.length ≤ 65536 then some (.array (doc.cabundle.map .bytes)) else none := by
  rw [valueOf, valuesOf_bytes, List.length_map]
  rfl

theorem valueOf_optional (field : OptionalField) :
    (∀ item ∈ field.item, (valueOf item).isSome) ↔ field ≠ .nil := by
  cases field with
  | bytes b => simp [OptionalField.item, valueOf]
  | nil => simp [OptionalField.item, Item.nil, valueOf]
  | absent => simp [OptionalField.item]

theorem readable_iff :
    doc.Readable ↔ ∀ f ∈ doc.fields, ∀ item ∈ f.2, (valueOf item).isSome := by
  have hcabundle : (valueOf (.array (doc.cabundle.map .bytes))).isSome ↔
      doc.cabundle.length ≤ 65536 := by
    rw [valueOf_cabundle]
    split_ifs with hlen
    · simpa using hlen
    · simpa using hlen
  have hpcrs : (valueOf (.map (doc.pcrs.map (fun p ↦ (.uint p.1, .bytes p.2))))).isSome := by
    rw [valueOf_pcrs]
    rfl
  rw [Readable, ← valueOf_optional, ← valueOf_optional, ← valueOf_optional, ← hcabundle]
  simp only [fields, List.forall_mem_cons, List.not_mem_nil, false_imp_iff, forall_const,
    Option.mem_def, Option.some.injEq, forall_eq', hpcrs, true_and, and_true]
  constructor
  · intro h
    exact ⟨rfl, rfl, rfl, rfl, h.2.2.2, h.1, h.2.1, h.2.2.1⟩
  · intro h
    obtain ⟨-, -, -, -, hbundle, hkey, hdata, hnonce⟩ := h
    exact ⟨hkey, hdata, hnonce, hbundle⟩

section Lookup

variable {entries : List (Item × Item)} {es : List (CborValue × CborValue)}

theorem entryOf_text (name : String) (item : Item) :
    entryOf (.text name, item) = (valueOf item).map (fun v ↦ (.text name, v)) := rfl

theorem getText_field (hperm : entries.Perm doc.entries) (hes : entriesOf entries = some es)
    {name : String} {o : Option Item} (hfield : (name, o) ∈ doc.fields) :
    CborValue.getText (.map es) name = o.bind valueOf := by
  apply getText_eq
  intro v
  rw [mem_entriesOf hes]
  constructor
  · intro h
    obtain ⟨e, he, hv⟩ := h
    obtain ⟨name', item, hmem, rfl⟩ := mem_entries.mp (hperm.mem_iff.mp he)
    rw [entryOf_text] at hv
    obtain ⟨w, hw, hpair⟩ := Option.map_eq_some_iff.mp hv
    obtain ⟨hname, rfl⟩ : name' = name ∧ w = v := by simpa using hpair
    rw [hname] at hmem
    rw [← field_unique hmem hfield]
    exact hw
  · intro h
    obtain ⟨item, rfl, hv⟩ := Option.bind_eq_some_iff.mp h
    refine ⟨(.text name, item), hperm.mem_iff.mpr (mem_entries.mpr ⟨name, item, hfield, rfl⟩), ?_⟩
    rw [entryOf_text, hv]
    rfl

theorem readPcrs_eq {l : List (ℕ × List UInt8)} (hle : ∀ p ∈ l, p.1 ≤ 31)
    (hnodup : (l.map Prod.fst).Nodup) (out : ℕ → Option (List UInt8)) :
    readPcrs (l.map (fun p ↦ (.uint p.1, .bytes p.2))) out =
      .ok (fun i ↦ (l.lookup i).or (out i)) := by
  induction l generalizing out with
  | nil => rfl
  | cons p l ih =>
    obtain ⟨hp, hl⟩ := List.forall_mem_cons.mp hle
    rw [List.map_cons, List.nodup_cons] at hnodup
    have hstep : readPcrs ((p :: l).map (fun p ↦ (.uint p.1, .bytes p.2))) out =
        readPcrs (l.map (fun p ↦ (.uint p.1, .bytes p.2)))
          (Function.update out p.1 (some p.2)) := by
      rw [List.map_cons, readPcrs, pcrIndex, if_neg (by omega)]
      rfl
    rw [hstep, ih hl hnodup.2]
    congr 1
    funext i
    rw [List.lookup_cons]
    by_cases hi : i = p.1
    · have hnone : l.lookup i = none := by
        rw [List.lookup_eq_none_iff]
        intro q hq
        have hne : q.1 ≠ p.1 := fun he ↦ hnodup.1 (he ▸ List.mem_map_of_mem hq)
        simpa [hi] using hne.symm
      rw [hnone, hi, Function.update_self]
      simp
    · rw [Function.update_of_ne hi]
      have hbeq : (i == p.1) = false := beq_eq_false_iff_ne.mpr hi
      rw [hbeq]

theorem mapM_cabundleEntry (l : List (List UInt8)) :
    (l.map CborValue.bytes).mapM cabundleEntry = .ok l := by
  induction l with
  | nil => rfl
  | cons b l ih =>
    rw [List.map_cons, List.mapM_cons, ih]
    rfl

theorem bind_asBytes {field : OptionalField} (h : field ≠ .nil) :
    (field.item.bind valueOf).bind CborValue.asBytes = field.content := by
  cases field with
  | bytes b => rfl
  | nil => exact absurd rfl h
  | absent => rfl

theorem readDocument_eq (hreadable : doc.Readable) (hperm : entries.Perm doc.entries)
    (hes : entriesOf entries = some es) : readDocument (.map es) = .ok doc.parsed := by
  obtain ⟨hkey, hdata, hnonce, hlen⟩ := hreadable
  have hmodule : CborValue.getText (.map es) "module_id" = some (.text doc.moduleId) :=
    getText_field hperm hes (o := some (.text doc.moduleId)) (by simp [fields])
  have hdigest : CborValue.getText (.map es) "digest" = some (.text doc.digest) :=
    getText_field hperm hes (o := some (.text doc.digest)) (by simp [fields])
  have htimestamp : CborValue.getText (.map es) "timestamp" = some (.uint doc.timestamp) :=
    getText_field hperm hes (o := some (.uint doc.timestamp)) (by simp [fields])
  have hpcrs : CborValue.getText (.map es) "pcrs" =
      some (.map (doc.pcrs.map (fun p ↦ (.uint p.1, .bytes p.2)))) := by
    rw [← valueOf_pcrs]
    exact getText_field hperm hes (o := some (.map _)) (by simp [fields])
  have hcertificate : CborValue.getText (.map es) "certificate" = some (.bytes doc.certificate) :=
    getText_field hperm hes (o := some (.bytes doc.certificate)) (by simp [fields])
  have hcabundle : CborValue.getText (.map es) "cabundle" =
      some (.array (doc.cabundle.map .bytes)) := by
    have hvalue := valueOf_cabundle doc
    rw [if_pos hlen] at hvalue
    rw [← hvalue]
    exact getText_field hperm hes (o := some (.array _)) (by simp [fields])
  have hpublicKey : CborValue.getText (.map es) "public_key" = doc.publicKey.item.bind valueOf :=
    getText_field hperm hes (by simp [fields])
  have huserData : CborValue.getText (.map es) "user_data" = doc.userData.item.bind valueOf :=
    getText_field hperm hes (by simp [fields])
  have hnonceField : CborValue.getText (.map es) "nonce" = doc.nonce.item.bind valueOf :=
    getText_field hperm hes (by simp [fields])
  have hregisters : parsePcrs (.map (doc.pcrs.map (fun p ↦ (.uint p.1, .bytes p.2)))) =
      .ok (fun i ↦ doc.pcrs.lookup i) := by
    rw [parsePcrs, readPcrs_eq doc.pcrs_le doc.pcrs_nodup]
    congr 1
    funext i
    exact Option.or_none
  have hbundle : parseCabundle (some (.array (doc.cabundle.map .bytes))) = .ok doc.cabundle :=
    mapM_cabundleEntry doc.cabundle
  unfold readDocument parsed
  rw [hmodule, hdigest, htimestamp, hpcrs, hcertificate, hcabundle, hbundle, hpublicKey, huserData,
    hnonceField, bind_asBytes hkey, bind_asBytes hdata, bind_asBytes hnonce]
  show (do
    let pcrs ← parsePcrs (.map (doc.pcrs.map (fun p : ℕ × List UInt8 ↦ (.uint p.1, .bytes p.2))))
    let certificateDer ← (.ok doc.certificate : Except AttestationError (List UInt8))
    let cabundleDer ← (.ok doc.cabundle : Except AttestationError (List (List UInt8)))
    return (NitroParsedDoc.mk doc.moduleId doc.digest doc.timestamp pcrs certificateDer
      cabundleDer doc.publicKey.content doc.userData.content doc.nonce.content)) = _
  rw [hregisters]
  rfl

theorem entriesOf_isSome_iff (hperm : entries.Perm doc.entries) :
    (entriesOf entries).isSome ↔ doc.Readable := by
  rw [entriesOf_isSome, readable_iff]
  constructor
  · intro h f hf item hitem
    have hmem : (f.1, some item) ∈ doc.fields := by
      rw [← Option.mem_def.mp hitem]
      exact hf
    have hentry := h (.text f.1, item) (hperm.mem_iff.mpr (mem_entries.mpr ⟨f.1, item, hmem, rfl⟩))
    rwa [entryOf_text, Option.isSome_map] at hentry
  · intro h e he
    obtain ⟨name, item, hmem, rfl⟩ := mem_entries.mp (hperm.mem_iff.mp he)
    rw [entryOf_text, Option.isSome_map]
    exact h (name, some item) hmem item rfl

theorem valueOf_entries (hperm : entries.Perm doc.entries) :
    valueOf (.map entries) = (entriesOf entries).map .map := by
  have hlen : entries.length ≤ 9 := hperm.length_eq ▸ List.length_filterMap_le _ doc.fields
  rw [valueOf, if_pos (by omega)]

end Lookup

end NitroDocument

section Envelope

variable {doc : NitroDocument}

open NitroDocument in
theorem parseAttestationPayload_of_encodes {payload : List UInt8}
    (h : EncodesDocument doc payload) :
    if doc.Readable then parseAttestationPayload payload = .ok doc.parsed
    else ∃ e, parseAttestationPayload payload = .error e := by
  obtain ⟨entries, hperm, hencodes⟩ := h
  have hread := parseCbor_of_encodes hencodes []
  rw [List.append_nil, valueOf_entries hperm] at hread
  have hreadable := entriesOf_isSome_iff hperm
  unfold parseAttestationPayload
  cases hes : entriesOf entries with
  | none =>
    rw [hes] at hread hreadable
    have hnot : ¬doc.Readable := fun hr ↦ by simpa using hreadable.mpr hr
    obtain ⟨e, he⟩ := hread
    rw [if_neg hnot, he]
    exact ⟨e, rfl⟩
  | some es =>
    rw [hes] at hread hreadable
    have hr : doc.Readable := hreadable.mp rfl
    have hparse : parseCbor payload = .ok (.map es, payload.length) := hread
    rw [if_pos hr, hparse]
    exact readDocument_eq hr hperm hes

variable {entries : List (Item × Item)}

theorem ne_nil_of_encodes_map {bs : List UInt8} (h : Encodes (.map entries) bs) : bs ≠ [] := by
  obtain ⟨head, body, hhead, -, rfl⟩ := h
  have hpos := length_pos_of_head hhead
  intro hnil
  rw [List.append_eq_nil_iff] at hnil
  rw [hnil.1] at hpos
  exact Nat.lt_irrefl 0 hpos

theorem parseProtected_of_encodes {header : List (Item × Item)} {bs : List UInt8}
    (h : bs = [] ∧ header = [] ∨ Encodes (.map header) bs) :
    match valueOf (.map header) with
    | some m => parseProtected bs = .ok m
    | none => ∃ e, parseProtected bs = .error e := by
  rcases h with ⟨rfl, rfl⟩ | h
  · rfl
  · have hread := parseCbor_of_encodes h []
    rw [List.append_nil] at hread
    rw [parseProtected, if_neg (ne_nil_of_encodes_map h)]
    cases hv : valueOf (.map header) with
    | none =>
      rw [hv] at hread
      obtain ⟨e, he⟩ := hread
      rw [he]
      exact ⟨e, rfl⟩
    | some m =>
      rw [hv] at hread
      have hparse : parseCbor bs = .ok (m, bs.length) := hread
      rw [hparse]
      rfl

theorem exists_of_valueOf_map {m : CborValue} (h : valueOf (.map entries) = some m) :
    ∃ es, m = .map es := by
  rw [valueOf] at h
  split_ifs at h
  obtain ⟨es, -, rfl⟩ := Option.map_eq_some_iff.mp h
  exact ⟨es, rfl⟩

theorem valueOf_envelope (p payload sig : List UInt8) (header : List (Item × Item)) :
    valueOf (.array [.bytes p, .map header, .bytes payload, .bytes sig]) =
      (valueOf (.map header)).map
        (fun m ↦ .array [.bytes p, m, .bytes payload, .bytes sig]) := by
  have hlen : [Item.bytes p, .map header, .bytes payload, .bytes sig].length ≤ 65536 := by
    simp
  rw [valueOf, if_pos hlen]
  simp only [valuesOf]
  cases valueOf (.map header) with
  | none => rfl
  | some m => rfl

theorem parseNitroCose_of_error {input : List UInt8} {e : AttestationError}
    (h : parseCbor input = .error e) : parseNitroCose input = .error e := by
  rw [parseNitroCose, parseCoseSign1, h]
  rfl

theorem parseNitroCose_of_value {input p payload sig : List UInt8} {m : CborValue} {n : ℕ}
    (hinput : parseCbor input = .ok (.array [.bytes p, m, .bytes payload, .bytes sig], n))
    {es : List (CborValue × CborValue)} (hm : m = .map es) :
    parseNitroCose input = (do
      let protectedMap ← parseProtected p
      let doc ← parseAttestationPayload payload
      return (⟨p, protectedMap, .map es, payload, sig⟩, doc)) := by
  subst hm
  unfold parseNitroCose parseCoseSign1
  rw [hinput]
  show (do
    let cose ← readCose (.bytes p) (.map es) (.bytes payload) (.bytes sig)
    let doc ← parseAttestationPayload cose.payloadBstr
    return (cose, doc)) = _
  unfold readCose
  show (do
    let cose ← (do
      let protectedMap ← parseProtected p
      return CoseSign1.mk p protectedMap (.map es) payload sig)
    let doc ← parseAttestationPayload cose.payloadBstr
    return (cose, doc)) = _
  cases parseProtected p with
  | error e => rfl
  | ok protectedMap => rfl

/-- A document of the grammar, in an envelope of any form and with any headers,
is read exactly when the envelope is untagged, no field is `nil`, the bundle is
within the limit and the decoder has values for both headers. What is read is
then the document. -/
theorem nitro_document_read {tagged : Bool} {protectedHeader unprotectedHeader : List (Item × Item)}
    {input : List UInt8} (h : Enveloped doc tagged protectedHeader unprotectedHeader input) :
    (∃ protectedMap unprotectedMap, parseNitroCose input =
      .ok (⟨h.protectedBstr, protectedMap, unprotectedMap, h.payload, h.signature⟩, doc.parsed)) ↔
    tagged = false ∧ doc.Readable ∧ (valueOf (.map protectedHeader)).isSome ∧
      (valueOf (.map unprotectedHeader)).isSome := by
  have hinput := parseCbor_of_encodes h.input_encodes []
  rw [List.append_nil] at hinput
  have hprotected := parseProtected_of_encodes h.protected_encodes
  have hpayload := parseAttestationPayload_of_encodes h.payload_encodes
  cases tagged with
  | true =>
    obtain ⟨e, he⟩ : ∃ e, parseCbor input = .error e := hinput
    simp [parseNitroCose_of_error he]
  | false =>
    replace hinput : match valueOf (.array [.bytes h.protectedBstr, .map unprotectedHeader,
        .bytes h.payload, .bytes h.signature]) with
      | some v => parseCbor input = .ok (v, input.length)
      | none => ∃ e, parseCbor input = .error e := hinput
    rw [valueOf_envelope] at hinput
    cases hun : valueOf (.map unprotectedHeader) with
    | none =>
      rw [hun] at hinput
      obtain ⟨e, he⟩ : ∃ e, parseCbor input = .error e := hinput
      simp [parseNitroCose_of_error he]
    | some m =>
      rw [hun] at hinput
      obtain ⟨es, hm⟩ := exists_of_valueOf_map hun
      rw [parseNitroCose_of_value hinput hm]
      cases hpr : valueOf (.map protectedHeader) with
      | none =>
        rw [hpr] at hprotected
        obtain ⟨e, he⟩ : ∃ e, parseProtected h.protectedBstr = .error e := hprotected
        rw [he]
        simp [bind, Except.bind]
      | some pm =>
        rw [hpr] at hprotected
        have hok : parseProtected h.protectedBstr = .ok pm := hprotected
        rw [hok]
        by_cases hr : doc.Readable
        · rw [if_pos hr] at hpayload
          rw [hpayload]
          exact ⟨fun _ ↦ ⟨rfl, hr, rfl, rfl⟩, fun _ ↦ ⟨pm, .map es, rfl⟩⟩
        · rw [if_neg hr] at hpayload
          obtain ⟨e, he⟩ := hpayload
          rw [he]
          simp [bind, Except.bind, hr]

end Envelope

namespace Demo

def document (nonce : OptionalField) : NitroDocument where
  moduleId := "i-1"
  digest := "SHA384"
  timestamp := 1700000000
  pcrs := [(0, [1]), (4, [2])]
  certificate := [0x30]
  cabundle := [[0x31]]
  publicKey := .bytes [7]
  userData := .absent
  nonce := nonce
  pcrs_le := by decide
  pcrs_nodup := by decide
  cabundle_ne := by decide

def text (s : String) : List UInt8 := encodeCbor (.text s)

def body (nonce : List UInt8) : List UInt8 :=
  text "module_id" ++ (text "i-1" ++ (text "digest" ++ (text "SHA384" ++
    (text "timestamp" ++ (encodeCbor (.uint 1700000000) ++
    (text "pcrs" ++ (encodeCbor (.map [(.uint 0, .bytes [1]), (.uint 4, .bytes [2])]) ++
    (text "certificate" ++ (encodeCbor (.bytes [0x30]) ++
    (text "cabundle" ++ (encodeCbor (.array [.bytes [0x31]]) ++
    (text "public_key" ++ (encodeCbor (.bytes [7]) ++
    (text "nonce" ++ (nonce ++ [])))))))))))))))

def payload (nonce : List UInt8) : List UInt8 := encodeHead 5 8 ++ body nonce

def envelope (nonce : List UInt8) : List UInt8 :=
  encodeHead 4 4 ++ (encodeCbor (.bytes []) ++ (encodeCbor (.map []) ++
    (encodeCbor (.bytes (payload nonce)) ++ (encodeCbor (.bytes [9]) ++ []))))

def input (tagged : Bool) (nonce : List UInt8) : List UInt8 :=
  if tagged then encodeHead 6 18 ++ envelope nonce else envelope nonce

theorem encodes_text {s : String} (h : (bytes s).length < 2 ^ 63) :
    Encodes (.text s) (text s) := encodes_encodeCbor (v := .text s) h

theorem encodes_uint {n : ℕ} (h : n < 2 ^ 64) : Encodes (.uint n) (encodeCbor (.uint n)) :=
  encodes_encodeCbor (v := .uint n) h

theorem encodes_bytes {b : List UInt8} (h : b.length < 2 ^ 63) :
    Encodes (.bytes b) (encodeCbor (.bytes b)) := encodes_encodeCbor (v := .bytes b) h

theorem encodes_pcrs : Encodes (.map [(.uint 0, .bytes [1]), (.uint 4, .bytes [2])])
    (encodeCbor (.map [(.uint 0, .bytes [1]), (.uint 4, .bytes [2])])) := by
  refine ⟨_, _, head_encodeHead 5 (by simp), ?_, rfl⟩
  refine ⟨_, _, _, encodes_uint (by norm_num), encodes_bytes (by simp), ?_, rfl⟩
  exact ⟨_, _, _, encodes_uint (by norm_num), encodes_bytes (by simp), rfl, rfl⟩

theorem encodes_cabundle : Encodes (.array [.bytes [0x31]])
    (encodeCbor (.array [.bytes [0x31]])) :=
  ⟨_, _, head_encodeHead 4 (by simp), ⟨_, _, encodes_bytes (by simp), rfl, rfl⟩, rfl⟩

theorem encodesDocument {nonce : OptionalField} {item : Item} {bs : List UInt8}
    (hnonce : nonce.item = some item) (hbs : Encodes item bs) :
    EncodesDocument (document nonce) (payload bs) := by
  have hentries : (document nonce).entries =
      [(.text "module_id", .text "i-1"), (.text "digest", .text "SHA384"),
        (.text "timestamp", .uint 1700000000),
        (.text "pcrs", .map [(.uint 0, .bytes [1]), (.uint 4, .bytes [2])]),
        (.text "certificate", .bytes [0x30]), (.text "cabundle", .array [.bytes [0x31]]),
        (.text "public_key", .bytes [7]), (.text "nonce", item)] := by
    show List.filterMap _ [_, _, _, _, _, _, _, _, ("nonce", nonce.item)] = _
    rw [hnonce]
    rfl
  refine ⟨_, .refl _, ?_⟩
  rw [hentries]
  refine ⟨_, _, head_encodeHead 5 (by simp), ?_, rfl⟩
  refine ⟨_, _, _, encodes_text (by decide +kernel), encodes_text (by decide +kernel), ?_, rfl⟩
  refine ⟨_, _, _, encodes_text (by decide +kernel), encodes_text (by decide +kernel), ?_, rfl⟩
  refine ⟨_, _, _, encodes_text (by decide +kernel), encodes_uint (by norm_num), ?_, rfl⟩
  refine ⟨_, _, _, encodes_text (by decide +kernel), encodes_pcrs, ?_, rfl⟩
  refine ⟨_, _, _, encodes_text (by decide +kernel), encodes_bytes (by simp), ?_, rfl⟩
  refine ⟨_, _, _, encodes_text (by decide +kernel), encodes_cabundle, ?_, rfl⟩
  refine ⟨_, _, _, encodes_text (by decide +kernel), encodes_bytes (by simp), ?_, rfl⟩
  exact ⟨_, _, _, encodes_text (by decide +kernel), hbs, rfl, rfl⟩

def enveloped {nonce : OptionalField} {item : Item} {bs : List UInt8} (tagged : Bool)
    (hnonce : nonce.item = some item) (hbs : Encodes item bs)
    (hlen : (payload bs).length < 2 ^ 63) :
    Enveloped (document nonce) tagged [] [] (input tagged bs) where
  protectedBstr := []
  payload := payload bs
  signature := [9]
  protected_encodes := .inl ⟨rfl, rfl⟩
  payload_encodes := encodesDocument hnonce hbs
  input_encodes := by
    have hempty : Encodes (.map []) (encodeCbor (.map [])) :=
      ⟨_, _, head_encodeHead 5 (by simp), rfl, rfl⟩
    have henvelope : Encodes (.array [.bytes [], .map [], .bytes (payload bs), .bytes [9]])
        (envelope bs) :=
      ⟨_, _, head_encodeHead 4 (by simp), ⟨_, _, encodes_bytes (by simp), ⟨_, _, hempty,
        ⟨_, _, encodes_bytes hlen, ⟨_, _, encodes_bytes (by simp), rfl, rfl⟩, rfl⟩, rfl⟩, rfl⟩, rfl⟩
    cases tagged with
    | false => exact henvelope
    | true => exact ⟨_, _, head_encodeHead 6 (by norm_num), henvelope, rfl⟩

def refusal (input : List UInt8) : Option AttestationError :=
  match parseNitroCose input with
  | .error e => some e
  | .ok _ => none

theorem encodes_nil : Encodes .nil [0xf6] := .inl ⟨by norm_num, rfl⟩

end Demo

theorem nitro_document_read_nonce :
    ∃ protectedMap unprotectedMap,
      parseNitroCose (Demo.input false (encodeCbor (.bytes [5, 6]))) =
        .ok (⟨[], protectedMap, unprotectedMap, Demo.payload (encodeCbor (.bytes [5, 6])), [9]⟩,
          (Demo.document (.bytes [5, 6])).parsed) :=
  (nitro_document_read (Demo.enveloped false rfl (Demo.encodes_bytes (by simp))
    (by decide +kernel))).mpr ⟨rfl, by decide, rfl, rfl⟩

/-- The document with a `nil` nonce, which the documented grammar allows, and the
same document with a nonce under the tag `18`, which is documented to be
accepted: both are refused. -/
theorem nitro_document_refused :
    Nonempty (Enveloped (Demo.document .nil) false [] [] (Demo.input false [0xf6])) ∧
    Demo.refusal (Demo.input false [0xf6]) = some (.malformed
      "cbor: simple/float values (major 7) not supported — AWS Nitro docs do not emit them") ∧
    Nonempty (Enveloped (Demo.document (.bytes [5, 6])) true [] []
      (Demo.input true (encodeCbor (.bytes [5, 6])))) ∧
    Demo.refusal (Demo.input true (encodeCbor (.bytes [5, 6]))) = some (.malformed
      "cbor: tagged values (major 6) not supported — AWS Nitro docs do not use tags") := by
  refine ⟨⟨Demo.enveloped false rfl Demo.encodes_nil (by decide +kernel)⟩, by decide +kernel,
    ⟨Demo.enveloped true rfl (Demo.encodes_bytes (by simp)) (by decide +kernel)⟩,
    by decide +kernel⟩

end SauronId.Attestation
