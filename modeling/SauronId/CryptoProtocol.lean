import SauronId.Lib.Encoding
import SauronId.Lib.Fallible

namespace SauronId.CryptoProtocol

open Lib Lib.Encoding

/-- How a call of the core ends when it does not return a value: a panic of the
thread, or an error string handed to the caller. -/
inductive Failure
  | panicked (message : String)
  | failed (message : String)
  deriving DecidableEq

/-- The primitives of the `sha2`, `hkdf` and `hmac` crates. Hashing is only
assumed to be a function. -/
structure Primitives where
  sha256 : List UInt8 → List UInt8
  hkdfSha256 : (salt ikm info : List UInt8) → List UInt8
  hmacSha256 : (key message : List UInt8) → List UInt8

def countingPrimitives : Primitives :=
  ⟨fun b ↦ [UInt8.ofNat b.length], fun _ ikm _ ↦ ikm, fun _ message ↦ message⟩

def measuringPrimitives : Primitives :=
  ⟨fun b ↦ u32be b.length ++ List.replicate 28 0, fun _ ikm _ ↦ ikm,
    fun _ message ↦ u32be message.length⟩

def deriveSubkey (P : Primitives) (masterSecret : List UInt8) (domain : String) : List UInt8 :=
  P.hkdfSha256 (bytes "sauronid-hkdf-sha256-v1") masterSecret (bytes domain)

def pushLenPrefixed (out value : List UInt8) : Except Failure (List UInt8) :=
  match frame value with
  | some f => .ok (out ++ f)
  | none => .error (.panicked "security protocol field exceeds u32::MAX: TryFromIntError(())")

def pushField (out : List UInt8) (field : String × String) : Except Failure (List UInt8) := do
  let out ← pushLenPrefixed out (bytes field.1)
  pushLenPrefixed out (bytes field.2)

/-- `u32be(len) || bytes` for the domain, then for each field name and value. -/
def canonicalFields (domain : String) (fields : List (String × String)) :
    Except Failure (List UInt8) := do
  let out ← pushLenPrefixed [] (bytes domain)
  fields.foldlM pushField out

def fieldFrames (fields : List (String × String)) : List (List UInt8) :=
  fields.flatMap (fun f ↦ [bytes f.1, bytes f.2])

theorem pushLenPrefixed_eq_ok {out value w : List UInt8} :
    pushLenPrefixed out value = .ok w ↔ ∃ f, frames [value] = some f ∧ w = out ++ f := by
  unfold pushLenPrefixed
  cases h : frame value <;> simp [frames, h, eq_comm]

theorem pushField_eq_ok {out w : List UInt8} {field : String × String} :
    pushField out field = .ok w ↔
      ∃ f, frames [bytes field.1, bytes field.2] = some f ∧ w = out ++ f := by
  rw [← List.singleton_append]
  simp only [pushField, bind_eq_ok, pushLenPrefixed_eq_ok, frames_append_eq_some]
  constructor
  · rintro ⟨_, ⟨f, hf, rfl⟩, g, hg, rfl⟩
    exact ⟨f ++ g, ⟨f, g, hf, hg, rfl⟩, List.append_assoc _ _ _⟩
  · rintro ⟨_, ⟨f, g, hf, hg, rfl⟩, rfl⟩
    exact ⟨out ++ f, ⟨f, hf, rfl⟩, g, hg, (List.append_assoc _ _ _).symm⟩

variable {fields : List (String × String)}

theorem foldlM_pushField_eq_ok {out w : List UInt8} :
    fields.foldlM pushField out = .ok w ↔
      ∃ f, frames (fieldFrames fields) = some f ∧ w = out ++ f := by
  induction fields generalizing out with
  | nil => simp [fieldFrames, frames, pure, Except.pure, eq_comm]
  | cons field fields ih =>
    simp only [List.foldlM_cons, bind_eq_ok, pushField_eq_ok, ih, fieldFrames, List.flatMap_cons,
      frames_append_eq_some]
    constructor
    · rintro ⟨_, ⟨f, hf, rfl⟩, g, hg, rfl⟩
      exact ⟨f ++ g, ⟨f, g, hf, hg, rfl⟩, List.append_assoc _ _ _⟩
    · rintro ⟨_, ⟨f, g, hf, hg, rfl⟩, rfl⟩
      exact ⟨out ++ f, ⟨f, hf, rfl⟩, g, hg, (List.append_assoc _ _ _).symm⟩

variable {domain : String} {w : List UInt8}

theorem canonicalFields_eq_ok :
    canonicalFields domain fields = .ok w ↔
      frames (bytes domain :: fieldFrames fields) = some w := by
  rw [← List.singleton_append]
  simp only [canonicalFields, bind_eq_ok, pushLenPrefixed_eq_ok, foldlM_pushField_eq_ok,
    frames_append_eq_some]
  constructor
  · rintro ⟨_, ⟨_, hf, rfl⟩, g, hg, rfl⟩
    exact ⟨_, g, hf, hg, rfl⟩
  · rintro ⟨f, g, hf, hg, rfl⟩
    exact ⟨f, ⟨f, hf, rfl⟩, g, hg, rfl⟩

theorem canonicalFields_isOk :
    (∃ w, canonicalFields domain fields = .ok w) ↔ (bytes domain).length < 2 ^ 32 ∧
      ∀ f ∈ fields, (bytes f.1).length < 2 ^ 32 ∧ (bytes f.2).length < 2 ^ 32 := by
  simp only [canonicalFields_eq_ok]
  rw [← Option.isSome_iff_exists, frames_isSome, List.forall_mem_cons]
  simp only [fieldFrames, List.mem_flatMap, List.mem_cons, List.not_mem_nil, or_false]
  refine and_congr_right (fun _ ↦ ⟨fun h f hf ↦ ⟨h _ ⟨f, hf, .inl rfl⟩, h _ ⟨f, hf, .inr rfl⟩⟩, ?_⟩)
  rintro h x ⟨f, hf, rfl | rfl⟩
  · exact (h f hf).1
  · exact (h f hf).2

theorem le_sum_fieldFrames (fields : List (String × String)) :
    (fields.map (fun f ↦ 8 + (bytes f.1).length)).sum ≤
      ((fieldFrames fields).map (fun x ↦ 4 + x.length)).sum := by
  induction fields with
  | nil => exact le_rfl
  | cons f fields ih =>
    simp only [fieldFrames, List.flatMap_cons, List.map_append, List.map_cons, List.map_nil,
      List.sum_append, List.sum_cons, List.sum_nil] at ih ⊢
    omega

theorem le_length_canonicalFields (h : canonicalFields domain fields = .ok w) :
    4 + (bytes domain).length + (fields.map (fun f ↦ 8 + (bytes f.1).length)).sum ≤ w.length := by
  rw [length_frames (canonicalFields_eq_ok.mp h), List.map_cons, List.sum_cons]
  exact Nat.add_le_add_left (le_sum_fieldFrames fields) _

theorem fieldFrames_injective : Function.Injective fieldFrames := by
  intro xs ys h
  induction xs generalizing ys with
  | nil => cases ys with
    | nil => rfl
    | cons y ys => simp [fieldFrames] at h
  | cons x xs ih => cases ys with
    | nil => simp [fieldFrames] at h
    | cons y ys =>
      simp only [fieldFrames, List.flatMap_cons, List.cons_append, List.nil_append,
        List.cons.injEq] at h
      obtain ⟨hn, hv, ht⟩ := h
      rw [Prod.ext (bytes_injective hn) (bytes_injective hv), ih ht]

theorem canonicalFields_inj {domain domain' : String} {fields fields' : List (String × String)}
    (h : canonicalFields domain fields = .ok w)
    (h' : canonicalFields domain' fields' = .ok w) : domain = domain' ∧ fields = fields' := by
  have he := frames_inj (canonicalFields_eq_ok.mp h) (canonicalFields_eq_ok.mp h')
  obtain ⟨hd, hf⟩ := List.cons.inj he
  exact ⟨bytes_injective hd, fieldFrames_injective hf⟩

end SauronId.CryptoProtocol
