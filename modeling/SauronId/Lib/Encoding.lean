import Mathlib

namespace SauronId.Lib.Encoding

def bytes (s : String) : List UInt8 := s.toUTF8.data.toList

theorem bytes_injective : Function.Injective bytes := by
  intro s t h
  have ha : s.toUTF8 = t.toUTF8 := ByteArray.ext (Array.toList_inj.mp h)
  exact String.toByteArray_inj.mp ha

theorem toString_int_injective : Function.Injective (toString : ℤ → String) :=
  fun _ _ h ↦ Int.repr_injective h

def hexPair (b : UInt8) : List Char := [Nat.digitChar (b.toNat / 16), Nat.digitChar (b.toNat % 16)]

def hexEncode (bs : List UInt8) : String := String.ofList (bs.flatMap hexPair)

def hexValue (c : Char) : Option ℕ :=
  (List.range 16).find? (fun d ↦ Nat.digitChar d = c.toLower)

def hexDecodeChars : List Char → Option (List UInt8)
  | [] => some []
  | [_] => none
  | a :: b :: rest => do
    let high ← hexValue a
    let low ← hexValue b
    let bs ← hexDecodeChars rest
    return UInt8.ofNat (16 * high + low) :: bs

def hexDecode (s : String) : Option (List UInt8) := hexDecodeChars s.toList

theorem hexValue_digitChar {d : ℕ} (hd : d < 16) : hexValue (Nat.digitChar d) = some d := by
  have hall : ∀ d < 16, hexValue (Nat.digitChar d) = some d := by decide
  exact hall d hd

theorem hexDecodeChars_flatMap (bs : List UInt8) :
    hexDecodeChars (bs.flatMap hexPair) = some bs := by
  induction bs with
  | nil => rfl
  | cons b bs ih =>
    have hb := b.toNat_lt
    have he : 16 * (b.toNat / 16) + b.toNat % 16 = b.toNat := by omega
    simp only [List.flatMap_cons, hexPair, List.cons_append, List.nil_append, hexDecodeChars,
      hexValue_digitChar (show b.toNat / 16 < 16 by omega),
      hexValue_digitChar (show b.toNat % 16 < 16 by omega), ih, Option.bind_eq_bind,
      Option.bind_some, Option.pure_def, he, UInt8.ofNat_toNat]

@[simp] theorem hexDecode_hexEncode (bs : List UInt8) : hexDecode (hexEncode bs) = some bs := by
  rw [hexDecode, hexEncode, String.toList_ofList, hexDecodeChars_flatMap]

theorem hexEncode_injective : Function.Injective hexEncode := by
  intro xs ys h
  have hx := hexDecode_hexEncode xs
  rw [h, hexDecode_hexEncode] at hx
  exact (Option.some.inj hx).symm

def u32be (n : ℕ) : List UInt8 :=
  [UInt8.ofNat (n / 2 ^ 24), UInt8.ofNat (n / 2 ^ 16), UInt8.ofNat (n / 2 ^ 8), UInt8.ofNat n]

theorem u32be_inj {m n : ℕ} (hm : m < 2 ^ 32) (hn : n < 2 ^ 32) (h : u32be m = u32be n) :
    m = n := by
  simp only [u32be, List.cons.injEq, and_true, ← UInt8.toNat_inj, UInt8.toNat_ofNat'] at h
  omega

def frame (b : List UInt8) : Option (List UInt8) :=
  if b.length < 2 ^ 32 then some (u32be b.length ++ b) else none

def frames : List (List UInt8) → Option (List UInt8)
  | [] => some []
  | b :: bs => do
    let f ← frame b
    let fs ← frames bs
    return f ++ fs

theorem frame_eq_some {b f : List UInt8} :
    frame b = some f ↔ b.length < 2 ^ 32 ∧ f = u32be b.length ++ b := by
  unfold frame
  split_ifs with h
  · simp only [h, true_and, Option.some.injEq, eq_comm]
  · simp only [h, false_and]

theorem frames_cons_eq_some {b w : List UInt8} {bs : List (List UInt8)} :
    frames (b :: bs) = some w ↔
      b.length < 2 ^ 32 ∧ ∃ fs, frames bs = some fs ∧ w = u32be b.length ++ (b ++ fs) := by
  simp only [frames, Option.bind_eq_bind, Option.bind_eq_some_iff, frame_eq_some, Option.pure_def,
    Option.some.injEq]
  constructor
  · rintro ⟨f, ⟨hb, rfl⟩, fs, hfs, rfl⟩
    exact ⟨hb, fs, hfs, by simp⟩
  · rintro ⟨hb, fs, hfs, rfl⟩
    exact ⟨_, ⟨hb, rfl⟩, fs, hfs, by simp⟩

variable {w : List UInt8} {xs ys : List (List UInt8)}

/-- Length-prefixed framing can be read back in one way only, whatever the
number of frames. -/
theorem frames_inj (hx : frames xs = some w) (hy : frames ys = some w) : xs = ys := by
  induction xs generalizing ys w with
  | nil =>
    obtain rfl : [] = w := Option.some.inj hx
    cases ys with
    | nil => rfl
    | cons y ys =>
      obtain ⟨-, fs, -, he⟩ := frames_cons_eq_some.mp hy
      simp [u32be] at he
  | cons x xs ih =>
    obtain ⟨hxl, fs, hfs, rfl⟩ := frames_cons_eq_some.mp hx
    cases ys with
    | nil => simp [frames, u32be] at hy
    | cons y ys =>
      obtain ⟨hyl, gs, hgs, he⟩ := frames_cons_eq_some.mp hy
      obtain ⟨hlen, htail⟩ := List.append_inj he (by simp [u32be])
      obtain ⟨rfl, hrest⟩ := List.append_inj htail (u32be_inj hxl hyl hlen)
      rw [ih hfs (hrest ▸ hgs)]

theorem frames_append_eq_some :
    frames (xs ++ ys) = some w ↔
      ∃ f g, frames xs = some f ∧ frames ys = some g ∧ w = f ++ g := by
  induction xs generalizing w with
  | nil => simp [frames]
  | cons x xs ih =>
    simp only [List.cons_append, frames_cons_eq_some, ih]
    constructor
    · rintro ⟨hx, _, ⟨f, g, hf, hg, rfl⟩, rfl⟩
      exact ⟨_, g, ⟨hx, f, hf, rfl⟩, hg, by simp⟩
    · rintro ⟨_, g, ⟨hx, f, hf, rfl⟩, hg, rfl⟩
      exact ⟨hx, _, ⟨f, g, hf, hg, rfl⟩, by simp⟩

theorem length_frames {xs : List (List UInt8)} (h : frames xs = some w) :
    w.length = (xs.map (fun x ↦ 4 + x.length)).sum := by
  induction xs generalizing w with
  | nil =>
    obtain rfl := Option.some.inj h
    rfl
  | cons x xs ih =>
    obtain ⟨-, fs, hfs, rfl⟩ := frames_cons_eq_some.mp h
    rw [List.length_append, List.length_append, ih hfs, List.map_cons, List.sum_cons]
    simp only [u32be, List.length_cons, List.length_nil]
    omega

theorem frames_isSome {xs : List (List UInt8)} :
    (frames xs).isSome ↔ ∀ x ∈ xs, x.length < 2 ^ 32 := by
  induction xs with
  | nil => simp [frames]
  | cons x xs ih =>
    rw [Option.isSome_iff_exists, List.forall_mem_cons, ← ih, Option.isSome_iff_exists]
    simp only [frames_cons_eq_some]
    constructor
    · rintro ⟨_, hx, fs, hfs, -⟩
      exact ⟨hx, fs, hfs⟩
    · rintro ⟨hx, fs, hfs⟩
      exact ⟨_, hx, fs, hfs, rfl⟩

end SauronId.Lib.Encoding
