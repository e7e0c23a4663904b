import SauronId.Lib.Encoding

namespace SauronId.Lib.Text

open Lib.Encoding

def isWhitespace (c : Char) : Bool :=
  let n := c.toNat
  (9 ≤ n ∧ n ≤ 13) ∨ (0x2000 ≤ n ∧ n ≤ 0x200A) ∨
    n ∈ [0x20, 0x85, 0xA0, 0x1680, 0x2028, 0x2029, 0x202F, 0x205F, 0x3000]

def trim (s : String) : String :=
  String.ofList ((s.toList.dropWhile isWhitespace).reverse.dropWhile isWhitespace).reverse

variable {s : String}

theorem trim_eq_self (h : ∀ c ∈ s.toList, isWhitespace c = false) : trim s = s := by
  have hdrop : ∀ l : List Char, (∀ c ∈ l, isWhitespace c = false) →
      l.dropWhile isWhitespace = l := by
    intro l hl
    cases l with
    | nil => rfl
    | cons c l =>
      rw [List.dropWhile_cons, hl c List.mem_cons_self]
      rfl
  rw [trim, hdrop _ h, hdrop _ (fun c hc ↦ h c (List.mem_reverse.mp hc)), List.reverse_reverse,
    String.ofList_toList]

def toAsciiLowercase (s : String) : String := String.ofList (s.toList.map Char.toLower)

def toAsciiUppercase (s : String) : String := String.ofList (s.toList.map Char.toUpper)

def eqIgnoreAsciiCase (s t : String) : Bool := toAsciiLowercase s = toAsciiLowercase t

theorem toNat_toLower (c : Char) :
    c.toLower.toNat = if 65 ≤ c.toNat ∧ c.toNat ≤ 90 then c.toNat + 32 else c.toNat := by
  have hval : (c.val ≥ 'A'.val ∧ c.val ≤ 'Z'.val) ↔ 65 ≤ c.toNat ∧ c.toNat ≤ 90 := Iff.rfl
  unfold Char.toLower
  by_cases h : c.val ≥ 'A'.val ∧ c.val ≤ 'Z'.val
  · rw [dif_pos h, if_pos (hval.mp h)]
    have hle : c.val.toNat ≤ 90 := (hval.mp h).2
    have hoffset : (32 : UInt32).toNat = 32 := rfl
    change (c.val + 32).toNat = c.val.toNat + 32
    rw [UInt32.toNat_add]
    exact Nat.mod_eq_of_lt (by omega)
  · rw [dif_neg h, if_neg (hval.not.mp h)]

theorem toLower_eq_iff {c d : Char} (hd : d.toNat < 65) : c.toLower = d ↔ c = d := by
  rw [← Char.toNat_inj, ← Char.toNat_inj, toNat_toLower]
  split_ifs <;> omega

theorem isDigit_iff {c : Char} : c.isDigit = true ↔ 48 ≤ c.toNat ∧ c.toNat ≤ 57 := by
  simp only [Char.isDigit, Bool.and_eq_true, decide_eq_true_eq, Char.toNat]
  rw [UInt32.le_iff_toNat_le, ge_iff_le, UInt32.le_iff_toNat_le]
  rfl

theorem isDigit_toLower (c : Char) : c.toLower.isDigit = c.isDigit := by
  rw [Bool.eq_iff_iff, isDigit_iff, isDigit_iff, toNat_toLower]
  split_ifs <;> omega

theorem isWhitespace_toLower (c : Char) : isWhitespace c.toLower = isWhitespace c := by
  unfold isWhitespace
  rw [toNat_toLower]
  split_ifs with h
  · obtain ⟨hlow, hhigh⟩ := h
    simp only [List.mem_cons, List.not_mem_nil, or_false, decide_eq_decide]
    omega
  · rfl

theorem trim_of_hexDecode {bs : List UInt8} (h : hexDecode s = some bs) :
    trim s = s := by
  have hdigit : ∀ d < 16, isWhitespace (Nat.digitChar d) = false := by decide
  have hvalue : ∀ {c : Char} {d : ℕ}, hexValue c = some d → isWhitespace c = false := by
    intro c d hc
    have hlow : Nat.digitChar d = c.toLower := by simpa using List.find?_some hc
    rw [← isWhitespace_toLower, ← hlow]
    exact hdigit d (List.mem_range.mp (List.mem_of_find?_eq_some hc))
  refine trim_eq_self ?_
  rw [hexDecode] at h
  generalize s.toList = l at h ⊢
  fun_induction hexDecodeChars l generalizing bs with
  | case1 => exact List.forall_mem_nil _
  | case2 => cases h
  | case3 a b rest ih =>
    simp only [Option.bind_eq_bind, Option.bind_eq_some_iff] at h
    obtain ⟨high, hhigh, low, hlow, bs, hbs, -⟩ := h
    simp only [List.forall_mem_cons]
    exact ⟨hvalue hhigh, hvalue hlow, ih hbs⟩

theorem toAsciiLowercase_idem (s : String) :
    toAsciiLowercase (toAsciiLowercase s) = toAsciiLowercase s := by
  simp [toAsciiLowercase, Function.comp_def]

def len (s : String) : ℕ := (bytes s).length

theorem len_eq_length (h : ∀ c ∈ s.toList, c.utf8Size = 1) :
    len s = s.toList.length := by
  have hsize : ∀ l : List Char, (∀ c ∈ l, c.utf8Size = 1) → String.utf8Len l = l.length := by
    intro l hl
    induction l with
    | nil => rfl
    | cons c l ih =>
      obtain ⟨hc, hl⟩ := List.forall_mem_cons.mp hl
      rw [String.utf8Len_cons, ih hl, hc, List.length_cons]
  have hlen : len s = s.utf8ByteSize := by
    show s.toByteArray.data.toList.length = _
    rw [Array.length_toList]
    exact String.size_toByteArray
  rw [hlen, ← hsize _ h, ← String.utf8ByteSize_ofList, String.ofList_toList]

def escapeChar (c : Char) : String :=
  if c.toNat = 0x22 then "\\\""
  else if c.toNat = 0x5C then "\\\\"
  else if c.toNat = 0x08 then "\\b"
  else if c.toNat = 0x0C then "\\f"
  else if c.toNat = 0x0A then "\\n"
  else if c.toNat = 0x0D then "\\r"
  else if c.toNat = 0x09 then "\\t"
  else if c.toNat < 0x20 then "\\u00" ++ hexEncode [UInt8.ofNat c.toNat]
  else String.ofList [c]

/-- A JSON string literal as `serde_json` writes it. -/
def jsonStr (s : String) : String := "\"" ++ String.join (s.toList.map escapeChar) ++ "\""

def roundHalfEven (q : ℚ) : ℤ :=
  let f := ⌊q⌋
  if q - f < 1 / 2 then f
  else if 1 / 2 < q - f then f + 1
  else if f % 2 = 0 then f else f + 1

def zeroPad (width n : ℕ) : String :=
  let digits := toString n
  String.ofList (List.replicate (width - digits.length) '0') ++ digits

def formatFixed (places : ℕ) (q : ℚ) : String :=
  let n := (roundHalfEven (|q| * 10 ^ places)).toNat
  (if q < 0 then "-" else "") ++ toString (n / 10 ^ places) ++ "." ++
    zeroPad places (n % 10 ^ places)

def digitsValue (digits : List Char) : Option ℕ :=
  if digits ≠ [] ∧ digits.all Char.isDigit then
    some (digits.foldl (fun n c ↦ 10 * n + (c.toNat - '0'.toNat)) 0)
  else none

/-- `str::parse` for an unsigned type with the given largest value. -/
def parseUnsigned (largest : ℕ) (s : String) : Option ℕ :=
  let digits := match s.toList with
    | '+' :: rest => rest
    | all => all
  (digitsValue digits).filter (fun n ↦ n ≤ largest)

def parseI64 (s : String) : Option ℤ :=
  match s.toList with
  | '-' :: rest => ((digitsValue rest).filter (fun n ↦ n ≤ 2 ^ 63)).map (fun n ↦ -(n : ℤ))
  | '+' :: rest => ((digitsValue rest).filter (fun n ↦ n < 2 ^ 63)).map Int.ofNat
  | all => ((digitsValue all).filter (fun n ↦ n < 2 ^ 63)).map Int.ofNat

end SauronId.Lib.Text
