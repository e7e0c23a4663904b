import SauronId.Attestation.RoundTrip

namespace SauronId.Attestation

open Lib Lib.Handler BigEndian

/-! ### The decoder with its index and its calls

The decoder of the source moves an index over its input and calls itself for every entry of an
array or a map. Here the index is kept as it is there, also where a call fails, together with
every value it takes and the depth of the deepest call. -/

structure Walk where
  cur : ℕ
  visited : List ℕ
  deepest : ℕ

def Walk.start : Walk := ⟨0, [], 0⟩

abbrev Scanner (α : Type) := Handler AttestationError Walk α

namespace Scanner

variable {α : Type}

def refuse (m : String) : Scanner α := result (malformed m)

def advance (n : ℕ) : Scanner Unit :=
  service (fun w ↦ (.ok (), { w with cur := w.cur + n, visited := w.visited ++ [w.cur + n] }))

def enter (depth : ℕ) : Scanner Unit :=
  service (fun w ↦ (.ok (), { w with deepest := max w.deepest depth }))

variable (input : List UInt8)

def slice (lacks : ℕ → Bool) (n : ℕ) (m : ℕ → String) : Scanner (List UInt8) := do
  let bs ← query (fun w ↦
    if lacks w.cur then malformed (m (input.length - w.cur)) else .ok ((input.drop w.cur).take n))
  advance n
  return bs

def readInitialByte : Scanner (UInt8 × UInt8) := do
  let b ← query (fun w ↦ (input[w.cur]?).elim
    (malformed "cbor: truncated reading initial byte") .ok)
  advance 1
  return (b >>> 5, b &&& 0x1f)

def readArgument (width : ℕ) : Scanner ℕ := do
  let bs ← slice input (fun cur ↦ cur + width > input.length) width
    (fun _ ↦ "cbor: truncated reading " ++ toString width ++ "-byte length")
  return fromBytesBe bs

def readLength (info major : UInt8) : Scanner ℕ :=
  if info ≤ 23 then return info.toNat
  else if info = 24 then readArgument input 1
  else if info = 25 then readArgument input 2
  else if info = 26 then readArgument input 4
  else if info = 27 then readArgument input 8
  else if info ≤ 30 then
    refuse ("cbor: reserved additional info " ++ toString info ++ " for major " ++
      toString major)
  else
    refuse ("cbor: indefinite-length items (major " ++ toString major ++
      ") not supported — AWS Nitro docs use definite lengths")

def takeBytes (n : ℕ) : Scanner (List UInt8) :=
  slice input (fun cur ↦ n > input.length - cur) n (fun remaining ↦ "cbor: truncated reading " ++ toString n ++
    "-byte string (remaining " ++ toString remaining ++ ")")

def fromUtf8 (bs : List UInt8) : Scanner String :=
  match String.fromUTF8? ⟨bs.toArray⟩ with
  | some s => return s
  | none => refuse ("cbor: text string is not UTF-8: " ++ utf8Error bs)

def parseItems (one : Scanner CborValue) : ℕ → Scanner (List CborValue)
  | 0 => return []
  | n + 1 => do
    let v ← one
    let vs ← parseItems one n
    return v :: vs

def parseEntries (one : Scanner CborValue) : ℕ → Scanner (List (CborValue × CborValue))
  | 0 => return []
  | n + 1 => do
    let k ← one
    let v ← one
    let es ← parseEntries one n
    return (k, v) :: es

def parseNegInt (len : ℕ) : Scanner CborValue :=
  if len > 2 ^ 63 - 1 then
    refuse ("cbor: negative int magnitude " ++ toString len ++ " exceeds i64::MAX")
  else
    return .negInt (-1 - len)

def parseBytes (len : ℕ) : Scanner CborValue := do
  let bs ← takeBytes input len
  return .bytes bs

def parseText (len : ℕ) : Scanner CborValue := do
  let bs ← takeBytes input len
  let s ← fromUtf8 bs
  return .text s

def parseArray (one : Scanner CborValue) (len : ℕ) : Scanner CborValue :=
  if len > 65536 then
    refuse ("cbor: array length " ++ toString len ++ " exceeds sane upper bound 65536")
  else do
    let items ← parseItems one len
    return .array items

def parseMap (one : Scanner CborValue) (len : ℕ) : Scanner CborValue :=
  if len > 65536 then
    refuse ("cbor: map length " ++ toString len ++ " exceeds sane upper bound 65536")
  else do
    let entries ← parseEntries one len
    return .map entries

def parseBody (one : Scanner CborValue) (major : UInt8) (len : ℕ) : Scanner CborValue :=
  if major = 0 then return .uint len
  else if major = 1 then parseNegInt len
  else if major = 2 then parseBytes input len
  else if major = 3 then parseText input len
  else if major = 4 then parseArray one len
  else if major = 5 then parseMap one len
  else if major = 6 then
    refuse "cbor: tagged values (major 6) not supported — AWS Nitro docs do not use tags"
  else
    refuse "cbor: simple/float values (major 7) not supported — AWS Nitro docs do not emit them"

def parseOne : ℕ → (depth : ℕ) → Scanner CborValue
  | 0, _ => refuse "cbor: truncated reading initial byte"
  | fuel + 1, depth => do
    enter depth
    let (major, info) ← readInitialByte input
    let len ← readLength input info major
    parseBody input (parseOne fuel (depth + 1)) major len

end Scanner

def scan (input : List UInt8) : Except AttestationError CborValue × Walk :=
  exec (Scanner.parseOne input (input.length + 1) 1) .start

def callDepth (input : List UInt8) : ℕ := (scan input).2.deepest

def cursorPositions (input : List UInt8) : List ℕ := (scan input).2.visited

/-! ### Both decoders in step -/

/-- The index is within the input, at or behind `m`, and no call was deeper than `D`. -/
structure Inside (input : List UInt8) (m D : ℕ) (w : Walk) : Prop where
  behind : m ≤ w.cur
  within : w.cur ≤ input.length
  visited : ∀ p ∈ w.visited, p ≤ input.length
  deepest : w.deepest ≤ D

/-- From an index behind `m` the scanner stays inside, comes behind `m'` if it succeeds, and gives
what the other decoder gives from the bytes ahead. -/
def Follows {α : Type} (input : List UInt8) (D m m' : ℕ) (x : Scanner α) (p : Cursor α) : Prop :=
  ∀ w, Inside input m D w → ∃ r w', exec x w = (r, w') ∧ Inside input m D w' ∧
    (r.isOk → m' ≤ w'.cur) ∧
    p (input.drop w.cur) = r.map (fun a ↦ (a, input.drop w'.cur))

section Follows

variable {α β : Type} {input : List UInt8} {D m m' m'' : ℕ} {x : Scanner α} {p : Cursor α}
  {f : α → Scanner β} {g : α → Cursor β}

theorem Follows.bind (hm : m ≤ m') (hx : Follows input D m m' x p)
    (hf : ∀ a, Follows input D m' m'' (f a) (g a)) :
    Follows input D m m'' (x >>= f) (p >>= g) := by
  intro w hw
  obtain ⟨r, u, hexec, hu, hbehind, hp⟩ := hx w hw
  rw [exec_bind, hexec]
  cases r with
  | error e =>
    refine ⟨.error e, u, rfl, hu, (fun h ↦ by cases h), ?_⟩
    show p (input.drop w.cur) >>= _ = _
    rw [hp]
    rfl
  | ok a =>
    obtain ⟨r, t, hexec', ht, hbehind', hg⟩ := hf a u { hu with behind := hbehind rfl }
    refine ⟨r, t, hexec', { ht with behind := hm.trans ht.behind }, hbehind', ?_⟩
    rw [bind_of_ok hp]
    exact hg

theorem Follows.mono (hm : m'' ≤ m') (h : Follows input D m m' x p) :
    Follows input D m m'' x p := by
  intro w hw
  obtain ⟨r, w', hexec, hw', hbehind, hp⟩ := h w hw
  exact ⟨r, w', hexec, hw', fun hr ↦ hm.trans (hbehind hr), hp⟩

theorem follows_pure (a : α) : Follows input D m m (pure a) (pure a) :=
  fun w hw ↦ ⟨.ok a, w, rfl, hw, fun _ ↦ hw.behind, rfl⟩

theorem follows_refuse (msg : String) :
    Follows input D m m' (Scanner.refuse msg : Scanner α) (fail msg) :=
  fun w hw ↦ ⟨_, w, rfl, hw, (fun h ↦ by cases h), rfl⟩

theorem Inside.advance {w : Walk} {n : ℕ} (hw : Inside input m D w)
    (h : w.cur + n ≤ input.length) :
    Inside input m D { w with cur := w.cur + n, visited := w.visited ++ [w.cur + n] } where
  behind := hw.behind.trans (Nat.le_add_right _ _)
  within := h
  visited q hq := by
    rcases List.mem_append.mp hq with hq | hq
    · exact hw.visited q hq
    · rw [List.mem_singleton.mp hq]
      exact h
  deepest := hw.deepest

def front (n : ℕ) (msg : ℕ → String) : Cursor (List UInt8) := fun rest ↦
  if n > rest.length then malformed (msg rest.length) else .ok (rest.take n, rest.drop n)

theorem follows_slice {lacks : ℕ → Bool} {n : ℕ} (msg : ℕ → String)
    (hlacks : ∀ cur ≤ input.length, lacks cur = true ↔ n > input.length - cur) :
    Follows input D m m (Scanner.slice input lacks n msg) (front n msg) := by
  intro w hw
  have hwithin := hw.within
  have hlen : (input.drop w.cur).length = input.length - w.cur := List.length_drop
  by_cases h : lacks w.cur = true
  · have hslice : exec (Scanner.slice input lacks n msg) w =
        (malformed (msg (input.length - w.cur)), w) := by
      simp only [Scanner.slice, exec_bind, exec_query, if_pos h]
      rfl
    have hshort := (hlacks _ hwithin).mp h
    refine ⟨_, _, hslice, hw, (fun h ↦ by cases h), ?_⟩
    rw [front, if_pos (by omega), hlen]
    rfl
  · have hslice : exec (Scanner.slice input lacks n msg) w = (.ok ((input.drop w.cur).take n),
        { w with cur := w.cur + n, visited := w.visited ++ [w.cur + n] }) := by
      simp only [Scanner.slice, exec_bind, exec_query, if_neg h]
      rfl
    have henough := (hlacks _ hwithin).not.mp h
    refine ⟨_, _, hslice, hw.advance (by omega),
      (fun _ ↦ hw.behind.trans (Nat.le_add_right _ _)), ?_⟩
    rw [front, if_neg (by omega), List.drop_drop]
    rfl

theorem readArgument_eq (width : ℕ) : readArgument width = (do
    let bs ← front width (fun _ ↦ "cbor: truncated reading " ++ toString width ++ "-byte length")
    return fromBytesBe bs) := by
  funext rest
  show readArgument width rest = front width _ rest >>= _
  unfold readArgument front
  split_ifs
  · rfl
  · rfl

theorem follows_readArgument (width : ℕ) :
    Follows input D m m (Scanner.readArgument input width) (readArgument width) := by
  rw [readArgument_eq]
  refine (follows_slice _ (fun cur hcur ↦ ?_)).bind le_rfl (fun bs ↦ follows_pure _)
  rw [decide_eq_true_iff]
  omega

theorem follows_readLength (info major : UInt8) :
    Follows input D m m (Scanner.readLength input info major) (readLength info major) := by
  unfold Scanner.readLength readLength
  split_ifs
  · exact follows_pure _
  · exact follows_readArgument 1
  · exact follows_readArgument 2
  · exact follows_readArgument 4
  · exact follows_readArgument 8
  · exact follows_refuse _
  · exact follows_refuse _

theorem follows_takeBytes (n : ℕ) :
    Follows input D m m (Scanner.takeBytes input n) (takeBytes n) :=
  follows_slice _ (fun _ _ ↦ decide_eq_true_iff)

theorem follows_fromUtf8 (bs : List UInt8) :
    Follows input D m m (Scanner.fromUtf8 bs) (fromUtf8 bs) := by
  unfold Scanner.fromUtf8 fromUtf8
  cases String.fromUTF8? ⟨bs.toArray⟩ with
  | some s => exact follows_pure s
  | none => exact follows_refuse _

theorem follows_readInitialByte :
    Follows input D m (m + 1) (Scanner.readInitialByte input) readInitialByte := by
  intro w hw
  cases hb : input[w.cur]? with
  | none =>
    have hend : input.length ≤ w.cur := List.getElem?_eq_none_iff.mp hb
    refine ⟨malformed "cbor: truncated reading initial byte", w, ?_, hw, (fun h ↦ by cases h), ?_⟩
    · simp only [Scanner.readInitialByte, exec_bind, exec_query, hb]
      rfl
    · rw [List.drop_eq_nil_of_le hend]
      rfl
  | some b =>
    obtain ⟨hlt, hget⟩ := List.getElem?_eq_some_iff.mp hb
    refine ⟨.ok (b >>> 5, b &&& 0x1f), _, ?_, hw.advance (n := 1) hlt,
      (fun _ ↦ Nat.succ_le_succ hw.behind), ?_⟩
    · simp only [Scanner.readInitialByte, exec_bind, exec_query, hb]
      rfl
    · rw [List.drop_eq_getElem_cons hlt, hget]
      rfl

variable {one : Scanner CborValue} {two : Cursor CborValue}

theorem follows_parseItems (h : Follows input D m m one two) (n : ℕ) :
    Follows input D m m (Scanner.parseItems one n) (parseItems two n) := by
  induction n with
  | zero => exact follows_pure _
  | succ n ih => exact h.bind le_rfl (fun v ↦ ih.bind le_rfl (fun vs ↦ follows_pure _))

theorem follows_parseEntries (h : Follows input D m m one two) (n : ℕ) :
    Follows input D m m (Scanner.parseEntries one n) (parseEntries two n) := by
  induction n with
  | zero => exact follows_pure _
  | succ n ih =>
    exact h.bind le_rfl (fun k ↦ h.bind le_rfl (fun v ↦
      ih.bind le_rfl (fun es ↦ follows_pure _)))

theorem follows_parseBody (h : Follows input D m m one two) (major : UInt8) (len : ℕ) :
    Follows input D m m (Scanner.parseBody input one major len) (parseBody two major len) := by
  unfold Scanner.parseBody parseBody
  split_ifs
  · exact follows_pure _
  · unfold Scanner.parseNegInt parseNegInt
    split_ifs
    · exact follows_refuse _
    · exact follows_pure _
  · exact (follows_takeBytes len).bind le_rfl (fun bs ↦ follows_pure _)
  · exact (follows_takeBytes len).bind le_rfl (fun bs ↦
      (follows_fromUtf8 bs).bind le_rfl (fun s ↦ follows_pure _))
  · unfold Scanner.parseArray parseArray
    split_ifs
    · exact follows_refuse _
    · exact (follows_parseItems h len).bind le_rfl (fun items ↦ follows_pure _)
  · unfold Scanner.parseMap parseMap
    split_ifs
    · exact follows_refuse _
    · exact (follows_parseEntries h len).bind le_rfl (fun entries ↦ follows_pure _)
  · exact follows_refuse _
  · exact follows_refuse _

theorem Follows.enter {depth : ℕ} (hD : depth + input.length ≤ D + m)
    (h : Follows input D m m' x p) :
    Follows input D m m' (Scanner.enter depth >>= fun _ ↦ x) p := by
  intro w hw
  have hmax : max w.deepest depth ≤ D := by
    have hbehind := hw.behind
    have hwithin := hw.within
    have hdeepest := hw.deepest
    omega
  exact h { w with deepest := max w.deepest depth } { hw with deepest := hmax }

theorem parseOne_succ (fuel : ℕ) : parseOne (fuel + 1) = (do
    let (major, info) ← readInitialByte
    let len ← readLength info major
    parseBody (parseOne fuel) major len) := by
  simp only [parseOne, readHead, bind_assoc, pure_bind]

theorem follows_parseOne (fuel : ℕ) {depth : ℕ} (hD : depth + input.length ≤ D + m) :
    Follows input D m m (Scanner.parseOne input fuel depth) (parseOne fuel) := by
  induction fuel generalizing depth m with
  | zero => exact follows_refuse _
  | succ fuel ih =>
    rw [parseOne_succ]
    refine Follows.enter hD (Follows.mono (Nat.le_succ m) ?_)
    refine follows_readInitialByte.bind (Nat.le_succ m) (fun ⟨major, info⟩ ↦ ?_)
    refine (follows_readLength info major).bind le_rfl (fun len ↦ ?_)
    exact follows_parseBody (ih (by omega)) major len

end Follows

theorem inside_start (input : List UInt8) (D : ℕ) : Inside input 0 D .start :=
  ⟨le_rfl, Nat.zero_le _, fun _ h ↦ absurd h List.not_mem_nil, Nat.zero_le _⟩

theorem scan_spec (input : List UInt8) :
    Inside input 0 (input.length + 1) (scan input).2 ∧
      parseCbor input = (scan input).1.map (fun v ↦ (v, (scan input).2.cur)) := by
  have hfollows : Follows input (input.length + 1) 0 0 (Scanner.parseOne input (input.length + 1) 1)
      (parseOne (input.length + 1)) := follows_parseOne _ (by omega)
  obtain ⟨r, w, hexec, hw, -, hp⟩ := hfollows .start (inside_start input _)
  have hscan : scan input = (r, w) := hexec
  rw [show input.drop Walk.start.cur = input from List.drop_zero,
    parseOne_of_length_le (Nat.le_succ _)] at hp
  rw [hscan, parseCbor, hp]
  refine ⟨hw, ?_⟩
  cases r with
  | error e => rfl
  | ok v =>
    have hcur : input.length - (input.drop w.cur).length = w.cur := by
      have hwithin := hw.within
      rw [List.length_drop]
      omega
    show Except.ok (v, input.length - (input.drop w.cur).length) = .ok (v, w.cur)
    rw [hcur]

/-! ### How deep the calls go -/

theorem callDepth_le (input : List UInt8) : callDepth input ≤ input.length + 1 :=
  (scan_spec input).1.deepest

theorem cursorPositions_le {input : List UInt8} {pos : ℕ} (h : pos ∈ cursorPositions input) :
    pos ≤ input.length :=
  (scan_spec input).1.visited pos h

def nestedArrays (n : ℕ) : List UInt8 := List.replicate n 0x81

theorem exec_nestedArrays {n fuel depth : ℕ} {w : Walk} (h : w.cur < n) :
    (exec (Scanner.parseOne (nestedArrays n) (fuel + 1) depth) w).2 =
      (exec (Scanner.parseOne (nestedArrays n) fuel (depth + 1))
        ⟨w.cur + 1, w.visited ++ [w.cur + 1], max w.deepest depth⟩).2 := by
  have hbyte : (nestedArrays n)[w.cur]? = some 0x81 := by
    rw [nestedArrays, List.getElem?_replicate, if_pos h]
  have hhead : exec (Scanner.readInitialByte (nestedArrays n))
      { w with deepest := max w.deepest depth } =
      (.ok (4, 1), ⟨w.cur + 1, w.visited ++ [w.cur + 1], max w.deepest depth⟩) := by
    simp only [Scanner.readInitialByte, exec_bind, exec_query, hbyte]
    rfl
  have hitem : ∀ (one : Scanner CborValue) (u : Walk),
      (exec (Scanner.parseBody (nestedArrays n) one 4 1) u).2 = (exec one u).2 := by
    intro one u
    show (exec ((one >>= fun v ↦ (pure [] >>= fun vs ↦ pure (v :: vs))) >>= fun items ↦
      pure (CborValue.array items)) u).2 = _
    simp only [exec_bind]
    rcases exec one u with ⟨e | v, t⟩
    · rfl
    · rfl
  show (exec (Scanner.readInitialByte (nestedArrays n) >>= _)
    { w with deepest := max w.deepest depth }).2 = _
  rw [exec_bind, hhead]
  exact hitem _ _

theorem le_deepest_nestedArrays {n j fuel : ℕ} (depth : ℕ) {w : Walk} (hcur : w.cur + j = n)
    (hfuel : j < fuel) :
    depth + j ≤ (exec (Scanner.parseOne (nestedArrays n) fuel depth) w).2.deepest := by
  induction j generalizing fuel depth w with
  | zero =>
    obtain ⟨fuel, rfl⟩ := Nat.exists_eq_succ_of_ne_zero hfuel.ne'
    have hbyte : (nestedArrays n)[w.cur]? = none := by
      rw [nestedArrays, List.getElem?_replicate, if_neg (by omega)]
    have hend : exec (Scanner.parseOne (nestedArrays n) (fuel + 1) depth) w =
        (malformed "cbor: truncated reading initial byte",
          { w with deepest := max w.deepest depth }) := by
      show exec (Scanner.readInitialByte (nestedArrays n) >>= _)
        { w with deepest := max w.deepest depth } = _
      simp only [Scanner.readInitialByte, exec_bind, exec_query, hbyte]
      rfl
    rw [hend]
    exact Nat.le_max_right _ _
  | succ j ih =>
    obtain ⟨fuel, rfl⟩ := Nat.exists_eq_succ_of_ne_zero (Nat.ne_zero_of_lt hfuel)
    rw [exec_nestedArrays (by omega)]
    have hdeep := ih (depth + 1) (w := ⟨w.cur + 1, w.visited ++ [w.cur + 1], max w.deepest depth⟩)
      (by show w.cur + 1 + j = n; omega) (Nat.lt_of_succ_lt_succ hfuel)
    omega

theorem callDepth_nestedArrays (n : ℕ) : callDepth (nestedArrays n) = n + 1 := by
  have hlen : (nestedArrays n).length = n := List.length_replicate
  apply Nat.le_antisymm
  · have hle := callDepth_le (nestedArrays n)
    rwa [hlen] at hle
  · have hdeep := le_deepest_nestedArrays (w := .start) 1 (Nat.zero_add n) (Nat.lt_add_one n)
    rw [callDepth, scan, hlen]
    omega

/-- The calls for inputs of at most `n` bytes have a depth bound exactly above `n`, and for every
input the index stays within it. -/
theorem decoding_bounded_iff (n bound : ℕ) :
    ((∀ input : List UInt8, input.length ≤ n → callDepth input ≤ bound) ↔ n < bound) ∧
      ∀ (input : List UInt8), ∀ pos ∈ cursorPositions input, pos ≤ input.length := by
  refine ⟨⟨fun h ↦ ?_, fun h input hlen ↦ ?_⟩, fun input pos hpos ↦ cursorPositions_le hpos⟩
  · have hnested := h (nestedArrays n) (List.length_replicate.le)
    rw [callDepth_nestedArrays] at hnested
    exact hnested
  · have hle := callDepth_le input
    omega

/-- No number bounds the depth for every input. -/
theorem callDepth_unbounded : ¬ ∃ bound, ∀ input : List UInt8, callDepth input ≤ bound := by
  rintro ⟨bound, h⟩
  have hdeep := h (nestedArrays bound)
  rw [callDepth_nestedArrays] at hdeep
  omega

end SauronId.Attestation
