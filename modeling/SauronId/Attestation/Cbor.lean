import SauronId.Lib.Cbor
import SauronId.Lib.Fallible

namespace SauronId.Attestation

open Lib BigEndian Encoding

inductive AttestationError
  | malformed (m : String)
  deriving DecidableEq

/-- A decoded value. The kinds of item that the decoder refuses are left out. -/
inductive CborValue
  | uint (n : ℕ)
  | negInt (n : ℤ)
  | bytes (b : List UInt8)
  | text (s : String)
  | array (items : List CborValue)
  | map (entries : List (CborValue × CborValue))

namespace CborValue

def underText (key : String) : CborValue × CborValue → Option CborValue
  | (text s, v) => if s = key then some v else none
  | _ => none

def getText (v : CborValue) (key : String) : Option CborValue :=
  match v with
  | map entries => entries.findSome? (underText key)
  | _ => none

def asBytes : CborValue → Option (List UInt8)
  | bytes b => some b
  | _ => none

def asText : CborValue → Option String
  | text s => some s
  | _ => none

def asUint : CborValue → Option ℕ
  | uint n => some n
  | _ => none

end CborValue

def cborKind : CborValue → String
  | .uint _ => "uint"
  | .negInt _ => "negint"
  | .bytes _ => "bytes"
  | .text _ => "text"
  | .array _ => "array"
  | .map _ => "map"

section Decode

abbrev Cursor (α : Type) := StateT (List UInt8) (Except AttestationError) α

def malformed {α : Type} (m : String) : Except AttestationError α := .error (.malformed m)

def fail {α : Type} (m : String) : Cursor α := fun _ ↦ malformed m

def readInitialByte : Cursor (UInt8 × UInt8)
  | [] => malformed "cbor: truncated reading initial byte"
  | b :: rest => .ok ((b >>> 5, b &&& 0x1f), rest)

def readArgument (width : ℕ) : Cursor ℕ := fun rest ↦
  if width > rest.length then
    malformed ("cbor: truncated reading " ++ toString width ++ "-byte length")
  else
    .ok (fromBytesBe (rest.take width), rest.drop width)

def readLength (info major : UInt8) : Cursor ℕ :=
  if info ≤ 23 then return info.toNat
  else if info = 24 then readArgument 1
  else if info = 25 then readArgument 2
  else if info = 26 then readArgument 4
  else if info = 27 then readArgument 8
  else if info ≤ 30 then
    fail ("cbor: reserved additional info " ++ toString info ++ " for major " ++
      toString major)
  else
    fail ("cbor: indefinite-length items (major " ++ toString major ++
      ") not supported — AWS Nitro docs use definite lengths")

def takeBytes (n : ℕ) : Cursor (List UInt8) := fun rest ↦
  if n > rest.length then
    malformed ("cbor: truncated reading " ++ toString n ++ "-byte string (remaining " ++
      toString rest.length ++ ")")
  else
    .ok (rest.take n, rest.drop n)

def continues (low high b : UInt8) : Bool := low ≤ b && b ≤ high

def secondByte (first second : UInt8) : Bool :=
  if first = 0xe0 then continues 0xa0 0xbf second
  else if first = 0xed then continues 0x80 0x9f second
  else if first = 0xf0 then continues 0x90 0xbf second
  else if first = 0xf4 then continues 0x80 0x8f second
  else continues 0x80 0xbf second

def utf8Fault (i : ℕ) : List UInt8 → Option (ℕ × Option ℕ)
  | [] => none
  | a :: rest =>
    if a < 0x80 then utf8Fault (i + 1) rest
    else if a < 0xc2 ∨ 0xf4 < a then some (i, some 1)
    else
      match rest with
      | [] => some (i, none)
      | b :: rest =>
        if !secondByte a b then some (i, some 1)
        else if a < 0xe0 then utf8Fault (i + 2) rest
        else
          match rest with
          | [] => some (i, none)
          | c :: rest =>
            if !continues 0x80 0xbf c then some (i, some 2)
            else if a < 0xf0 then utf8Fault (i + 3) rest
            else
              match rest with
              | [] => some (i, none)
              | d :: rest =>
                if !continues 0x80 0xbf d then some (i, some 3) else utf8Fault (i + 4) rest

def utf8Error (bs : List UInt8) : String :=
  match utf8Fault 0 bs with
  | some (i, some n) =>
    "invalid utf-8 sequence of " ++ toString n ++ " bytes from index " ++ toString i
  | some (i, none) => "incomplete utf-8 byte sequence from index " ++ toString i
  | none => ""

def fromUtf8 (bs : List UInt8) : Cursor String :=
  match String.fromUTF8? ⟨bs.toArray⟩ with
  | some s => return s
  | none => fail ("cbor: text string is not UTF-8: " ++ utf8Error bs)

def parseItems (one : Cursor CborValue) : ℕ → Cursor (List CborValue)
  | 0 => return []
  | n + 1 => do
    let v ← one
    let vs ← parseItems one n
    return v :: vs

def parseEntries (one : Cursor CborValue) : ℕ → Cursor (List (CborValue × CborValue))
  | 0 => return []
  | n + 1 => do
    let k ← one
    let v ← one
    let es ← parseEntries one n
    return (k, v) :: es

def parseNegInt (len : ℕ) : Cursor CborValue :=
  if len > 2 ^ 63 - 1 then
    fail ("cbor: negative int magnitude " ++ toString len ++ " exceeds i64::MAX")
  else
    return .negInt (-1 - len)

def parseBytes (len : ℕ) : Cursor CborValue := do
  let bs ← takeBytes len
  return .bytes bs

def parseText (len : ℕ) : Cursor CborValue := do
  let bs ← takeBytes len
  let s ← fromUtf8 bs
  return .text s

def parseArray (one : Cursor CborValue) (len : ℕ) : Cursor CborValue :=
  if len > 65536 then
    fail ("cbor: array length " ++ toString len ++ " exceeds sane upper bound 65536")
  else do
    let items ← parseItems one len
    return .array items

def parseMap (one : Cursor CborValue) (len : ℕ) : Cursor CborValue :=
  if len > 65536 then
    fail ("cbor: map length " ++ toString len ++ " exceeds sane upper bound 65536")
  else do
    let entries ← parseEntries one len
    return .map entries

def parseBody (one : Cursor CborValue) (major : UInt8) (len : ℕ) : Cursor CborValue :=
  if major = 0 then return .uint len
  else if major = 1 then parseNegInt len
  else if major = 2 then parseBytes len
  else if major = 3 then parseText len
  else if major = 4 then parseArray one len
  else if major = 5 then parseMap one len
  else if major = 6 then
    fail "cbor: tagged values (major 6) not supported — AWS Nitro docs do not use tags"
  else
    fail "cbor: simple/float values (major 7) not supported — AWS Nitro docs do not emit them"

def readHead : Cursor (UInt8 × ℕ) := do
  let (major, info) ← readInitialByte
  let len ← readLength info major
  return (major, len)

def parseOne : ℕ → Cursor CborValue
  | 0 => fail "cbor: truncated reading initial byte"
  | depth + 1 => do
    let (major, len) ← readHead
    parseBody (parseOne depth) major len

def parseCbor (input : List UInt8) : Except AttestationError (CborValue × ℕ) := do
  let (v, rest) ← parseOne input.length input
  return (v, input.length - rest.length)

end Decode

section Encode

def encodeHead (major n : ℕ) : List UInt8 :=
  if n ≤ 23 then [UInt8.ofNat (major * 32 + n)]
  else if n ≤ 2 ^ 8 - 1 then UInt8.ofNat (major * 32 + 24) :: be 1 n
  else if n ≤ 2 ^ 16 - 1 then UInt8.ofNat (major * 32 + 25) :: be 2 n
  else if n ≤ 2 ^ 32 - 1 then UInt8.ofNat (major * 32 + 26) :: be 4 n
  else UInt8.ofNat (major * 32 + 27) :: be 8 n

mutual

def encodeCbor : CborValue → List UInt8
  | .uint n => encodeHead 0 n
  | .negInt n => encodeHead 1 ((-1 - n) % 2 ^ 64).toNat
  | .bytes b => encodeHead 2 b.length ++ b
  | .text s => encodeHead 3 (bytes s).length ++ bytes s
  | .array items => encodeHead 4 items.length ++ encodeItems items
  | .map entries => encodeHead 5 entries.length ++ encodeEntries entries

def encodeItems : List CborValue → List UInt8
  | [] => []
  | item :: items => encodeCbor item ++ encodeItems items

def encodeEntries : List (CborValue × CborValue) → List UInt8
  | [] => []
  | (k, v) :: entries => encodeCbor k ++ (encodeCbor v ++ encodeEntries entries)

end

def buildSigStructure (protectedBstr payloadBstr : List UInt8) : List UInt8 :=
  encodeCbor (.array [.text "Signature1", .bytes protectedBstr, .bytes [], .bytes payloadBstr])

end Encode

end SauronId.Attestation
