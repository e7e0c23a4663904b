import SauronId.Lib.BigEndian
import SauronId.Lib.Encoding

namespace SauronId.Lib.Cbor

open BigEndian Encoding

inductive Item
  | uint (n : ℕ)
  /-- The integer `-1 - n`. -/
  | negint (n : ℕ)
  | bytes (b : List UInt8)
  | text (s : String)
  | array (items : List Item)
  | map (entries : List (Item × Item))
  | tag (t : ℕ) (item : Item)
  | simple (v : ℕ)
  /-- A floating point number by its two, four or eight bytes. -/
  | float (bits : List UInt8)

def Item.nil : Item := .simple 22

/-- The bytes are an initial byte of the major type and the argument `n`, which
may be written in any of the widths that hold it. -/
def Head (major n : ℕ) (bs : List UInt8) : Prop :=
  n < 24 ∧ bs = [UInt8.ofNat (major * 32 + n)] ∨
  n < 256 ^ 1 ∧ bs = UInt8.ofNat (major * 32 + 24) :: be 1 n ∨
  n < 256 ^ 2 ∧ bs = UInt8.ofNat (major * 32 + 25) :: be 2 n ∨
  n < 256 ^ 4 ∧ bs = UInt8.ofNat (major * 32 + 26) :: be 4 n ∨
  n < 256 ^ 8 ∧ bs = UInt8.ofNat (major * 32 + 27) :: be 8 n

mutual

/-- The bytes are an encoding of the item with definite lengths. -/
def Encodes : Item → List UInt8 → Prop
  | .uint n, bs => Head 0 n bs
  | .negint n, bs => Head 1 n bs
  | .bytes b, bs => ∃ h, Head 2 b.length h ∧ bs = h ++ b
  | .text s, bs => ∃ h, Head 3 (bytes s).length h ∧ bs = h ++ bytes s
  | .array items, bs =>
    ∃ h body, Head 4 items.length h ∧ EncodesItems items body ∧ bs = h ++ body
  | .map entries, bs =>
    ∃ h body, Head 5 entries.length h ∧ EncodesEntries entries body ∧ bs = h ++ body
  | .tag t item, bs => ∃ h body, Head 6 t h ∧ Encodes item body ∧ bs = h ++ body
  | .simple v, bs =>
    v < 24 ∧ bs = [UInt8.ofNat (7 * 32 + v)] ∨
    32 ≤ v ∧ v < 256 ∧ bs = [UInt8.ofNat (7 * 32 + 24), UInt8.ofNat v]
  | .float bits, bs =>
    bits.length = 2 ∧ bs = UInt8.ofNat (7 * 32 + 25) :: bits ∨
    bits.length = 4 ∧ bs = UInt8.ofNat (7 * 32 + 26) :: bits ∨
    bits.length = 8 ∧ bs = UInt8.ofNat (7 * 32 + 27) :: bits

def EncodesItems : List Item → List UInt8 → Prop
  | [], bs => bs = []
  | item :: items, bs => ∃ b rest, Encodes item b ∧ EncodesItems items rest ∧ bs = b ++ rest

def EncodesEntries : List (Item × Item) → List UInt8 → Prop
  | [], bs => bs = []
  | (k, v) :: entries, bs => ∃ b c rest, Encodes k b ∧ Encodes v c ∧
      EncodesEntries entries rest ∧ bs = b ++ (c ++ rest)

end

theorem Item.induction {P : Item → Prop} (huint : ∀ n, P (.uint n)) (hnegint : ∀ n, P (.negint n))
    (hbytes : ∀ b, P (.bytes b)) (htext : ∀ s, P (.text s))
    (harray : ∀ items, (∀ x ∈ items, P x) → P (.array items))
    (hmap : ∀ entries, (∀ e ∈ entries, P e.1 ∧ P e.2) → P (.map entries))
    (htag : ∀ t item, P item → P (.tag t item)) (hsimple : ∀ v, P (.simple v))
    (hfloat : ∀ bits, P (.float bits)) : ∀ item, P item
  | .uint n => huint n
  | .negint n => hnegint n
  | .bytes b => hbytes b
  | .text s => htext s
  | .array items => harray items (fun x _ ↦
      Item.induction huint hnegint hbytes htext harray hmap htag hsimple hfloat x)
  | .map entries => hmap entries (fun e _ ↦
      ⟨Item.induction huint hnegint hbytes htext harray hmap htag hsimple hfloat e.1,
        Item.induction huint hnegint hbytes htext harray hmap htag hsimple hfloat e.2⟩)
  | .tag t item => htag t item
      (Item.induction huint hnegint hbytes htext harray hmap htag hsimple hfloat item)
  | .simple v => hsimple v
  | .float bits => hfloat bits
termination_by item => sizeOf item
decreasing_by
  · rename_i hx
    have := List.sizeOf_lt_of_mem hx
    simp
    omega
  · rename_i he
    have := List.sizeOf_lt_of_mem he
    rcases e with ⟨k, v⟩
    simp at this ⊢
    omega
  · rename_i he
    have := List.sizeOf_lt_of_mem he
    rcases e with ⟨k, v⟩
    simp at this ⊢
    omega
  · simp

end SauronId.Lib.Cbor
