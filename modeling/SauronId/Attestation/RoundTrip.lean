import SauronId.Attestation.Cbor

namespace SauronId.Attestation

open Lib BigEndian Encoding Cbor

mutual

def valueOf : Item → Option CborValue
  | .uint n => some (.uint n)
  | .negint n => if n ≤ 2 ^ 63 - 1 then some (.negInt (-1 - n)) else none
  | .bytes b => some (.bytes b)
  | .text s => some (.text s)
  | .array items => if items.length ≤ 65536 then (valuesOf items).map .array else none
  | .map entries => if entries.length ≤ 65536 then (entriesOf entries).map .map else none
  | .tag _ _ => none
  | .simple _ => none
  | .float _ => none

def valuesOf : List Item → Option (List CborValue)
  | [] => some []
  | item :: items => do
    let v ← valueOf item
    let vs ← valuesOf items
    return v :: vs

def entriesOf : List (Item × Item) → Option (List (CborValue × CborValue))
  | [] => some []
  | (k, v) :: entries => do
    let k ← valueOf k
    let v ← valueOf v
    let es ← entriesOf entries
    return (k, v) :: es

end

/-- From the input the step reads the value and stops before the rest, or fails
where there is no value. -/
def Yields {α : Type} (p : Cursor α) (input : List UInt8) (v : Option α) (rest : List UInt8) :
    Prop :=
  match v with
  | some a => p input = .ok (a, rest)
  | none => ∃ e, p input = .error e

section Yields

variable {α β : Type} {p : Cursor α} {f : α → Cursor β} {input r s : List UInt8} {v : Option α}

theorem bind_of_ok {a : α} (h : p input = .ok (a, r)) : (p >>= f) input = f a r := by
  show p input >>= _ = _
  rw [h]
  rfl

theorem Yields.bind {w : α → Option β} (hp : Yields p input v r)
    (hf : ∀ a, v = some a → Yields (f a) r (w a) s) : Yields (p >>= f) input (v.bind w) s := by
  cases v with
  | none =>
    obtain ⟨e, he⟩ := hp
    refine ⟨e, ?_⟩
    show p input >>= _ = _
    rw [he]
    rfl
  | some a =>
    have hstep : (p >>= f) input = f a r := bind_of_ok hp
    have hrest := hf a rfl
    unfold Yields at hrest ⊢
    rw [hstep]
    exact hrest

theorem Yields.map (g : α → β) (hp : Yields p input v r) :
    Yields (do let a ← p; return g a) input (v.map g) r := by
  have hmap : v.map g = v.bind (fun a ↦ some (g a)) := Option.map_eq_bind
  rw [hmap]
  exact hp.bind (fun a _ ↦ rfl)

theorem yields_bounded {n bound : ℕ} (m : String) (h : n ≤ bound → Yields p input v r) :
    Yields (if n > bound then fail m else p) input (if n ≤ bound then v else none) r := by
  by_cases hn : n ≤ bound
  · rw [if_neg (by omega), if_pos hn]
    exact h hn
  · rw [if_pos (by omega), if_neg hn]
    exact ⟨_, rfl⟩

end Yields

section Depth

variable {α β : Type} {m : ℕ}

/-- From at most `m` bytes the two steps do the same, and leave at most as many. -/
def Agree (m : ℕ) (p q : Cursor α) : Prop :=
  ∀ input, input.length ≤ m → p input = q input ∧
    ∀ a rest, q input = .ok (a, rest) → rest.length ≤ input.length

theorem Agree.bind {p q : Cursor α} {f g : α → Cursor β} (h : Agree m p q)
    (hf : ∀ a, Agree m (f a) (g a)) : Agree m (p >>= f) (q >>= g) := by
  intro input hinput
  obtain ⟨heq, hleft⟩ := h input hinput
  cases hq : q input with
  | error e =>
    have hfail : (q >>= g) input = .error e := by
      show q input >>= _ = _
      rw [hq]
      rfl
    refine ⟨?_, fun a rest hr ↦ absurd (hfail.symm.trans hr) (by simp)⟩
    show p input >>= _ = q input >>= _
    rw [heq, hq]
    rfl
  | ok x =>
    obtain ⟨a, rest⟩ := x
    have hrest := hleft a rest hq
    obtain ⟨heq', hleft'⟩ := hf a rest (by omega)
    rw [bind_of_ok (heq.trans hq), bind_of_ok hq]
    refine ⟨heq', fun b r hr ↦ ?_⟩
    have := hleft' b r hr
    omega

theorem agree_pure (a : α) : Agree m (pure a : Cursor α) (pure a) := by
  intro input _
  refine ⟨rfl, fun b rest h ↦ ?_⟩
  obtain ⟨-, rfl⟩ : a = b ∧ input = rest := by simpa [pure, StateT.pure, Except.pure] using h
  exact Nat.le_refl _

theorem agree_fail (msg : String) : Agree m (fail msg : Cursor α) (fail msg) :=
  fun _ _ ↦ ⟨rfl, fun _ _ h ↦ by cases h⟩

theorem agree_readArgument (width : ℕ) : Agree m (readArgument width) (readArgument width) := by
  intro input _
  refine ⟨rfl, fun n rest h ↦ ?_⟩
  unfold readArgument at h
  split_ifs at h
  · cases h
  · injection h with h
    rw [Prod.mk.injEq] at h
    rw [← h.2, List.length_drop]
    omega

theorem agree_takeBytes (n : ℕ) : Agree m (takeBytes n) (takeBytes n) := by
  intro input _
  refine ⟨rfl, fun b rest h ↦ ?_⟩
  unfold takeBytes at h
  split_ifs at h
  · cases h
  · injection h with h
    rw [Prod.mk.injEq] at h
    rw [← h.2, List.length_drop]
    omega

theorem agree_fromUtf8 (bs : List UInt8) : Agree m (fromUtf8 bs) (fromUtf8 bs) := by
  unfold fromUtf8
  split
  · exact agree_pure _
  · exact agree_fail _

theorem agree_readLength (info major : UInt8) :
    Agree m (readLength info major) (readLength info major) := by
  unfold readLength
  split_ifs
  · exact agree_pure _
  · exact agree_readArgument 1
  · exact agree_readArgument 2
  · exact agree_readArgument 4
  · exact agree_readArgument 8
  · exact agree_fail _
  · exact agree_fail _

variable {one two : Cursor CborValue}

theorem agree_parseItems (h : Agree m one two) (n : ℕ) :
    Agree m (parseItems one n) (parseItems two n) := by
  induction n with
  | zero => exact agree_pure []
  | succ n ih => exact h.bind (fun v ↦ ih.bind (fun vs ↦ agree_pure (v :: vs)))

theorem agree_parseEntries (h : Agree m one two) (n : ℕ) :
    Agree m (parseEntries one n) (parseEntries two n) := by
  induction n with
  | zero => exact agree_pure []
  | succ n ih =>
    exact h.bind (fun k ↦ h.bind (fun v ↦ ih.bind (fun es ↦ agree_pure ((k, v) :: es))))

theorem agree_parseBody (h : Agree m one two) (major : UInt8) (len : ℕ) :
    Agree m (parseBody one major len) (parseBody two major len) := by
  unfold parseBody parseNegInt parseBytes parseText parseArray parseMap
  split_ifs
  · exact agree_pure _
  · exact agree_fail _
  · exact agree_pure _
  · exact (agree_takeBytes len).bind (fun bs ↦ agree_pure _)
  · exact (agree_takeBytes len).bind (fun bs ↦ (agree_fromUtf8 bs).bind (fun s ↦ agree_pure _))
  · exact agree_fail _
  · exact (agree_parseItems h len).bind (fun items ↦ agree_pure _)
  · exact agree_fail _
  · exact (agree_parseEntries h len).bind (fun entries ↦ agree_pure _)
  · exact agree_fail _
  · exact agree_fail _

theorem parseOne_cons (depth : ℕ) (b : UInt8) (rest : List UInt8) :
    parseOne (depth + 1) (b :: rest) =
      (readLength (b &&& 0x1f) (b >>> 5) >>= parseBody (parseOne depth) (b >>> 5)) rest := by
  show ((readLength (b &&& 0x1f) (b >>> 5) rest >>= _ : Except _ _) >>= _) = _
  show _ = (readLength (b &&& 0x1f) (b >>> 5) rest >>= _ : Except _ _)
  cases readLength (b &&& 0x1f) (b >>> 5) rest with
  | error e => rfl
  | ok x => rfl

theorem agree_parseOne (depth : ℕ) : Agree depth (parseOne (depth + 1)) (parseOne depth) := by
  induction depth with
  | zero =>
    intro input hinput
    obtain rfl := List.eq_nil_of_length_eq_zero (Nat.le_zero.mp hinput)
    exact ⟨rfl, fun a rest h ↦ by cases h⟩
  | succ depth ih =>
    intro input hinput
    cases input with
    | nil => exact ⟨rfl, fun a rest h ↦ by cases h⟩
    | cons b rest =>
      -- the initial byte is read, and what follows is within the smaller depth
      have hrest : rest.length ≤ depth := Nat.le_of_succ_le_succ hinput
      have hbody := (agree_readLength (m := depth) (b &&& 0x1f) (b >>> 5)).bind
        (fun len ↦ agree_parseBody ih (b >>> 5) len)
      obtain ⟨heq, hleft⟩ := hbody rest hrest
      rw [parseOne_cons, parseOne_cons]
      refine ⟨heq, fun a r h ↦ ?_⟩
      have := hleft a r h
      rw [List.length_cons]
      omega

theorem parseOne_of_length_le {input : List UInt8} {depth : ℕ} (h : input.length ≤ depth) :
    parseOne depth input = parseOne input.length input := by
  induction depth, h using Nat.le_induction with
  | base => rfl
  | succ depth hle ih => exact ((agree_parseOne depth input hle).1).trans ih

end Depth

theorem initialByte_split :
    ∀ major < 8, ∀ info < 32, UInt8.ofNat (major * 32 + info) >>> 5 = UInt8.ofNat major ∧
      UInt8.ofNat (major * 32 + info) &&& 0x1f = UInt8.ofNat info := by
  decide +kernel

theorem readArgument_append {width : ℕ} {b r : List UInt8} (h : b.length = width) :
    readArgument width (b ++ r) = .ok (fromBytesBe b, r) := by
  subst h
  rw [readArgument, if_neg (by rw [List.length_append]; omega), List.take_left, List.drop_left]

theorem readLength_immediate {n : ℕ} (h : n < 24) (major : UInt8) (rest : List UInt8) :
    readLength (UInt8.ofNat n) major rest = .ok (n, rest) := by
  have hn : (UInt8.ofNat n).toNat = n := Nat.mod_eq_of_lt (by omega)
  have hle : UInt8.ofNat n ≤ 23 := by
    rw [UInt8.le_iff_toNat_le, hn]
    exact Nat.le_of_lt_succ h
  rw [readLength, if_pos hle, hn]
  rfl

theorem readHead_cons {major info n : ℕ} (hmajor : major < 8) (hinfo : info < 32)
    {rest r : List UInt8}
    (h : readLength (UInt8.ofNat info) (UInt8.ofNat major) rest = .ok (n, r)) :
    readHead (UInt8.ofNat (major * 32 + info) :: rest) = .ok ((UInt8.ofNat major, n), r) := by
  obtain ⟨hhigh, hlow⟩ := initialByte_split major hmajor info hinfo
  have hbyte : readInitialByte (UInt8.ofNat (major * 32 + info) :: rest) =
      .ok ((UInt8.ofNat major, UInt8.ofNat info), rest) := by
    rw [readInitialByte, hhigh, hlow]
  rw [readHead, bind_of_ok hbyte]
  exact bind_of_ok h

theorem readHead_wide {major info width n : ℕ} (hmajor : major < 8) (hinfo : info < 32)
    (hwidth : readLength (UInt8.ofNat info) (UInt8.ofNat major) = readArgument width)
    (hn : n < 256 ^ width) (r : List UInt8) :
    readHead (UInt8.ofNat (major * 32 + info) :: be width n ++ r) =
      .ok ((UInt8.ofNat major, n), r) := by
  apply readHead_cons hmajor hinfo
  rw [hwidth]
  refine (readArgument_append (length_be width n)).trans ?_
  rw [fromBytesBe_be hn]

theorem readHead_append {major n : ℕ} (hmajor : major < 8) {h : List UInt8}
    (hh : Head major n h) (r : List UInt8) :
    readHead (h ++ r) = .ok ((UInt8.ofNat major, n), r) := by
  rcases hh with ⟨hn, rfl⟩ | ⟨hn, rfl⟩ | ⟨hn, rfl⟩ | ⟨hn, rfl⟩ | ⟨hn, rfl⟩
  · exact readHead_cons hmajor (by omega) (readLength_immediate hn _ _)
  · exact readHead_wide hmajor (by omega) rfl hn r
  · exact readHead_wide hmajor (by omega) rfl hn r
  · exact readHead_wide hmajor (by omega) rfl hn r
  · exact readHead_wide hmajor (by omega) rfl hn r

theorem length_pos_of_head {major n : ℕ} {h : List UInt8} (hh : Head major n h) :
    0 < h.length := by
  rcases hh with ⟨-, rfl⟩ | ⟨-, rfl⟩ | ⟨-, rfl⟩ | ⟨-, rfl⟩ | ⟨-, rfl⟩
  all_goals exact Nat.zero_lt_succ _

section Decode

def Decoded (item : Item) : Prop :=
  ∀ bs r depth, Encodes item bs → bs.length + r.length ≤ depth →
    Yields (parseOne depth) (bs ++ r) (valueOf item) r

variable {depth : ℕ} {v : Option CborValue}

theorem yields_readHead {major : UInt8} {n : ℕ} {h rest r : List UInt8}
    (hhead : readHead (h ++ rest) = .ok ((major, n), rest)) (hpos : 0 < h.length)
    (hdepth : h.length + rest.length ≤ depth)
    (hbody : ∀ inner, rest.length ≤ inner → Yields (parseBody (parseOne inner) major n) rest v r) :
    Yields (parseOne depth) (h ++ rest) v r := by
  cases depth with
  | zero => omega
  | succ inner =>
    have hstep : parseOne (inner + 1) (h ++ rest) = parseBody (parseOne inner) major n rest :=
      bind_of_ok hhead
    have hinner := hbody inner (by omega)
    unfold Yields at hinner ⊢
    rw [hstep]
    exact hinner

theorem yields_head {major n : ℕ} (hmajor : major < 8) {h rest r : List UInt8} (hh : Head major n h)
    (hdepth : h.length + rest.length ≤ depth)
    (hbody : ∀ inner, rest.length ≤ inner →
      Yields (parseBody (parseOne inner) (UInt8.ofNat major) n) rest v r) :
    Yields (parseOne depth) (h ++ rest) v r :=
  yields_readHead (readHead_append hmajor hh rest) (length_pos_of_head hh) hdepth hbody

theorem yields_headed {major n : ℕ} (hmajor : major < 8) {h body r : List UInt8}
    (hh : Head major n h) (hdepth : (h ++ body).length + r.length ≤ depth)
    (hbody : ∀ inner, body.length + r.length ≤ inner →
      Yields (parseBody (parseOne inner) (UInt8.ofNat major) n) (body ++ r) v r) :
    Yields (parseOne depth) (h ++ body ++ r) v r := by
  rw [List.length_append, Nat.add_assoc] at hdepth
  rw [List.append_assoc]
  apply yields_head hmajor hh
  · rwa [List.length_append]
  · intro inner hinner
    rw [List.length_append] at hinner
    exact hbody inner hinner

theorem yields_takeBytes (b r : List UInt8) : Yields (takeBytes b.length) (b ++ r) (some b) r := by
  show takeBytes b.length (b ++ r) = .ok (b, r)
  rw [takeBytes, if_neg (by rw [List.length_append]; omega), List.take_left, List.drop_left]

theorem yields_fromUtf8 (s : String) (r : List UInt8) :
    Yields (fromUtf8 (bytes s)) r (some s) r := by
  have hbytes : (⟨(bytes s).toArray⟩ : ByteArray) = s.toUTF8 := by
    rw [bytes, Array.toArray_toList]
  have hsome : String.fromUTF8? s.toUTF8 = some s := by
    unfold String.fromUTF8?
    rw [String.toUTF8_eq_toByteArray, dif_pos s.isValidUTF8]
    rfl
  rw [fromUtf8, hbytes, hsome]
  rfl

theorem yields_parseText (s : String) (r : List UInt8) :
    Yields (parseText (bytes s).length) (bytes s ++ r) (some (.text s)) r := by
  have htake := yields_takeBytes (bytes s) r
  unfold Yields parseText
  rw [bind_of_ok htake]
  exact (yields_fromUtf8 s r).map CborValue.text

theorem head_of_simple {v : ℕ} {bs : List UInt8} (h : Encodes (.simple v) bs) : Head 7 v bs := by
  rcases h with ⟨hv, rfl⟩ | ⟨-, hv, rfl⟩
  · exact .inl ⟨hv, rfl⟩
  · refine .inr (.inl ⟨hv, ?_⟩)
    simp [be]

theorem readHead_float {bits bs : List UInt8} (h : Encodes (.float bits) bs) (r : List UInt8) :
    readHead (bs ++ r) = .ok ((7, fromBytesBe bits), r) ∧ 0 < bs.length := by
  rcases h with ⟨hlen, rfl⟩ | ⟨hlen, rfl⟩ | ⟨hlen, rfl⟩
  · exact ⟨readHead_cons (by omega) (by omega) (readArgument_append hlen), Nat.zero_lt_succ _⟩
  · exact ⟨readHead_cons (by omega) (by omega) (readArgument_append hlen), Nat.zero_lt_succ _⟩
  · exact ⟨readHead_cons (by omega) (by omega) (readArgument_append hlen), Nat.zero_lt_succ _⟩

theorem yields_items {items : List Item} (ih : ∀ x ∈ items, Decoded x) {body r : List UInt8}
    (hbody : EncodesItems items body) (hdepth : body.length + r.length ≤ depth) :
    Yields (parseItems (parseOne depth) items.length) (body ++ r) (valuesOf items) r := by
  induction items generalizing body with
  | nil =>
    obtain rfl : body = [] := hbody
    rfl
  | cons item items ihitems =>
    obtain ⟨hitem, hitems⟩ := List.forall_mem_cons.mp ih
    obtain ⟨b, rest, hb, hrest, rfl⟩ := hbody
    rw [List.length_append] at hdepth
    rw [List.append_assoc]
    apply Yields.bind (hitem b (rest ++ r) depth hb (by rw [List.length_append]; omega))
    intro v _
    exact Yields.bind (ihitems hitems hrest (by omega)) (fun vs _ ↦ rfl)

theorem yields_entries {entries : List (Item × Item)}
    (ih : ∀ e ∈ entries, Decoded e.1 ∧ Decoded e.2) {body r : List UInt8}
    (hbody : EncodesEntries entries body) (hdepth : body.length + r.length ≤ depth) :
    Yields (parseEntries (parseOne depth) entries.length) (body ++ r) (entriesOf entries) r := by
  induction entries generalizing body with
  | nil =>
    obtain rfl : body = [] := hbody
    rfl
  | cons e entries ihentries =>
    obtain ⟨k, v⟩ := e
    obtain ⟨⟨hk, hv⟩, hentries⟩ := List.forall_mem_cons.mp ih
    obtain ⟨b, c, rest, hb, hc, hrest, rfl⟩ := hbody
    rw [List.length_append, List.length_append] at hdepth
    rw [List.append_assoc, List.append_assoc]
    apply Yields.bind (hk b (c ++ (rest ++ r)) depth hb (by simp only [List.length_append]; omega))
    intro x _
    apply Yields.bind (hv c (rest ++ r) depth hc (by rw [List.length_append]; omega))
    intro y _
    exact Yields.bind (ihentries hentries hrest (by omega)) (fun es _ ↦ rfl)

/-- The decoder reads every encoding of an item with definite lengths to the
value of the item, stops right after it, and fails exactly for the items it has
no value for. -/
theorem decoded (item : Item) : Decoded item := by
  induction item using Item.induction with
  | huint n =>
    intro bs r depth hbs hdepth
    exact yields_head (by omega) hbs hdepth (fun inner _ ↦ rfl)
  | hnegint n =>
    intro bs r depth hbs hdepth
    apply yields_head (by omega) hbs hdepth
    intro inner _
    exact yields_bounded _ (fun _ ↦ rfl)
  | hbytes b =>
    intro bs r depth hbs hdepth
    obtain ⟨h, hh, rfl⟩ := hbs
    apply yields_headed (by omega) hh hdepth
    intro inner _
    exact (yields_takeBytes b r).map CborValue.bytes
  | htext s =>
    intro bs r depth hbs hdepth
    obtain ⟨h, hh, rfl⟩ := hbs
    apply yields_headed (by omega) hh hdepth
    intro inner _
    exact yields_parseText s r
  | harray items ih =>
    intro bs r depth hbs hdepth
    obtain ⟨h, body, hh, hbody, rfl⟩ := hbs
    apply yields_headed (by omega) hh hdepth
    intro inner hinner
    exact yields_bounded _ (fun _ ↦ (yields_items ih hbody hinner).map CborValue.array)
  | hmap entries ih =>
    intro bs r depth hbs hdepth
    obtain ⟨h, body, hh, hbody, rfl⟩ := hbs
    apply yields_headed (by omega) hh hdepth
    intro inner hinner
    exact yields_bounded _ (fun _ ↦ (yields_entries ih hbody hinner).map CborValue.map)
  | htag t item ih =>
    intro bs r depth hbs hdepth
    obtain ⟨h, body, hh, -, rfl⟩ := hbs
    apply yields_headed (by omega) hh hdepth
    intro inner _
    exact ⟨_, rfl⟩
  | hsimple v =>
    intro bs r depth hbs hdepth
    exact yields_head (by omega) (head_of_simple hbs) hdepth (fun inner _ ↦ ⟨_, rfl⟩)
  | hfloat bits =>
    intro bs r depth hbs hdepth
    obtain ⟨hhead, hpos⟩ := readHead_float hbs r
    exact yields_readHead hhead hpos hdepth (fun inner _ ↦ ⟨_, rfl⟩)

theorem parseCbor_of_encodes {item : Item} {bs : List UInt8} (h : Encodes item bs)
    (r : List UInt8) :
    match valueOf item with
    | some v => parseCbor (bs ++ r) = .ok (v, bs.length)
    | none => ∃ e, parseCbor (bs ++ r) = .error e := by
  have hread := decoded item bs r (bs ++ r).length h (by rw [List.length_append])
  unfold Yields at hread
  unfold parseCbor
  cases hv : valueOf item with
  | none =>
    rw [hv] at hread
    obtain ⟨e, he⟩ := hread
    rw [he]
    exact ⟨e, rfl⟩
  | some v =>
    rw [hv] at hread
    have hlen : (bs ++ r).length - r.length = bs.length := by
      rw [List.length_append]
      omega
    rw [hread]
    show Except.ok (v, (bs ++ r).length - r.length) = _
    rw [hlen]

end Decode

section Encode

namespace CborValue

theorem induction {P : CborValue → Prop} (huint : ∀ n, P (uint n)) (hnegInt : ∀ n, P (negInt n))
    (hbytes : ∀ b, P (bytes b)) (htext : ∀ s, P (text s))
    (harray : ∀ items, (∀ x ∈ items, P x) → P (array items))
    (hmap : ∀ entries, (∀ e ∈ entries, P e.1 ∧ P e.2) → P (map entries)) : ∀ v, P v
  | uint n => huint n
  | negInt n => hnegInt n
  | bytes b => hbytes b
  | text s => htext s
  | array items => harray items (fun x _ ↦ induction huint hnegInt hbytes htext harray hmap x)
  | map entries => hmap entries (fun e _ ↦
      ⟨induction huint hnegInt hbytes htext harray hmap e.1,
        induction huint hnegInt hbytes htext harray hmap e.2⟩)
termination_by v => sizeOf v
decreasing_by
  · rename_i hx
    have := List.sizeOf_lt_of_mem hx
    simp
    omega
  · rename_i he
    have := List.sizeOf_lt_of_mem he
    rcases e with ⟨k, v⟩
    simp at this ⊢
    omega
  · rename_i he
    have := List.sizeOf_lt_of_mem he
    rcases e with ⟨k, v⟩
    simp at this ⊢
    omega

mutual

def Throughout (P : CborValue → Prop) : CborValue → Prop
  | array items => P (array items) ∧ ThroughoutItems P items
  | map entries => P (map entries) ∧ ThroughoutEntries P entries
  | v => P v

def ThroughoutItems (P : CborValue → Prop) : List CborValue → Prop
  | [] => True
  | item :: items => Throughout P item ∧ ThroughoutItems P items

def ThroughoutEntries (P : CborValue → Prop) : List (CborValue × CborValue) → Prop
  | [] => True
  | (k, v) :: entries => Throughout P k ∧ Throughout P v ∧ ThroughoutEntries P entries

end

/-- The bounds that the types of the source set: 64-bit integers, and vectors
and strings of at most `isize::MAX` bytes. -/
def Typed : CborValue → Prop :=
  Throughout (fun v ↦ match v with
    | uint n => n < 2 ^ 64
    | negInt n => -2 ^ 63 ≤ n ∧ n < 2 ^ 63
    | bytes b => b.length < 2 ^ 63
    | text s => (Encoding.bytes s).length < 2 ^ 63
    | array items => items.length < 2 ^ 63
    | map entries => entries.length < 2 ^ 63)

/-- Arrays and maps have at most the allowed number of entries, and negative
integers are negative. -/
def Allowed : CborValue → Prop :=
  Throughout (fun v ↦ match v with
    | negInt n => n < 0
    | array items => items.length ≤ 65536
    | map entries => entries.length ≤ 65536
    | _ => True)

mutual

def toItem : CborValue → Item
  | uint n => .uint n
  | negInt n => .negint ((-1 - n) % 2 ^ 64).toNat
  | bytes b => .bytes b
  | text s => .text s
  | array items => .array (toItems items)
  | map entries => .map (toEntries entries)

def toItems : List CborValue → List Item
  | [] => []
  | item :: items => toItem item :: toItems items

def toEntries : List (CborValue × CborValue) → List (Item × Item)
  | [] => []
  | (k, v) :: entries => (toItem k, toItem v) :: toEntries entries

end

@[simp] theorem length_toItems (items : List CborValue) : (toItems items).length = items.length := by
  induction items with
  | nil => rfl
  | cons item items ih => rw [toItems, List.length_cons, ih, List.length_cons]

@[simp] theorem length_toEntries (entries : List (CborValue × CborValue)) :
    (toEntries entries).length = entries.length := by
  induction entries with
  | nil => rfl
  | cons e entries ih => rw [toEntries, List.length_cons, ih, List.length_cons]

variable {P : CborValue → Prop}

variable {items : List CborValue}

theorem throughoutItems_iff :
    ThroughoutItems P items ↔ ∀ x ∈ items, Throughout P x := by
  induction items with
  | nil => simp [ThroughoutItems]
  | cons item items ih => rw [ThroughoutItems, ih, List.forall_mem_cons]

variable {entries : List (CborValue × CborValue)}

theorem throughoutEntries_iff :
    ThroughoutEntries P entries ↔ ∀ e ∈ entries, Throughout P e.1 ∧ Throughout P e.2 := by
  induction entries with
  | nil => simp [ThroughoutEntries]
  | cons e entries ih => rw [ThroughoutEntries, ih, List.forall_mem_cons, and_assoc]

end CborValue

open CborValue

theorem head_encodeHead {n : ℕ} (major : ℕ) (h : n < 2 ^ 64) : Head major n (encodeHead major n) := by
  unfold encodeHead Head
  split_ifs with h₀ h₁ h₂ h₃
  · exact .inl ⟨by omega, rfl⟩
  · exact .inr (.inl ⟨by omega, rfl⟩)
  · exact .inr (.inr (.inl ⟨by omega, rfl⟩))
  · exact .inr (.inr (.inr (.inl ⟨by omega, rfl⟩)))
  · exact .inr (.inr (.inr (.inr ⟨by omega, rfl⟩)))

theorem encodesItems_toItems (h : ∀ x ∈ items, Encodes (toItem x) (encodeCbor x)) :
    EncodesItems (toItems items) (encodeItems items) := by
  induction items with
  | nil => rfl
  | cons item items ih =>
    obtain ⟨hitem, hitems⟩ := List.forall_mem_cons.mp h
    exact ⟨_, _, hitem, ih hitems, rfl⟩

theorem encodesEntries_toEntries (h : ∀ e ∈ entries, Encodes (toItem e.1) (encodeCbor e.1) ∧
      Encodes (toItem e.2) (encodeCbor e.2)) :
    EncodesEntries (toEntries entries) (encodeEntries entries) := by
  induction entries with
  | nil => rfl
  | cons e entries ih =>
    obtain ⟨⟨hk, hv⟩, hentries⟩ := List.forall_mem_cons.mp h
    exact ⟨_, _, _, hk, hv, ih hentries, rfl⟩

variable {v : CborValue}

theorem encodes_encodeCbor (h : v.Typed) : Encodes (toItem v) (encodeCbor v) := by
  induction v using CborValue.induction with
  | huint n => exact head_encodeHead 0 h
  | hnegInt n => exact head_encodeHead 1 (by omega)
  | hbytes b => exact ⟨_, head_encodeHead 2 (Nat.lt_trans h (by norm_num)), rfl⟩
  | htext s => exact ⟨_, head_encodeHead 3 (Nat.lt_trans h (by norm_num)), rfl⟩
  | harray items ih =>
    obtain ⟨hlen, hitems⟩ := h
    have hlen : items.length < 2 ^ 63 := hlen
    refine ⟨_, _, ?_, encodesItems_toItems
      (fun x hx ↦ ih x hx (throughoutItems_iff.mp hitems x hx)), rfl⟩
    rw [length_toItems]
    exact head_encodeHead 4 (by omega)
  | hmap entries ih =>
    obtain ⟨hlen, hentries⟩ := h
    have hlen : entries.length < 2 ^ 63 := hlen
    have heach := throughoutEntries_iff.mp hentries
    refine ⟨_, _, ?_, encodesEntries_toEntries
      (fun e he ↦ ⟨(ih e he).1 (heach e he).1, (ih e he).2 (heach e he).2⟩), rfl⟩
    rw [length_toEntries]
    exact head_encodeHead 5 (by omega)

theorem valuesOf_toItems (h : ∀ x ∈ items, valueOf (toItem x) = some x) :
    valuesOf (toItems items) = some items := by
  induction items with
  | nil => rfl
  | cons item items ih =>
    obtain ⟨hitem, hitems⟩ := List.forall_mem_cons.mp h
    rw [toItems, valuesOf, hitem, ih hitems]
    rfl

theorem entriesOf_toEntries
    (h : ∀ e ∈ entries, valueOf (toItem e.1) = some e.1 ∧ valueOf (toItem e.2) = some e.2) :
    entriesOf (toEntries entries) = some entries := by
  induction entries with
  | nil => rfl
  | cons e entries ih =>
    obtain ⟨⟨hk, hv⟩, hentries⟩ := List.forall_mem_cons.mp h
    rw [toEntries, entriesOf, hk, hv, ih hentries]
    rfl

theorem valueOf_toItem (htyped : v.Typed) (h : v.Allowed) :
    valueOf (toItem v) = some v := by
  induction v using CborValue.induction with
  | huint n | hbytes b | htext s => rfl
  | hnegInt n =>
    have hlow : -2 ^ 63 ≤ n ∧ n < 2 ^ 63 := htyped
    have hneg : n < 0 := h
    have hmod : (-1 - n) % 2 ^ 64 = -1 - n := Int.emod_eq_of_lt (by omega) (by omega)
    rw [toItem, hmod, valueOf, if_pos (by omega)]
    congr 2
    omega
  | harray items ih =>
    obtain ⟨-, htypedItems⟩ := htyped
    obtain ⟨hlen, hitems⟩ := h
    have hlen : items.length ≤ 65536 := hlen
    have heach := valuesOf_toItems (fun x hx ↦ ih x hx (throughoutItems_iff.mp htypedItems x hx)
      (throughoutItems_iff.mp hitems x hx))
    rw [toItem, valueOf, length_toItems, if_pos hlen, heach]
    rfl
  | hmap entries ih =>
    obtain ⟨-, htypedEntries⟩ := htyped
    obtain ⟨hlen, hentries⟩ := h
    have hlen : entries.length ≤ 65536 := hlen
    have ht := throughoutEntries_iff.mp htypedEntries
    have ha := throughoutEntries_iff.mp hentries
    have heach := entriesOf_toEntries (fun e he ↦
      ⟨(ih e he).1 (ht e he).1 (ha e he).1, (ih e he).2 (ht e he).2 (ha e he).2⟩)
    rw [toItem, valueOf, length_toEntries, if_pos hlen, heach]
    rfl

theorem parseCbor_encodeCbor (htyped : v.Typed) (h : v.Allowed) (r : List UInt8) :
    parseCbor (encodeCbor v ++ r) = .ok (v, (encodeCbor v).length) := by
  have hread := parseCbor_of_encodes (encodes_encodeCbor htyped) r
  rw [valueOf_toItem htyped h] at hread
  exact hread

theorem sigStructure_allowed {p q : List UInt8} (hp : p.length < 2 ^ 63) (hq : q.length < 2 ^ 63) :
    (CborValue.array [.text "Signature1", .bytes p, .bytes [], .bytes q]).Typed ∧
    (CborValue.array [.text "Signature1", .bytes p, .bytes [], .bytes q]).Allowed := by
  have hcontext : (Encoding.bytes "Signature1").length < 2 ^ 63 := by decide +kernel
  constructor
  · exact ⟨by simp, hcontext, hp, Nat.two_pow_pos 63, hq, trivial⟩
  · exact ⟨by simp, trivial, trivial, trivial, trivial, trivial⟩

/-- Every value of the supported type is read back from its encoding, whatever
follows it, and what is signed determines both its parts. -/
theorem cbor_round_trip :
    (∀ (v : CborValue) (r : List UInt8), v.Typed → v.Allowed →
      parseCbor (encodeCbor v ++ r) = .ok (v, (encodeCbor v).length)) ∧
    ∀ p q p' q' : List UInt8, p.length < 2 ^ 63 → q.length < 2 ^ 63 → p'.length < 2 ^ 63 →
      q'.length < 2 ^ 63 → buildSigStructure p q = buildSigStructure p' q' → p = p' ∧ q = q' := by
  refine ⟨fun v r htyped h ↦ parseCbor_encodeCbor htyped h r, ?_⟩
  intro p q p' q' hp hq hp' hq' he
  obtain ⟨htyped, hallowed⟩ := sigStructure_allowed hp hq
  obtain ⟨htyped', hallowed'⟩ := sigStructure_allowed hp' hq'
  have hread := parseCbor_encodeCbor htyped hallowed []
  have hread' := parseCbor_encodeCbor htyped' hallowed' []
  unfold buildSigStructure at he
  rw [he, hread'] at hread
  injection hread with hread
  injection hread with hvalue
  injection hvalue with hitems
  simp only [List.cons.injEq, CborValue.bytes.injEq, true_and, and_true] at hitems
  exact ⟨hitems.1.symm, hitems.2.symm⟩

namespace Demo

def header : CborValue :=
  .map [(.uint 1, .negInt (-35)), (.text "x5chain", .array [.bytes [0x30, 0x82], .uint 70000])]

end Demo

theorem cbor_round_trip_header :
    parseCbor (encodeCbor Demo.header ++ [0xff, 0x00]) =
      .ok (Demo.header, (encodeCbor Demo.header).length) := by
  apply cbor_round_trip.1
  · have hkey : (Encoding.bytes "x5chain").length < 2 ^ 63 := by decide +kernel
    have hcert : [(0x30 : UInt8), 0x82].length < 2 ^ 63 := by norm_num
    have hnumber : 70000 < 2 ^ 64 := by norm_num
    exact ⟨by simp, Nat.one_lt_two_pow (by omega), ⟨by norm_num, by norm_num⟩, hkey,
      ⟨by simp, hcert, hnumber, trivial⟩, trivial⟩
  · have hneg : (-35 : ℤ) < 0 := by norm_num
    exact ⟨by simp, trivial, hneg, trivial, ⟨by simp, trivial, trivial, trivial⟩, trivial⟩

end Encode

end SauronId.Attestation
