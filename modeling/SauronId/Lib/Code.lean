import SauronId.Lib.Joined
import SauronId.Lib.Text

namespace SauronId.Lib.Code

open Lib.Encoding Lib.Joined Lib.Text

variable {α β γ κ μ : Type}

/-- The code of a value can be read off the front of any text, and tells the key
of the value. -/
def Reads (code : α → List γ) (key : α → κ) : Prop :=
  ∀ a b x y, code a ++ x = code b ++ y → key a = key b ∧ x = y

variable {code : α → List γ} {key : α → κ} {rest : α → List γ} {tail : α → μ}

theorem Reads.key_eq (h : Reads code key) {a b : α} (he : code a = code b) : key a = key b := by
  refine (h a b [] [] ?_).1
  rw [he]

theorem Reads.of_decode {decode : List γ → Option (κ × List γ)}
    (h : ∀ a x, decode (code a ++ x) = some (key a, x)) : Reads code key := by
  intro a b x y he
  have ha := h a x
  rw [he, h b y] at ha
  exact Prod.mk.inj (Option.some.inj ha.symm)

theorem Reads.comap (h : Reads code key) (u : β → α) :
    Reads (fun b ↦ code (u b)) (fun b ↦ key (u b)) :=
  fun a b ↦ h (u a) (u b)

theorem reads_text (l : List γ) : Reads (fun _ : α ↦ l) (fun _ ↦ ()) :=
  fun _ _ _ _ he ↦ ⟨rfl, List.append_cancel_left he⟩

theorem Reads.append (h : Reads code key) (hrest : Reads rest tail) :
    Reads (fun a ↦ code a ++ rest a) (fun a ↦ (key a, tail a)) := by
  intro a b x y he
  rw [List.append_assoc, List.append_assoc] at he
  obtain ⟨hkey, he⟩ := h a b _ _ he
  obtain ⟨htail, hxy⟩ := hrest a b x y he
  exact ⟨Prod.ext hkey htail, hxy⟩

theorem Reads.text_append (l : List γ) (h : Reads code key) : Reads (fun a ↦ l ++ code a) key := by
  intro a b x y he
  rw [List.append_assoc, List.append_assoc] at he
  exact h a b x y (List.append_cancel_left he)

theorem Reads.stopped [DecidableEq γ] {stop : γ} (hstop : ∀ a, stop ∉ code a)
    (hinj : ∀ a b, code a = code b → key a = key b) : Reads (fun a ↦ code a ++ [stop]) key := by
  intro a b x y he
  rw [List.append_assoc, List.append_assoc] at he
  have hcount : (code a).count stop = (code b).count stop := by
    rw [List.count_eq_zero.mpr (hstop a), List.count_eq_zero.mpr (hstop b)]
  obtain ⟨hcode, hxy⟩ := append_sep_inj hcount he
  exact ⟨hinj a b hcode, hxy⟩

theorem Reads.list {code : α → List γ} (h : Reads code id) {stop : γ}
    (hstart : ∀ a, ∃ c l, code a = c :: l ∧ c ≠ stop) :
    Reads (fun l : List α ↦ l.flatMap code ++ [stop]) id := by
  intro l m x y he
  induction l generalizing m with
  | nil =>
    cases m with
    | nil => exact ⟨rfl, (List.cons.inj he).2⟩
    | cons b m =>
      obtain ⟨c, t, hb, hc⟩ := hstart b
      simp only [List.flatMap_nil, List.flatMap_cons, hb, List.nil_append, List.cons_append,
        List.cons.injEq] at he
      exact absurd he.1.symm hc
  | cons a l ih =>
    cases m with
    | nil =>
      obtain ⟨c, t, ha, hc⟩ := hstart a
      simp only [List.flatMap_nil, List.flatMap_cons, ha, List.nil_append, List.cons_append,
        List.cons.injEq] at he
      exact absurd he.1 hc
    | cons b m =>
      simp only [List.flatMap_cons, List.append_assoc] at he
      obtain ⟨rfl, htail⟩ := h a b _ _ he
      obtain ⟨rfl, hxy⟩ := ih m (by simpa only [List.append_assoc] using htail)
      exact ⟨rfl, hxy⟩

theorem Reads.separated {code : α → List γ} (h : Reads code id) (sep stop : γ) (hne : sep ≠ stop)
    (hstart : ∀ a, ∃ c l, code a = c :: l ∧ c ≠ stop) :
    Reads (fun l : List α ↦ [sep].intercalate (l.map code) ++ [stop]) id := by
  -- past the first value, each value stands behind a separator
  have htail : Reads (fun l : List α ↦ l.flatMap (fun a ↦ sep :: code a) ++ [stop]) id :=
    Reads.list (h.text_append [sep]) (fun a ↦ ⟨sep, code a, rfl, hne⟩)
  have hcons : ∀ (a : α) (l : List α), [sep].intercalate ((a :: l).map code) =
      code a ++ l.flatMap (fun a ↦ sep :: code a) := by
    intro a l
    induction l generalizing a with
    | nil => simp
    | cons b l ih =>
      rw [List.map_cons, List.map_cons, List.intercalate_cons_cons, ← List.map_cons, ih,
        List.flatMap_cons]
      simp
  intro l m x y he
  cases l with
  | nil =>
    cases m with
    | nil => exact ⟨rfl, List.append_cancel_left he⟩
    | cons b m =>
      obtain ⟨c, t, hb, hc⟩ := hstart b
      simp only [List.map_nil, List.intercalate_nil, hcons, hb, List.nil_append, List.cons_append,
        List.cons.injEq] at he
      exact absurd he.1.symm hc
  | cons a l =>
    cases m with
    | nil =>
      obtain ⟨c, t, ha, hc⟩ := hstart a
      simp only [List.map_nil, List.intercalate_nil, hcons, ha, List.nil_append, List.cons_append,
        List.cons.injEq] at he
      exact absurd he.1 hc
    | cons b m =>
      simp only [hcons, List.append_assoc] at he
      obtain ⟨hab, he⟩ := h a b _ _ he
      obtain ⟨hlm, hxy⟩ := htail l m x y (by simpa only [List.append_assoc] using he)
      exact ⟨congrArg₂ List.cons hab hlm, hxy⟩

/-! ### JSON -/

def unescape : List Char → Option (Char × List Char)
  | '\\' :: 'u' :: '0' :: '0' :: high :: low :: x =>
    (hexDecodeChars [high, low]).bind (fun bs ↦ bs.head?.map (fun b ↦ (Char.ofNat b.toNat, x)))
  | '\\' :: 'b' :: x => some (Char.ofNat 0x08, x)
  | '\\' :: 'f' :: x => some (Char.ofNat 0x0C, x)
  | '\\' :: 'n' :: x => some (Char.ofNat 0x0A, x)
  | '\\' :: 'r' :: x => some (Char.ofNat 0x0D, x)
  | '\\' :: 't' :: x => some (Char.ofNat 0x09, x)
  | '\\' :: c :: x => some (c, x)
  | c :: x => some (c, x)
  | [] => none

theorem eq_ofNat_of_toNat {c : Char} {n : ℕ} (h : c.toNat = n) : c = Char.ofNat n := by
  rw [← h, Char.ofNat_toNat]

theorem unescape_escapeChar (c : Char) (x : List Char) :
    unescape ((escapeChar c).toList ++ x) = some (c, x) := by
  unfold escapeChar
  split_ifs with h₁ h₂ h₃ h₄ h₅ h₆ h₇ h₈
  · rw [eq_ofNat_of_toNat h₁]
    rfl
  · rw [eq_ofNat_of_toNat h₂]
    rfl
  · rw [eq_ofNat_of_toNat h₃]
    rfl
  · rw [eq_ofNat_of_toNat h₄]
    rfl
  · rw [eq_ofNat_of_toNat h₅]
    rfl
  · rw [eq_ofNat_of_toNat h₆]
    rfl
  · rw [eq_ofNat_of_toNat h₇]
    rfl
  · have hctl : ∀ n < 0x20, unescape (("\\u00" ++ hexEncode [UInt8.ofNat n]).toList ++ x) =
        some (Char.ofNat n, x) := by
      intro n hn
      interval_cases n <;> rfl
    rw [hctl _ h₈, Char.ofNat_toNat]
  · have hplain : c ≠ '\\' := by
      rintro rfl
      exact h₂ rfl
    rw [String.toList_ofList, List.singleton_append]
    unfold unescape
    split <;> simp_all

theorem escapeChar_start (c : Char) : ∃ d l, (escapeChar c).toList = d :: l ∧ d ≠ '"' := by
  unfold escapeChar
  split_ifs with h₁ h₂ h₃ h₄ h₅ h₆ h₇ h₈
  any_goals exact ⟨'\\', _, rfl, by decide⟩
  · exact ⟨'\\', _, String.toList_append, by decide⟩
  · refine ⟨c, [], String.toList_ofList, ?_⟩
    rintro rfl
    exact h₁ rfl

theorem reads_jsonStr : Reads (fun s ↦ (jsonStr s).toList) (id : String → String) := by
  have hchar : Reads (fun c ↦ (escapeChar c).toList) id := .of_decode unescape_escapeChar
  have hlist := ((hchar.list escapeChar_start).text_append ['"']).comap String.toList
  have hcode : (fun s ↦ (jsonStr s).toList) = fun s : String ↦
      ['"'] ++ (s.toList.flatMap (fun c ↦ (escapeChar c).toList) ++ ['"']) := by
    funext s
    simp only [jsonStr, String.toList_append, String.toList_join, List.flatMap_map,
      List.append_assoc]
    rfl
  intro s t x y he
  obtain ⟨hst, hxy⟩ := hlist s t x y (hcode ▸ he)
  exact ⟨String.toList_inj.mp hst, hxy⟩

theorem reads_intText {stop : Char} (hdigit : stop.isDigit = false) (hsign : stop ≠ '-') :
    Reads (fun n : ℤ ↦ (toString n).toList ++ [stop]) (id : ℤ → ℤ) := by
  refine .stopped (fun n hn ↦ ?_) (fun m n h ↦ toString_int_injective (String.toList_inj.mp h))
  rcases mem_toString_int hn with h | h
  · rw [hdigit] at h
    cases h
  · exact hsign h

theorem jsonStr_start (s : String) : ∃ l, (jsonStr s).toList = '"' :: l :=
  ⟨_, by rw [jsonStr, String.toList_append, String.toList_append]; rfl⟩

theorem reads_jsonStrs : Reads (fun l : List String ↦ (",".intercalate (l.map jsonStr)).toList ++
    [']']) id := by
  have hlist := reads_jsonStr.separated ',' ']' (by decide) (fun s ↦ by
    obtain ⟨l, hl⟩ := jsonStr_start s
    exact ⟨'"', l, hl, by decide⟩)
  simp only [String.toList_intercalate, List.map_map]
  exact hlist

/-- The value can be read off any text that starts with the text of the value. -/
def ReadsText (text : β → String) (view : β → μ) : Prop := Reads (fun b ↦ (text b).toList) view

theorem readsText_start (name : String) : ReadsText (fun _ : β ↦ name) (fun _ ↦ ()) :=
  reads_text name.toList

theorem ReadsText.view_eq {text : β → String} {view : β → μ} (h : ReadsText text view) {a b : β}
    (he : text a = text b) : view a = view b :=
  Reads.key_eq h (congrArg String.toList he)

section Texts

variable {front value : β → String} {view : β → μ} {key : β → κ} (h : ReadsText front view)
include h

theorem ReadsText.text (l : String) : ReadsText (fun b ↦ front b ++ l) view := by
  intro a b x y he
  simp only [String.toList_append, List.append_assoc] at he
  obtain ⟨hview, he⟩ := h a b _ _ he
  exact ⟨hview, List.append_cancel_left he⟩

theorem ReadsText.str (field : β → String) :
    ReadsText (fun b ↦ front b ++ jsonStr (field b)) (fun b ↦ (view b, field b)) := by
  unfold ReadsText
  simp only [String.toList_append]
  exact Reads.append h (reads_jsonStr.comap field)

theorem ReadsText.member (name : String) (field : β → String) :
    ReadsText (fun b ↦ front b ++ name ++ jsonStr (field b)) (fun b ↦ (view b, field b)) :=
  (h.text name).str field

theorem ReadsText.until {c : Char} (hvalue : Reads (fun b ↦ (value b).toList ++ [c]) key)
    (stop : String) (hstop : stop.toList.head? = some c) :
    ReadsText (fun b ↦ front b ++ value b ++ stop) (fun b ↦ (view b, key b)) := by
  obtain ⟨l, hl⟩ := List.head?_eq_some_iff.mp hstop
  intro a b x y he
  simp only [String.toList_append, List.append_assoc, hl, List.cons_append] at he
  obtain ⟨hview, he⟩ := h a b _ _ he
  rw [List.append_cons (value a).toList, List.append_cons (value b).toList] at he
  obtain ⟨hkey, he⟩ := hvalue a b _ _ he
  exact ⟨Prod.ext hview hkey, List.append_cancel_left he⟩

theorem ReadsText.int (field : β → ℤ) (stop : String) {c : Char}
    (hstop : stop.toList.head? = some c) (hc : c.isDigit = false ∧ c ≠ '-') :
    ReadsText (fun b ↦ front b ++ toString (field b) ++ stop) (fun b ↦ (view b, field b)) :=
  h.until ((reads_intText hc.1 hc.2).comap field) stop hstop

theorem ReadsText.strs (field : β → List String) (stop : String)
    (hstop : stop.toList.head? = some ']') :
    ReadsText (fun b ↦ front b ++ ",".intercalate ((field b).map jsonStr) ++ stop)
      (fun b ↦ (view b, field b)) :=
  h.until (reads_jsonStrs.comap field) stop hstop

end Texts

end SauronId.Lib.Code
