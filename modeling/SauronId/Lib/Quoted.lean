import SauronId.Lib.Replace
import SauronId.Lib.Text

namespace SauronId.Lib

/-! Texts with quoted parts, as in SQL: a single or a double quotation mark opens a part that the
next mark of the same kind closes. -/

/-- Which part of a text a place is in. -/
inductive Quote
  | outside
  | single
  | double
  deriving DecidableEq

namespace Quote

def step : Quote → Char → Quote
  | outside, c => if c = '\'' then single else if c = '"' then double else outside
  | single, c => if c = '\'' then outside else single
  | double, c => if c = '"' then outside else double

def after (q : Quote) (t : List Char) : Quote := t.foldl step q

end Quote

open Quote
open Text (toLower_eq_iff)

def isMark (c : Char) : Bool := c = '\'' ∨ c = '"'

def Unquoted (t : List Char) : Prop := ∀ c ∈ t, isMark c = false

instance (t : List Char) : Decidable (Unquoted t) :=
  decidable_of_iff (t.all (fun c ↦ !isMark c) = true) (by simp [Unquoted])

def quotedText : Quote → List Char → List Char
  | _, [] => []
  | q, c :: t =>
    if q = outside ∧ q.step c = outside then quotedText (q.step c) t
    else c :: quotedText (q.step c) t

section Reading

variable {q : Quote} {c : Char} {s t : List Char}

theorem step_of_not_isMark (h : isMark c = false) : q.step c = q := by
  have hc : ¬ c = '\'' ∧ ¬ c = '"' := by simpa [isMark] using h
  cases q <;> simp [step, hc]

theorem after_append : q.after (s ++ t) = (q.after s).after t := List.foldl_append

theorem after_of_unquoted (h : Unquoted s) : q.after s = q := by
  induction s with
  | nil => rfl
  | cons c s ih =>
    rw [Unquoted, List.forall_mem_cons] at h
    rw [after, List.foldl_cons, step_of_not_isMark h.1]
    exact ih h.2

theorem quotedText_append :
    quotedText q (s ++ t) = quotedText q s ++ quotedText (q.after s) t := by
  induction s generalizing q with
  | nil => rfl
  | cons c s ih =>
    simp only [List.cons_append, quotedText]
    split_ifs
    · exact ih
    · rw [ih]
      rfl

theorem quotedText_of_unquoted (h : Unquoted s) :
    quotedText q s = if q = outside then [] else s := by
  induction s with
  | nil => simp [quotedText]
  | cons c s ih =>
    rw [Unquoted, List.forall_mem_cons] at h
    rw [quotedText, step_of_not_isMark h.1, ih h.2]
    by_cases hq : q = outside <;> simp [hq]

end Reading

/-! ### Replacing a text without marks -/

section Replace

variable {q : Quote} {n : List Char} {r t : List Char}

theorem isMark_toLower (c : Char) : isMark c.toLower = isMark c := by
  simp only [isMark, toLower_eq_iff (d := '\'') (by decide), toLower_eq_iff (d := '"') (by decide)]

theorem step_toLower (q : Quote) (c : Char) : q.step c.toLower = q.step c := by
  cases q <;> simp only [step, toLower_eq_iff (d := '\'') (by decide),
    toLower_eq_iff (d := '"') (by decide)]

theorem after_toLower (q : Quote) (s : List Char) : q.after (s.map Char.toLower) = q.after s := by
  simp only [after, List.foldl_map, step_toLower]

theorem unquoted_of_map {s : List Char} (h : s.map Char.toLower = n) (hn : Unquoted n) :
    Unquoted s := by
  subst h
  intro c hc
  rw [← isMark_toLower]
  exact hn _ (List.mem_map_of_mem hc)

theorem begins_quotedText (hn : Unquoted n) (hq : q ≠ outside) :
    Begins Char.toLower n (quotedText q t) ↔ Begins Char.toLower n t := by
  induction t generalizing n with
  | nil => rfl
  | cons c t ih =>
    rw [quotedText, if_neg (fun h ↦ hq h.1)]
    cases n with
    | nil => simp
    | cons b n =>
      rw [Unquoted, List.forall_mem_cons] at hn
      rw [begins_cons, begins_cons]
      refine and_congr_right fun hb ↦ ?_
      rw [step_of_not_isMark (by rw [← isMark_toLower, ← hb, hn.1]), ih hn.2]

theorem quotedText_replace (hn : n ≠ []) (hquote : Unquoted n) (hr : Unquoted r) :
    quotedText q (replace Char.toLower n r t) = replace Char.toLower n r (quotedText q t) := by
  induction t using replace_induction Char.toLower hn generalizing q with
  | nil => rfl
  | hit s t hs ih =>
    have hs' := unquoted_of_map hs hquote
    rw [replace_hit hn hs, quotedText_append, quotedText_append, after_of_unquoted hr,
      after_of_unquoted hs', quotedText_of_unquoted hr, quotedText_of_unquoted hs', ih]
    split_ifs
    · rfl
    · rw [replace_hit hn hs]
  | keep c t hk ih =>
    rw [replace_keep hk, quotedText, quotedText, ih]
    split_ifs with hout
    · rfl
    · rw [replace_keep]
      -- a mark does not begin the needle, and within quotes the search sees what it saw before
      intro hb
      cases n with
      | nil => exact hn rfl
      | cons b n =>
        rw [begins_cons] at hb hk
        rw [Unquoted, List.forall_mem_cons] at hquote
        have hc : isMark c = false := by rw [← isMark_toLower, ← hb.1, hquote.1]
        rw [step_of_not_isMark hc] at hb hout
        refine hk ⟨hb.1, (begins_quotedText hquote.2 ?_).mp hb.2⟩
        exact fun hq ↦ hout ⟨hq, hq⟩

end Replace

end SauronId.Lib
