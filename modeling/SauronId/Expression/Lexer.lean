import SauronId.Expression.Completeness
import Mathlib.Data.String.Basic

namespace SauronId.Expression

open Lib Lib.Descent String

variable {ν : Type}

inductive LexError
  | unexpectedChar (ch : Char) (pos : ℕ)
  | unterminatedString (pos : ℕ)
  | invalidNumber (src : String) (pos : ℕ)

def isAsciiWhitespace (c : Char) : Bool :=
  c == ' ' || c == '\t' || c == '\n' || c == '\x0c' || c == '\r'

def isWordStart (c : Char) : Bool := c.isAlpha || c == '_'

def isWordChar (c : Char) : Bool := c.isAlphanum || c == '_'

-- A dot belongs to a word only if another segment starts after it.
def inWord (c : Char) (cs : List Char) : Bool :=
  isWordChar c || c == '.' && cs.head?.any isWordStart

def inNumber (c : Char) (_ : List Char) : Bool := c.isDigit || c == '.'

def inString (c : Char) (_ : List Char) : Bool := c != '\''

def symbol : Char → Option (Token ν)
  | '(' => some .lparen
  | ')' => some .rparen
  | '[' => some .lbracket
  | ']' => some .rbracket
  | ',' => some .comma
  | ':' => some .colon
  | '+' => some (.op .add)
  | '-' => some (.op .sub)
  | '!' => some .not
  | '<' => some (.op .lt)
  | '>' => some (.op .gt)
  | _ => none

def symbolPair : Char → Char → Option (Token ν)
  | '=', '=' => some (.op .eq)
  | '!', '=' => some (.op .neq)
  | '<', '=' => some (.op .lte)
  | '>', '=' => some (.op .gte)
  | '&', '&' => some .and
  | '|', '|' => some .or
  | _, _ => none

def wordToken : String → Token ν
  | "true" => .true_
  | "false" => .false_
  | "and" => .and
  | "or" => .or
  | "not" => .not
  | "in" => .in_
  | word => .ident word

section Lex

-- `number` reads a literal of digits and dots.
variable (number : String → Option ν)

def lexLiteral (pos : ℕ) (c : Char) (cs : List Char) : Except LexError (Token ν × List Char) :=
  if c = '\'' then
    match scan inString cs with
    | (s, _ :: rest) => .ok (.str (ofList s), rest)
    | (_, []) => .error (.unterminatedString pos)
  else if c.isDigit = true then
    match number (ofList (c :: (scan inNumber cs).1)) with
    | some n => .ok (.num n, (scan inNumber cs).2)
    | none => .error (.invalidNumber (ofList (c :: (scan inNumber cs).1)) pos)
  else if isWordStart c = true then
    .ok (wordToken (ofList (c :: (scan inWord cs).1)), (scan inWord cs).2)
  -- the source shows the first byte of the character
  else .error (.unexpectedChar (.ofUInt8 ((utf8EncodeChar c).headD 0)) pos)

/-- The token that starts with `c`, at byte `pos`, and the text that is left. -/
def lexToken (pos : ℕ) (c : Char) (cs : List Char) : Except LexError (Token ν × List Char) :=
  match cs.head?.bind (symbolPair c), symbol c with
  | some t, _ => .ok (t, cs.tail)
  | none, some t => .ok (t, cs)
  | none, none => lexLiteral number pos c cs

/-- The loop of `lex`, in at most `n` rounds, from byte `pos` on. -/
def lexFrom : ℕ → ℕ → List Char → Except LexError (Tokens ν)
  | n + 1, pos, c :: cs =>
    if isAsciiWhitespace c = true then lexFrom n (pos + 1) cs
    else do
      let (t, rest) ← lexToken number pos c cs
      let toks ← lexFrom n (pos + (utf8Len (c :: cs) - utf8Len rest)) rest
      .ok (⟨t, pos⟩ :: toks)
  | _, _, _ => .ok []

def lex (input : String) : Except LexError (Tokens ν) :=
  lexFrom number input.toList.length 0 input.toList

/-- `parse` on a text. -/
def parseText (input : String) : Except (LexError ⊕ ParseError ν) (Expr ν) := do
  let toks ← (lex number input).mapError .inl
  (parse input.utf8ByteSize toks).mapError .inr

/-- A token is written `w` before the rest of the text, which does not carry it on. -/
inductive Spells : List Char → Token ν → List Char → Prop
  | symbol {c t rest} : rest.head?.bind (symbolPair (ν := ν) c) = none → symbol c = some t →
      Spells [c] t rest
  | pair {c d t rest} : symbolPair c d = some t → Spells [c, d] t rest
  | str {s rest} : scan inString (s ++ '\'' :: rest) = (s, '\'' :: rest) →
      Spells ('\'' :: (s ++ ['\''])) (.str (ofList s)) rest
  | num {c w n rest} : c.isDigit = true → scan inNumber (w ++ rest) = (w, rest) →
      number (ofList (c :: w)) = some n → Spells (c :: w) (.num n) rest
  | word {c w rest} : isWordStart c = true → scan inWord (w ++ rest) = (w, rest) →
      Spells (c :: w) (wordToken (ofList (c :: w))) rest

/-- The text from byte `pos` on is the written tokens, each at its position, and blanks. -/
inductive Laid : ℕ → List Char → Tokens ν → Prop
  | nil {pos} : Laid pos [] []
  | blank {pos c cs toks} : isAsciiWhitespace c = true → Laid (pos + 1) cs toks →
      Laid pos (c :: cs) toks
  | token {pos w rest t toks} : Spells number w t rest → Laid (pos + utf8Len w) rest toks →
      Laid pos (w ++ rest) (⟨t, pos⟩ :: toks)

end Lex

def startsLiteral (c : Char) : Bool := c == '\'' || c.isDigit || isWordStart c

theorem of_symbol {c : Char} {t : Token ν} (h : symbol c = some t) :
    startsLiteral c = false ∧ isAsciiWhitespace c = false := by
  unfold symbol at h
  split at h <;> first | exact ⟨rfl, rfl⟩ | cases h

theorem of_symbolPair {c d : Char} {t : Token ν} (h : symbolPair c d = some t) :
    startsLiteral c = false ∧ isAsciiWhitespace c = false := by
  unfold symbolPair at h
  split at h <;> first | exact ⟨rfl, rfl⟩ | cases h

theorem not_blank_of_startsLiteral {c : Char} (h : startsLiteral c = true) :
    isAsciiWhitespace c = false := by
  refine Bool.eq_false_iff.mpr (fun hblank ↦ ?_)
  simp only [isAsciiWhitespace, Bool.or_eq_true, beq_iff_eq] at hblank
  obtain (((rfl | rfl) | rfl) | rfl) | rfl := hblank <;> cases h

theorem not_isDigit_of_isWordStart {c : Char} (h : isWordStart c = true) : ¬c.isDigit = true := by
  simp only [isWordStart, Bool.or_eq_true, beq_iff_eq] at h
  obtain h | rfl := h
  · delta Char.isAlpha Char.isUpper Char.isLower at h
    grind [Char.isDigit]
  · decide

variable {number : String → Option ν} {pos : ℕ} {c : Char} {cs w rest : List Char} {t : Token ν}

theorem lexToken_of_startsLiteral (hc : startsLiteral c = true) :
    lexToken number pos c cs = lexLiteral number pos c cs := by
  have hsymbol : (symbol c : Option (Token ν)) = none := by
    refine Option.eq_none_iff_forall_ne_some.mpr (fun t ht ↦ ?_)
    exact absurd ((of_symbol ht).1.symm.trans hc) (by decide)
  have hpair : cs.head?.bind (symbolPair (ν := ν) c) = none := by
    refine Option.eq_none_iff_forall_ne_some.mpr (fun t ht ↦ ?_)
    obtain ⟨d, -, hd⟩ := Option.bind_eq_some_iff.mp ht
    exact absurd ((of_symbolPair hd).1.symm.trans hc) (by decide)
  rw [lexToken, hpair, hsymbol]

theorem lexLiteral_sound (h : lexLiteral number pos c cs = .ok (t, rest)) :
    ∃ w, c :: cs = w ++ rest ∧ Spells number w t rest := by
  have hscan {p : Char → List Char → Bool} := scan_append_scan (p := p) cs
  unfold lexLiteral at h
  split_ifs at h with hquote hdigit hstart
  · split at h
    · next s q rest' hs =>
      obtain ⟨rfl, rfl⟩ := Prod.mk.inj (Except.ok.inj h)
      have hq : q = '\'' := by simpa [inString] using stops_of_scan (congrArg Prod.snd hs)
      subst hquote hq
      have hcs : s ++ '\'' :: rest' = cs := by rw [← hscan (p := inString), hs]
      exact ⟨'\'' :: (s ++ ['\'']), by simp [← hcs], .str (hcs ▸ hs)⟩
    · cases h
  · split at h
    · next n hn =>
      obtain ⟨rfl, rfl⟩ := Prod.mk.inj (Except.ok.inj h)
      exact ⟨_, congrArg (c :: ·) hscan.symm, .num hdigit (by rw [hscan]) hn⟩
    · cases h
  · obtain ⟨rfl, rfl⟩ := Prod.mk.inj (Except.ok.inj h)
    exact ⟨_, congrArg (c :: ·) hscan.symm, .word hstart (by rw [hscan])⟩

theorem lexToken_sound (h : lexToken number pos c cs = .ok (t, rest)) :
    ∃ w, c :: cs = w ++ rest ∧ Spells number w t rest := by
  unfold lexToken at h
  split at h
  · next t' hpair =>
    obtain ⟨rfl, rfl⟩ := Prod.mk.inj (Except.ok.inj h)
    obtain ⟨d, hd, ht⟩ := Option.bind_eq_some_iff.mp hpair
    obtain ⟨cs, rfl⟩ := List.head?_eq_some_iff.mp hd
    exact ⟨[c, d], rfl, .pair ht⟩
  · next t' hpair hsymbol =>
    obtain ⟨rfl, rfl⟩ := Prod.mk.inj (Except.ok.inj h)
    exact ⟨[c], rfl, .symbol hpair hsymbol⟩
  · exact lexLiteral_sound h

theorem Spells.lexToken (h : Spells number w t rest) :
    ∃ c cs, w = c :: cs ∧ isAsciiWhitespace c = false ∧
      ∀ pos, lexToken number pos c (cs ++ rest) = .ok (t, rest) := by
  cases h with
  | @symbol c _ _ hpair h =>
    refine ⟨c, [], rfl, (of_symbol h).2, fun pos ↦ ?_⟩
    rw [List.nil_append, Expression.lexToken, hpair, h]
  | @pair c d _ _ h =>
    refine ⟨c, [d], rfl, (of_symbolPair h).2, fun pos ↦ ?_⟩
    have hpair : ([d] ++ rest).head?.bind (symbolPair (ν := ν) c) = some t := h
    rw [Expression.lexToken, hpair]
    rfl
  | @str s _ h =>
    refine ⟨'\'', s ++ ['\''], rfl, rfl, fun pos ↦ ?_⟩
    rw [lexToken_of_startsLiteral rfl, List.append_assoc, lexLiteral, if_pos rfl]
    simp only [List.cons_append, List.nil_append, h]
  | @num c cs n _ hc h hn =>
    have hstart : startsLiteral c = true := by simp [startsLiteral, hc]
    refine ⟨c, cs, rfl, not_blank_of_startsLiteral hstart, fun pos ↦ ?_⟩
    rw [lexToken_of_startsLiteral hstart, lexLiteral, if_neg (by rintro rfl; cases hc),
      if_pos hc, h, hn]
  | @word c cs _ hc h =>
    have hstart : startsLiteral c = true := by simp [startsLiteral, hc]
    refine ⟨c, cs, rfl, not_blank_of_startsLiteral hstart, fun pos ↦ ?_⟩
    rw [lexToken_of_startsLiteral hstart, lexLiteral, if_neg (by rintro rfl; cases hc),
      if_neg (not_isDigit_of_isWordStart hc), if_pos hc, h]

theorem lexFrom_eq_ok {n : ℕ} {toks : Tokens ν} (hn : cs.length ≤ n) :
    lexFrom number n pos cs = .ok toks ↔ Laid number pos cs toks := by
  constructor
  · intro h
    induction n generalizing pos cs toks with
    | zero =>
      obtain rfl := List.length_eq_zero_iff.mp (Nat.le_zero.mp hn)
      exact Except.ok.inj h ▸ .nil
    | succ n ih =>
      cases cs with
      | nil => exact Except.ok.inj h ▸ .nil
      | cons c cs =>
        rw [lexFrom] at h
        split_ifs at h with hblank
        · exact .blank hblank (ih (Nat.le_of_succ_le_succ hn) h)
        · obtain ⟨⟨t, rest⟩, ht, h⟩ := bind_eq_ok.mp h
          obtain ⟨toks, htoks, h⟩ := bind_eq_ok.mp h
          obtain rfl := Except.ok.inj h
          obtain ⟨w, hw, hspells⟩ := lexToken_sound ht
          obtain ⟨d, ds, rfl, -⟩ := hspells.lexToken
          have hlen := congrArg List.length hw
          simp only [List.length_cons, List.length_append] at hlen hn
          simp only [hw, utf8Len_append, Nat.add_sub_cancel] at htoks
          exact hw ▸ .token hspells (ih (by omega) htoks)
  · intro h
    induction h generalizing n with
    | nil => cases n <;> rfl
    | @blank pos c cs toks hblank _ ih =>
      obtain ⟨n, rfl⟩ := Nat.exists_eq_add_of_lt hn
      rw [lexFrom, if_pos hblank]
      exact ih (Nat.le_add_right _ _)
    | @token pos w rest t toks hspells _ ih =>
      obtain ⟨c, cs, rfl, hblank, hread⟩ := hspells.lexToken
      obtain ⟨n, rfl⟩ := Nat.exists_eq_add_of_lt hn
      have hsize : utf8Len ((c :: cs) ++ rest) - utf8Len rest = utf8Len (c :: cs) := by
        rw [utf8Len_append, Nat.add_sub_cancel]
      rw [List.cons_append, lexFrom, if_neg (by simp [hblank])]
      refine bind_eq_ok.mpr ⟨(t, rest), hread pos, bind_eq_ok.mpr ⟨toks, ?_, rfl⟩⟩
      exact hsize ▸ ih (by rw [List.append_eq, List.length_append]; omega)

/-- A text is accepted with a tree exactly if it lays out tokens that the grammar derives
the tree from. -/
theorem parseText_eq_ok {input : String} {e : Expr ν} :
    parseText number input = .ok e ↔
      ∃ toks, Laid number 0 input.toList toks ∧ Derives true .or (plain toks) e := by
  simp only [parseText, bind_eq_ok, mapError_eq_ok, parse_eq_ok, lex, lexFrom_eq_ok le_rfl]

end SauronId.Expression
