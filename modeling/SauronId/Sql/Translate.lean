import Mathlib.Data.List.DropRight
import SauronId.Lib.Quoted

namespace SauronId.Sql

open Lib Lib.Text

/-! ### The translation -/

def rewritePlaceholders (q : Quote) : List Char → List Char
  | [] => []
  | c :: rest =>
    (if q = .outside ∧ c = '?' ∧ rest.head?.any Char.isDigit then '$' else c) ::
      rewritePlaceholders (q.step c) rest

def insertInto : List Char := "INSERT INTO".toList

def orIgnore : List Char := "insert or ignore into".toList

def orReplace : List Char := "insert or replace into".toList

def onConflict : List Char := "on conflict".toList

def doNothing : List Char := " ON CONFLICT DO NOTHING".toList

def rewriteInsertOr (sql : List Char) : List Char :=
  let trimmed := sql.dropWhile isWhitespace
  if Begins Char.toLower orIgnore trimmed then
    let stmt := insertInto ++ trimmed.drop orIgnore.length
    if Contains Char.toLower onConflict stmt then stmt
    else (stmt.rdropWhile (· = ';')).rdropWhile isWhitespace ++ doNothing
  else if Begins Char.toLower orReplace trimmed ∧ Contains Char.toLower onConflict trimmed then
    insertInto ++ trimmed.drop orReplace.length
  else sql

def replaceAsciiCaseInsensitive (haystack : List Char) (needle replacement : String) :
    List Char :=
  if needle = "" then haystack
  else replace Char.toLower (needle.toList.map Char.toLower) replacement.toList haystack

def epoch : String := "EXTRACT(EPOCH FROM now())::bigint"

def rewriteEpoch (sql : List Char) : List Char :=
  let out := replaceAsciiCaseInsensitive sql "strftime('%s','now')" epoch
  replaceAsciiCaseInsensitive out "strftime('%s', 'now')" epoch

def rewriteFunctions (sql : List Char) : List Char :=
  rewriteEpoch (replaceAsciiCaseInsensitive sql "IFNULL(" "COALESCE(")

def rewriteTransactions (sql : List Char) : List Char :=
  let out := replaceAsciiCaseInsensitive sql "BEGIN IMMEDIATE TRANSACTION" "BEGIN"
  replaceAsciiCaseInsensitive out "BEGIN IMMEDIATE" "BEGIN"

def toPostgres (sql : String) : String :=
  String.ofList
    (rewriteTransactions (rewriteFunctions (rewriteInsertOr (rewritePlaceholders .outside sql.toList))))

example : toPostgres "INSERT OR IGNORE INTO t (a, b) VALUES (?1, ?2)" =
    "INSERT INTO t (a, b) VALUES ($1, $2) ON CONFLICT DO NOTHING" := by
  decide +kernel

example : toPostgres "SELECT ?1 WHERE msg = 'what?1 is this'" =
    "SELECT $1 WHERE msg = 'what?1 is this'" := by
  decide +kernel

/-! ### The passes as replacements -/

def ifnull : List Char := "ifnull(".toList

def strftime : List Char := "strftime('%s','now')".toList

def strftimeSpaced : List Char := "strftime('%s', 'now')".toList

def beginImmediateTransaction : List Char := "begin immediate transaction".toList

def beginImmediate : List Char := "begin immediate".toList

def coalesce : List Char := "COALESCE(".toList

def plainBegin : List Char := "BEGIN".toList

section Passes

variable {q : Quote} {t : List Char}

theorem rewriteEpoch_eq : rewriteEpoch t =
    replace Char.toLower strftimeSpaced epoch.toList
      (replace Char.toLower strftime epoch.toList t) := by
  rfl

theorem rewriteFunctions_eq :
    rewriteFunctions t = rewriteEpoch (replace Char.toLower ifnull coalesce t) := by
  rfl

theorem rewriteTransactions_eq : rewriteTransactions t =
    replace Char.toLower beginImmediate plainBegin
      (replace Char.toLower beginImmediateTransaction plainBegin t) := by
  rfl

theorem ifnull_independent :
    Independent Char.toLower ifnull strftime coalesce epoch.toList ∧
      Independent Char.toLower ifnull strftimeSpaced coalesce epoch.toList := by
  refine ⟨⟨?_, ?_, ?_, ?_, ?_, ?_⟩, ⟨?_, ?_, ?_, ?_, ?_, ?_⟩⟩ <;> decide +kernel

theorem rewriteEpoch_comm : rewriteEpoch (replace Char.toLower ifnull coalesce t) =
    replace Char.toLower ifnull coalesce (rewriteEpoch t) := by
  obtain ⟨h, hspaced⟩ := ifnull_independent
  rw [rewriteEpoch_eq, rewriteEpoch_eq, ← h.replace_comm (by decide) (by decide),
    ← hspaced.replace_comm (by decide) (by decide)]

end Passes

/-! ### Placeholders -/

structure Placeholder where
  mark : Char
  number : List Char
  deriving DecidableEq

def placeholders (q : Quote) : List Char → List Placeholder
  | [] => []
  | c :: t =>
    if q = .outside ∧ (c = '?' ∨ c = '$') then
      ⟨c, t.takeWhile Char.isDigit⟩ :: placeholders (q.step c) t
    else placeholders (q.step c) t

def Placeholder.toDollar (p : Placeholder) : Placeholder :=
  if p.mark = '?' ∧ p.number ≠ [] then ⟨'$', p.number⟩ else p

def Plain (s : List Char) : Prop := ∀ c ∈ s, c ≠ '?' ∧ c ≠ '$'

instance (s : List Char) : Decidable (Plain s) :=
  decidable_of_iff (s.all (fun c ↦ c ≠ '?' ∧ c ≠ '$') = true) (by simp [Plain])

section Placeholders

variable {q : Quote} {c : Char} {n r s t z : List Char}

theorem takeWhile_rewritePlaceholders :
    (rewritePlaceholders q t).takeWhile Char.isDigit = t.takeWhile Char.isDigit := by
  induction t generalizing q with
  | nil => rfl
  | cons c t ih =>
    rw [rewritePlaceholders]
    split_ifs with hc
    · rw [hc.2.1]
      rfl
    · simp only [List.takeWhile_cons, ih]

theorem step_question (q : Quote) : q.step '?' = q ∧ q.step '$' = q := by
  cases q <;> decide

theorem takeWhile_ne_nil : t.takeWhile Char.isDigit ≠ [] ↔ t.head?.any Char.isDigit = true := by
  cases t with
  | nil => simp
  | cons c t => cases hc : c.isDigit <;> simp [hc]

theorem placeholders_rewritePlaceholders :
    placeholders q (rewritePlaceholders q t) = (placeholders q t).map Placeholder.toDollar := by
  induction t generalizing q with
  | nil => rfl
  | cons c t ih =>
    rw [rewritePlaceholders]
    by_cases hc : q = .outside ∧ c = '?' ∧ t.head?.any Char.isDigit = true
    · obtain ⟨rfl, rfl, hdigit⟩ := hc
      have hnumber := takeWhile_ne_nil.mpr hdigit
      simp [placeholders, hdigit, takeWhile_rewritePlaceholders, step_question, ih,
        Placeholder.toDollar, hnumber]
    · rw [if_neg hc, placeholders, placeholders, takeWhile_rewritePlaceholders, ih]
      split_ifs with hmark
      · have hsame : Placeholder.toDollar ⟨c, t.takeWhile Char.isDigit⟩ =
            ⟨c, t.takeWhile Char.isDigit⟩ := by
          refine if_neg fun h ↦ hc ⟨hmark.1, h.1, takeWhile_ne_nil.mp h.2⟩
        rw [List.map_cons, hsame]
      · rfl

theorem placeholders_append_left (hs : Plain s) :
    placeholders q (s ++ t) = placeholders (q.after s) t := by
  induction s generalizing q with
  | nil => rfl
  | cons c s ih =>
    rw [Plain, List.forall_mem_cons] at hs
    rw [List.cons_append, placeholders, if_neg (by tauto), ih hs.2]
    rfl

theorem placeholders_append_right (hz : Plain z) (hdigit : ∀ c ∈ z, c.isDigit = false) :
    placeholders q (t ++ z) = placeholders q t := by
  have hnone : z.takeWhile Char.isDigit = [] := by
    rw [List.takeWhile_eq_nil_iff]
    intro hlength
    simpa using hdigit _ (List.getElem_mem hlength)
  induction t generalizing q with
  | nil =>
    rw [List.nil_append, ← List.append_nil z, placeholders_append_left hz]
    rfl
  | cons c t ih =>
    have hnumber : (t ++ z).takeWhile Char.isDigit = t.takeWhile Char.isDigit := by
      rw [List.takeWhile_append, hnone]
      split_ifs with hall
      · rw [List.append_nil, (List.takeWhile_prefix _).eq_of_length hall]
      · rfl
    rw [List.cons_append, placeholders, placeholders, hnumber, ih]

theorem takeWhile_append (hs : s.takeWhile Char.isDigit = []) (hne : s ≠ []) :
    (s ++ t).takeWhile Char.isDigit = [] := by
  cases s with
  | nil => exact absurd rfl hne
  | cons c s => simpa [List.takeWhile_cons] using hs

end Placeholders

/-- A replacement that a reader of quotation marks and placeholders does not notice: both texts
leave the quotes as they are, hold no placeholder, and begin with something that is no digit. -/
structure Inert (n r : List Char) : Prop where
  after : ∀ q : Quote, q.after n = q ∧ q.after r = q
  plain : Plain n ∧ Plain r
  first : n.takeWhile Char.isDigit = [] ∧ n ≠ []
  first' : r.takeWhile Char.isDigit = [] ∧ r ≠ []

theorem inert_ifnull : Inert ifnull coalesce :=
  ⟨by rintro (_ | _ | _) <;> decide +kernel, by decide +kernel, by decide, by decide⟩

theorem inert_strftime : Inert strftime epoch.toList :=
  ⟨by rintro (_ | _ | _) <;> decide +kernel, by decide +kernel, by decide, by decide⟩

theorem inert_strftimeSpaced : Inert strftimeSpaced epoch.toList :=
  ⟨by rintro (_ | _ | _) <;> decide +kernel, by decide +kernel, by decide, by decide⟩

theorem inert_beginImmediateTransaction : Inert beginImmediateTransaction plainBegin :=
  ⟨by rintro (_ | _ | _) <;> decide +kernel, by decide +kernel, by decide, by decide⟩

theorem inert_beginImmediate : Inert beginImmediate plainBegin :=
  ⟨by rintro (_ | _ | _) <;> decide +kernel, by decide +kernel, by decide, by decide⟩

section Inert

variable {q : Quote} {c : Char} {n r s t : List Char}

theorem plain_of_map (hs : s.map Char.toLower = n) (hn : Plain n) : Plain s := by
  subst hs
  intro c hc
  have hlow := hn _ (List.mem_map_of_mem hc)
  rwa [ne_eq, ne_eq, toLower_eq_iff (by decide), toLower_eq_iff (by decide)] at hlow

theorem takeWhile_toLower :
    (s.map Char.toLower).takeWhile Char.isDigit = (s.takeWhile Char.isDigit).map Char.toLower := by
  rw [List.takeWhile_map]
  congr 2
  funext c
  exact isDigit_toLower c

theorem Inert.matched (h : Inert n r) (hs : s.map Char.toLower = n) :
    Plain s ∧ (∀ q : Quote, q.after s = q) ∧ s.takeWhile Char.isDigit = [] ∧ s ≠ [] := by
  refine ⟨plain_of_map hs h.plain.1, fun q ↦ ?_, ?_, ?_⟩
  · rw [← after_toLower, hs, (h.after q).1]
  · rw [← List.map_eq_nil_iff, ← takeWhile_toLower, hs, h.first.1]
  · rintro rfl
    exact h.first.2 hs.symm

theorem Inert.takeWhile_replace (h : Inert n r) :
    (replace Char.toLower n r t).takeWhile Char.isDigit = t.takeWhile Char.isDigit := by
  induction t using replace_induction Char.toLower h.first.2 with
  | nil => rfl
  | hit s t hs _ =>
    obtain ⟨-, -, hdigit, hne⟩ := h.matched hs
    rw [replace_hit h.first.2 hs, takeWhile_append h.first'.1 h.first'.2,
      takeWhile_append hdigit hne]
  | keep c t hk ih => rw [replace_keep hk, List.takeWhile_cons, List.takeWhile_cons, ih]

theorem Inert.placeholders_replace (h : Inert n r) :
    placeholders q (replace Char.toLower n r t) = placeholders q t := by
  induction t using replace_induction Char.toLower h.first.2 generalizing q with
  | nil => rfl
  | hit s t hs ih =>
    obtain ⟨hplain, hafter, -⟩ := h.matched hs
    rw [replace_hit h.first.2 hs, placeholders_append_left hplain,
      placeholders_append_left h.plain.2, hafter, (h.after q).2, ih]
  | keep c t hk ih =>
    rw [replace_keep hk, placeholders, placeholders, h.takeWhile_replace, ih]

theorem begins_rewritePlaceholders (hn : Plain n) :
    Begins Char.toLower n (rewritePlaceholders q t) ↔ Begins Char.toLower n t := by
  induction t generalizing q n with
  | nil => rfl
  | cons c t ih =>
    cases n with
    | nil => simp
    | cons b n =>
      rw [Plain, List.forall_mem_cons] at hn
      rw [rewritePlaceholders, begins_cons, begins_cons, ih hn.2]
      refine and_congr_left fun _ ↦ ?_
      split_ifs with hc
      · -- neither a question mark nor a dollar sign begins the needle
        have hquestion : '?'.toLower = '?' := rfl
        have hdollar : '$'.toLower = '$' := rfl
        rw [hc.2.1, hquestion, hdollar]
        exact iff_of_false hn.1.2 hn.1.1
      · rfl

theorem rewritePlaceholders_append (hs : Plain s) :
    rewritePlaceholders q (s ++ t) = s ++ rewritePlaceholders (q.after s) t := by
  induction s generalizing q with
  | nil => rfl
  | cons c s ih =>
    rw [Plain, List.forall_mem_cons] at hs
    rw [List.cons_append, rewritePlaceholders, if_neg (fun hc ↦ hs.1.1 hc.2.1), ih hs.2]
    rfl

theorem Inert.rewritePlaceholders_replace (h : Inert n r) :
    replace Char.toLower n r (rewritePlaceholders q t) =
      rewritePlaceholders q (replace Char.toLower n r t) := by
  induction t using replace_induction Char.toLower h.first.2 generalizing q with
  | nil => rfl
  | hit s t hs ih =>
    obtain ⟨hplain, hafter, -⟩ := h.matched hs
    rw [rewritePlaceholders_append hplain, replace_hit h.first.2 hs, replace_hit h.first.2 hs,
      rewritePlaceholders_append h.plain.2, hafter, (h.after q).2, ih]
  | keep c t hk ih =>
    have hk' : ¬ Begins Char.toLower n (rewritePlaceholders q (c :: t)) :=
      fun hb ↦ hk ((begins_rewritePlaceholders h.plain.1).mp hb)
    have hdigit : (replace Char.toLower n r t).head?.any Char.isDigit =
        t.head?.any Char.isDigit := by
      rw [Bool.eq_iff_iff, ← takeWhile_ne_nil, ← takeWhile_ne_nil, h.takeWhile_replace]
    rw [replace_keep hk, rewritePlaceholders, rewritePlaceholders, hdigit, ← ih]
    exact replace_keep hk'

end Inert

/-! ### Quoted texts -/

def literals (sql : List Char) : List Char := quotedText .outside (rewriteEpoch sql)

def Balanced (sql : List Char) : Prop := Quote.after .outside sql = .outside

instance (sql : List Char) : Decidable (Balanced sql) := inferInstanceAs (Decidable (_ = _))

section Literals

variable {q : Quote} {s t z : List Char}

theorem rewriteEpoch_rewritePlaceholders :
    rewriteEpoch (rewritePlaceholders q t) = rewritePlaceholders q (rewriteEpoch t) := by
  rw [rewriteEpoch_eq, rewriteEpoch_eq, inert_strftime.rewritePlaceholders_replace,
    inert_strftimeSpaced.rewritePlaceholders_replace]

theorem after_replace_inert {n r : List Char} (h : Inert n r) :
    q.after (replace Char.toLower n r t) = q.after t := by
  refine foldl_replace h.first.2 (fun s hs q ↦ ?_) q t
  exact ((h.matched hs).2.1 q).trans (h.after q).2.symm

theorem after_rewriteEpoch : q.after (rewriteEpoch t) = q.after t := by
  rw [rewriteEpoch_eq, after_replace_inert inert_strftimeSpaced,
    after_replace_inert inert_strftime]

theorem quotedText_rewritePlaceholders :
    quotedText q (rewritePlaceholders q t) = quotedText q t := by
  induction t generalizing q with
  | nil => rfl
  | cons c t ih =>
    rw [rewritePlaceholders]
    split_ifs with hc
    · obtain ⟨rfl, rfl, -⟩ := hc
      simp [quotedText, step_question, ih]
    · rw [quotedText, quotedText, ih]

theorem after_rewritePlaceholders : q.after (rewritePlaceholders q t) = q.after t := by
  induction t generalizing q with
  | nil => rfl
  | cons c t ih =>
    rw [rewritePlaceholders]
    split_ifs with hc
    · obtain ⟨rfl, rfl, -⟩ := hc
      have hstep := step_question .outside
      rw [hstep.1, Quote.after, List.foldl_cons, hstep.2]
      refine ih.trans ?_
      rw [Quote.after, Quote.after, List.foldl_cons, hstep.1]
    · exact ih

theorem literals_rewritePlaceholders :
    literals (rewritePlaceholders .outside t) = literals t := by
  rw [literals, rewriteEpoch_rewritePlaceholders, quotedText_rewritePlaceholders, literals]

structure Aside (s : List Char) : Prop where
  unquoted : Unquoted s
  plain : Plain s
  strftime : Apart strftime (s.map Char.toLower)
  strftimeSpaced : Apart strftimeSpaced (s.map Char.toLower)

theorem Aside.rewriteEpoch (h : Aside s) : Sql.rewriteEpoch (s ++ t) = s ++ Sql.rewriteEpoch t := by
  rw [rewriteEpoch_eq, rewriteEpoch_eq, replace_append_left h.strftime,
    replace_append_left h.strftimeSpaced]

theorem Aside.literals (h : Aside s) : Sql.literals (s ++ t) = Sql.literals t := by
  rw [Sql.literals, h.rewriteEpoch, quotedText_append, after_of_unquoted h.unquoted,
    quotedText_of_unquoted h.unquoted]
  rfl

theorem rewriteEpoch_append (hz : ')' ∉ z.map Char.toLower) :
    rewriteEpoch (t ++ z) = rewriteEpoch t ++ z := by
  rw [rewriteEpoch_eq, rewriteEpoch_eq, replace_append_of_last rfl hz,
    replace_append_of_last rfl hz]

theorem literals_append (ht : Balanced t) (hz : Unquoted z) (hlast : ')' ∉ z.map Char.toLower) :
    literals (t ++ z) = literals t := by
  rw [literals, rewriteEpoch_append hlast, quotedText_append, after_rewriteEpoch, ht,
    quotedText_of_unquoted hz]
  exact List.append_nil _

end Literals

/-! ### The words before the table -/

structure Headed (n t blank word rest : List Char) : Prop where
  eq : t = blank ++ (word ++ rest)
  blank : ∀ c ∈ blank, isWhitespace c = true
  word : word.map Char.toLower = n

section InsertOr

variable {n t blank word rest : List Char}

theorem exists_headed (h : Begins Char.toLower n (t.dropWhile isWhitespace)) :
    ∃ blank word rest, Headed n t blank word rest ∧
      (t.dropWhile isWhitespace).drop n.length = rest := by
  obtain ⟨word, rest, hword, hrest⟩ := h.exists_append
  refine ⟨t.takeWhile isWhitespace, word, rest, ⟨?_, ?_, hword⟩, ?_⟩
  · rw [← hrest, List.takeWhile_append_dropWhile]
  · exact fun c hc ↦ List.mem_takeWhile_imp hc
  · rw [hrest, ← hword, List.length_map, List.drop_left]

theorem Headed.dropWhile (h : Headed orIgnore t blank word rest) :
    t.dropWhile isWhitespace = word ++ rest := by
  have hfirst : (word ++ rest).dropWhile isWhitespace = word ++ rest := by
    cases hw : word with
    | nil =>
      have := h.word
      rw [hw] at this
      cases this
    | cons c word' =>
      have hlower : c.toLower = 'i' := by
        have := h.word
        rw [hw] at this
        exact (List.cons.inj this).1
      have hc : isWhitespace c = false := by
        rw [← isWhitespace_toLower, hlower]
        decide
      simp [hc]
  rw [h.eq, List.dropWhile_append_of_pos h.blank, hfirst]

theorem Headed.rewriteInsertOr (h : Headed orIgnore t blank word rest) :
    rewriteInsertOr t =
      if Contains Char.toLower onConflict (insertInto ++ rest) then insertInto ++ rest
      else ((insertInto ++ rest).rdropWhile (· = ';')).rdropWhile isWhitespace ++ doNothing := by
  have hb : Begins Char.toLower orIgnore (word ++ rest) := begins_append h.word
  have hrest : (word ++ rest).drop orIgnore.length = rest := by
    rw [← h.word, List.length_map, List.drop_left]
  simp only [Sql.rewriteInsertOr, h.dropWhile, if_pos hb, hrest]

theorem exists_tail (stmt : List Char) : ∃ tail,
    stmt = (stmt.rdropWhile (· = ';')).rdropWhile isWhitespace ++ tail ∧
      ∀ c ∈ tail, c = ';' ∨ isWhitespace c = true := by
  refine ⟨(stmt.rdropWhile (· = ';')).rtakeWhile isWhitespace ++ stmt.rtakeWhile (· = ';'), ?_, ?_⟩
  · rw [← List.append_assoc, List.rdropWhile_append_rtakeWhile, List.rdropWhile_append_rtakeWhile]
  · intro c hc
    rcases List.mem_append.mp hc with hc | hc
    · exact .inr (List.mem_rtakeWhile_imp hc)
    · have hsemicolon := List.mem_rtakeWhile_imp hc
      exact .inl (of_decide_eq_true hsemicolon)

/-- What `INSERT OR …` becomes: its first words give way to `INSERT INTO`, and the conflict clause
may take the place of what ended the statement. -/
theorem rewriteInsertOr_cases (t : List Char) :
    rewriteInsertOr t = t ∨ ∃ n blank word rest, n ∈ [orIgnore, orReplace] ∧
      Headed n t blank word rest ∧
      (rewriteInsertOr t = insertInto ++ rest ∨ ∃ body tail, insertInto ++ rest = body ++ tail ∧
        (∀ c ∈ tail, c = ';' ∨ isWhitespace c = true) ∧
        rewriteInsertOr t = body ++ doNothing) := by
  by_cases hignore : Begins Char.toLower orIgnore (t.dropWhile isWhitespace)
  · obtain ⟨blank, word, rest, h, -⟩ := exists_headed hignore
    refine .inr ⟨orIgnore, blank, word, rest, by simp, h, ?_⟩
    rw [h.rewriteInsertOr]
    split_ifs
    · exact .inl rfl
    · obtain ⟨tail, htail, hends⟩ := exists_tail (insertInto ++ rest)
      exact .inr ⟨_, tail, htail, hends, rfl⟩
  · by_cases hreplace : Begins Char.toLower orReplace (t.dropWhile isWhitespace) ∧
        Contains Char.toLower onConflict (t.dropWhile isWhitespace)
    · obtain ⟨blank, word, rest, h, hrest⟩ := exists_headed hreplace.1
      refine .inr ⟨orReplace, blank, word, rest, by simp, h, .inl ?_⟩
      simp only [rewriteInsertOr, if_neg hignore, if_pos hreplace, hrest]
    · left
      simp only [rewriteInsertOr, if_neg hignore, if_neg hreplace]

theorem aside_blank (h : ∀ c ∈ blank, isWhitespace c = true) : Aside blank := by
  have hother {d : Char} (hd : isWhitespace d = false) : ∀ c ∈ blank, c ≠ d := by
    rintro c hc rfl
    rw [h c hc] at hd
    cases hd
  have hlower : 's' ∉ blank.map Char.toLower := by
    intro hmem
    obtain ⟨c, hc, hs⟩ := List.mem_map.mp hmem
    have hspace := isWhitespace_toLower c
    rw [hs, h c hc] at hspace
    cases hspace
  refine ⟨fun c hc ↦ ?_, fun c hc ↦ ⟨hother (by decide) c hc, hother (by decide) c hc⟩,
    apart_of_not_mem hlower, apart_of_not_mem hlower⟩
  have hmarks : c ≠ '\'' ∧ c ≠ '"' := ⟨hother (by decide) c hc, hother (by decide) c hc⟩
  simpa [isMark] using hmarks

theorem aside_words : ∀ n ∈ [orIgnore, orReplace, insertInto.map Char.toLower],
    Unquoted n ∧ Plain n ∧ Apart strftime n ∧ Apart strftimeSpaced n := by
  decide +kernel

theorem aside_of_map {s : List Char} (hs : s.map Char.toLower = n)
    (hn : n ∈ [orIgnore, orReplace, insertInto.map Char.toLower]) : Aside s := by
  obtain ⟨hquote, hplain, hfirst, hsecond⟩ := aside_words n hn
  exact ⟨unquoted_of_map hs hquote, plain_of_map hs hplain, hs ▸ hfirst, hs ▸ hsecond⟩

theorem Headed.aside (h : Headed n t blank word rest) (hn : n ∈ [orIgnore, orReplace]) :
    Aside word :=
  aside_of_map h.word (by simp at hn ⊢; tauto)

theorem aside_insertInto : Aside insertInto := aside_of_map rfl (by simp)

def trailing (c : Char) : Bool :=
  isMark c = false ∧ c ≠ '?' ∧ c ≠ '$' ∧ c.isDigit = false ∧ c ≠ ')'

theorem trailing_of_tail {c : Char} (h : c = ';' ∨ isWhitespace c = true) : trailing c = true := by
  rcases h with rfl | h
  · decide
  · have hother (d : Char) (hd : isWhitespace d = false) : c ≠ d := by
      rintro rfl
      rw [h] at hd
      cases hd
    have hdigit : c.isDigit = false := by
      rw [Bool.eq_false_iff, ne_eq, isDigit_iff]
      simp only [isWhitespace, decide_eq_true_eq, List.mem_cons, List.not_mem_nil, or_false] at h
      omega
    simp [trailing, isMark, hdigit, hother '\'' (by decide), hother '"' (by decide),
      hother '?' (by decide), hother '$' (by decide), hother ')' (by decide)]

theorem trailing_doNothing : doNothing.all trailing = true := by decide +kernel

theorem ending_facts {z : List Char} (h : z.all trailing = true) :
    Unquoted z ∧ Plain z ∧ (∀ c ∈ z, c.isDigit = false) ∧ ')' ∉ z.map Char.toLower := by
  simp only [List.all_eq_true, trailing, decide_eq_true_eq] at h
  refine ⟨fun c hc ↦ (h c hc).1, fun c hc ↦ ⟨(h c hc).2.1, (h c hc).2.2.1⟩,
    fun c hc ↦ (h c hc).2.2.2.1, ?_⟩
  intro hmem
  obtain ⟨c, hc, he⟩ := List.mem_map.mp hmem
  exact (h c hc).2.2.2.2 ((toLower_eq_iff (by decide)).mp he)

theorem placeholders_rewriteInsertOr (t : List Char) :
    placeholders .outside (rewriteInsertOr t) = placeholders .outside t := by
  rcases rewriteInsertOr_cases t with he | ⟨n, blank, word, rest, hn, h, hcases⟩
  · rw [he]
  · have hblank := aside_blank h.blank
    have hword := h.aside hn
    have ht : placeholders .outside t = placeholders .outside (insertInto ++ rest) := by
      rw [h.eq, placeholders_append_left hblank.plain, placeholders_append_left hword.plain,
        placeholders_append_left aside_insertInto.plain, after_of_unquoted hblank.unquoted,
        after_of_unquoted hword.unquoted, after_of_unquoted aside_insertInto.unquoted]
    rw [ht]
    rcases hcases with he | ⟨body, tail, hbody, hends, he⟩
    · rw [he]
    · obtain ⟨-, hplain, hdigit, -⟩ := ending_facts (List.all_eq_true.mpr fun c hc ↦ trailing_of_tail (hends c hc))
      obtain ⟨-, hplain', hdigit', -⟩ := ending_facts trailing_doNothing
      rw [he, hbody, placeholders_append_right hplain hdigit,
        placeholders_append_right hplain' hdigit']

theorem after_rewriteInsertOr_body {body tail : List Char}
    (h : Headed n t blank word rest) (hn : n ∈ [orIgnore, orReplace])
    (hbody : insertInto ++ rest = body ++ tail) (htail : Unquoted tail) :
    Quote.after .outside body = Quote.after .outside t := by
  have hfirst := congrArg (Quote.after .outside) hbody
  rw [after_append, after_append, after_of_unquoted aside_insertInto.unquoted,
    after_of_unquoted htail] at hfirst
  rw [h.eq, after_append, after_append, after_of_unquoted (aside_blank h.blank).unquoted,
    after_of_unquoted (h.aside hn).unquoted, hfirst]

theorem literals_rewriteInsertOr (hb : Balanced t) : literals (rewriteInsertOr t) = literals t := by
  rcases rewriteInsertOr_cases t with he | ⟨n, blank, word, rest, hn, h, hcases⟩
  · rw [he]
  · have ht : literals t = literals (insertInto ++ rest) := by
      rw [h.eq, (aside_blank h.blank).literals, (h.aside hn).literals, aside_insertInto.literals]
    rw [ht]
    rcases hcases with he | ⟨body, tail, hbody, hends, he⟩
    · rw [he]
    · obtain ⟨hquote, -, -, hlast⟩ := ending_facts (List.all_eq_true.mpr fun c hc ↦ trailing_of_tail (hends c hc))
      obtain ⟨hquote', -, -, hlast'⟩ := ending_facts trailing_doNothing
      have hbalanced : Balanced body := (after_rewriteInsertOr_body h hn hbody hquote).trans hb
      rw [he, hbody, literals_append hbalanced hquote hlast,
        literals_append hbalanced hquote' hlast']

end InsertOr

/-! ### The whole translation -/

section ToPostgres

variable {sql : String} {t : List Char}

/-- A weight of letters under which `COALESCE(` is less than `IFNULL(`, and `BEGIN` less than what
it stands for. -/
def weight (c : Char) : ℕ := if c = 'u' then 2 else if c = 's' ∨ c = 'd' then 1 else 0

def textWeight (t : List Char) : ℕ := ((t.map Char.toLower).map weight).sum

def Lightens (n r : List Char) : Prop :=
  n ≠ [] ∧ ((r.map Char.toLower).map weight).sum < (n.map weight).sum

instance (n r : List Char) : Decidable (Lightens n r) := inferInstanceAs (Decidable (_ ∧ _))

theorem Lightens.le {n r : List Char} (h : Lightens n r) (t : List Char) :
    textWeight (replace Char.toLower n r t) ≤ textWeight t :=
  sum_replace_le h.1 h.2 t

theorem Lightens.not_contains {n r : List Char} (h : Lightens n r) {t : List Char}
    (he : textWeight t ≤ textWeight (replace Char.toLower n r t)) :
    ¬ Contains Char.toLower n t :=
  fun hc ↦ absurd (sum_replace_lt h.1 h.2 hc) (not_lt.mpr he)

theorem toList_toPostgres : (toPostgres sql).toList =
    rewriteTransactions (replace Char.toLower ifnull coalesce
      (rewriteEpoch (rewriteInsertOr (rewritePlaceholders .outside sql.toList)))) := by
  rw [toPostgres, String.toList_ofList, rewriteFunctions_eq, rewriteEpoch_comm]

theorem placeholders_toPostgres :
    placeholders .outside (toPostgres sql).toList =
      (placeholders .outside sql.toList).map Placeholder.toDollar := by
  rw [toList_toPostgres, rewriteTransactions_eq, inert_beginImmediate.placeholders_replace,
    inert_beginImmediateTransaction.placeholders_replace, inert_ifnull.placeholders_replace,
    rewriteEpoch_eq, inert_strftimeSpaced.placeholders_replace, inert_strftime.placeholders_replace,
    placeholders_rewriteInsertOr, placeholders_rewritePlaceholders]

theorem quotedText_toPostgres (hb : Balanced sql.toList) :
    quotedText .outside (toPostgres sql).toList =
      rewriteTransactions (replace Char.toLower ifnull coalesce (literals sql.toList)) := by
  have hb' : Balanced (rewritePlaceholders .outside sql.toList) :=
    after_rewritePlaceholders.trans hb
  rw [toList_toPostgres, rewriteTransactions_eq, rewriteTransactions_eq,
    quotedText_replace (by decide) (by decide) (by decide),
    quotedText_replace (by decide) (by decide +kernel) (by decide),
    quotedText_replace (by decide) (by decide) (by decide)]
  change replace _ _ _ (replace _ _ _ (replace _ _ _ (literals _))) = _
  rw [literals_rewriteInsertOr hb', literals_rewritePlaceholders]

theorem rewrites_eq_self_iff :
    rewriteTransactions (replace Char.toLower ifnull coalesce t) = t ↔
      ¬ Contains Char.toLower ifnull t ∧ ¬ Contains Char.toLower beginImmediate t := by
  have hcoalesce : Lightens ifnull coalesce := by decide +kernel
  have hlong : Lightens beginImmediateTransaction plainBegin := by decide +kernel
  have hshort : Lightens beginImmediate plainBegin := by decide +kernel
  rw [rewriteTransactions_eq]
  constructor
  · intro h
    -- no pass adds weight, so none of them has taken any away
    have hweight := congrArg textWeight h
    have h₁ := hshort.le (replace Char.toLower beginImmediateTransaction plainBegin
      (replace Char.toLower ifnull coalesce t))
    have h₂ := hlong.le (replace Char.toLower ifnull coalesce t)
    have h₃ := hcoalesce.le t
    have hifnull : ¬ Contains Char.toLower ifnull t := hcoalesce.not_contains (by omega)
    rw [replace_of_not_contains hifnull] at h h₁ h₂ hweight
    have htransaction := hlong.not_contains (by omega : textWeight t ≤ _)
    rw [replace_of_not_contains htransaction] at h h₁ hweight
    exact ⟨hifnull, hshort.not_contains hweight.ge⟩
  · rintro ⟨hifnull, hbegin⟩
    have htransaction : ¬ Contains Char.toLower beginImmediateTransaction t := by
      intro hc
      refine hbegin (List.IsInfix.trans ?_ hc)
      decide +kernel
    rw [replace_of_not_contains hifnull, replace_of_not_contains htransaction,
      replace_of_not_contains hbegin]

/-- The translation keeps every quoted text and turns the numbered placeholders into the dollar
form exactly if no quoted text contains `IFNULL(` or `BEGIN IMMEDIATE`. -/
theorem toPostgres_keeps_literals_iff (hb : Balanced sql.toList) :
    (quotedText .outside (toPostgres sql).toList = literals sql.toList ∧
      placeholders .outside (toPostgres sql).toList =
        (placeholders .outside sql.toList).map Placeholder.toDollar) ↔
    ¬ Contains Char.toLower ifnull (literals sql.toList) ∧
      ¬ Contains Char.toLower beginImmediate (literals sql.toList) := by
  rw [and_iff_left placeholders_toPostgres, quotedText_toPostgres hb, rewrites_eq_self_iff]

end ToPostgres

theorem toPostgres_keeps_question :
    quotedText .outside (toPostgres "SELECT ?1, 'what?1 is this'").toList =
      "'what?1 is this'".toList := by
  have hb : Balanced "SELECT ?1, 'what?1 is this'".toList := by decide +kernel
  have h := ((toPostgres_keeps_literals_iff hb).mpr (by decide +kernel)).1
  exact h.trans (by decide +kernel)

/-- A message that names the function it warns of. -/
theorem literal_rewritten :
    Balanced "SELECT 'use IFNULL(a)'".toList ∧
      literals "SELECT 'use IFNULL(a)'".toList = "'use IFNULL(a)'".toList ∧
      toPostgres "SELECT 'use IFNULL(a)'" = "SELECT 'use COALESCE(a)'" := by
  decide +kernel

end SauronId.Sql
