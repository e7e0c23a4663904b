import SauronId.Sql.Translate

namespace SauronId.Sql

open Lib Lib.Text

def isWord (c : Char) : Bool :=
  let n := c.toNat
  (48 ≤ n ∧ n ≤ 57) ∨ (65 ≤ n ∧ n ≤ 90) ∨ (97 ≤ n ∧ n ≤ 122) ∨ n = 95 ∨ 128 ≤ n

def isSpace (c : Char) : Bool := c.toNat = 32 ∨ (9 ≤ c.toNat ∧ c.toNat ≤ 13)

def keywordOn : List Char := "on".toList

def keywordConflict : List Char := "conflict".toList

structure AtWord (t : List Char) : Prop where
  outside : Quote.after .outside t = .outside
  boundary : ∀ c ∈ t.getLast?, isWord c = false

structure AfterOn (t pre on gap : List Char) : Prop where
  eq : t = pre ++ (on ++ gap)
  opens : AtWord pre
  keyword : on.map Char.toLower = keywordOn
  gap_ne : gap ≠ []
  blank : ∀ c ∈ gap, isSpace c = true

/-- The keywords `ON` and `CONFLICT` follow one another outside quotes. -/
def HasConflictClause (t : List Char) : Prop :=
  ∃ before pre on gap conflict post, t = before ++ (conflict ++ post) ∧ AfterOn before pre on gap ∧
    conflict.map Char.toLower = keywordConflict ∧ ∀ c ∈ post.head?, isWord c = false

/-! ### A reader that looks for the clause -/

/-- How much of the clause has been read: letters of the first or of the second keyword. -/
inductive Progress
  | first (letters : Fin 3)
  | second (letters : Fin 9)
  | other
  | found
  deriving DecidableEq

namespace Progress

theorem three_pos : 0 < 3 := by decide

theorem nine_pos : 0 < 9 := by decide

theorem one_lt_three : 1 < 3 := by decide

def start : Progress := first ⟨0, three_pos⟩

def gap : Progress := second ⟨0, nine_pos⟩

def miss (c : Char) : Progress := if isWord c then other else start

def step : Progress → Char → Progress
  | first k, c =>
    if hk : k.val < 2 ∧ keywordOn[k.val]? = some c.toLower then first ⟨k + 1, by omega⟩
    else if k.val = 2 ∧ isSpace c then gap
    else miss c
  | second k, c =>
    if hk : k.val < 8 ∧ keywordConflict[k.val]? = some c.toLower then second ⟨k + 1, by omega⟩
    else if k.val = 0 ∧ c.toLower = 'o' then first ⟨1, one_lt_three⟩
    else if k.val = 0 ∧ isSpace c then gap
    else if k.val = 8 ∧ isWord c = false then found
    else miss c
  | other, c => miss c
  | found, _ => found

theorem forall_iff {P : Progress → Prop} :
    (∀ p, P p) ↔ (∀ k, P (first k)) ∧ (∀ k, P (second k)) ∧ P other ∧ P found := by
  constructor
  · exact fun h ↦ ⟨fun _ ↦ h _, fun _ ↦ h _, h _, h _⟩
  · rintro ⟨hfirst, hsecond, hother, hfound⟩ (k | k | _ | _)
    · exact hfirst k
    · exact hsecond k
    · exact hother
    · exact hfound

instance {P : Progress → Prop} [DecidablePred P] : Decidable (∀ p, P p) :=
  decidable_of_iff _ forall_iff.symm

end Progress

structure Reader where
  quote : Quote
  progress : Progress
  deriving DecidableEq

namespace Reader

def start : Reader := ⟨.outside, .start⟩

def step (r : Reader) (c : Char) : Reader :=
  ⟨r.quote.step c, if r.quote = .outside then r.progress.step c else r.progress⟩

def read (r : Reader) (t : List Char) : Reader := t.foldl step r

/-- The clause has been read, or its last keyword ends the text. -/
def Accepts (r : Reader) : Prop :=
  r.progress = .found ∨ (r.quote = .outside ∧ r.progress = .second 8)

instance (r : Reader) : Decidable r.Accepts := inferInstanceAs (Decidable (_ ∨ _))

end Reader

section Reading

variable {q : Quote} {p : Progress} {r : Reader} {s t : List Char} {c : Char}

theorem isWord_toLower (c : Char) : isWord c.toLower = isWord c := by
  simp only [isWord, toNat_toLower, decide_eq_decide]
  split_ifs <;> omega

theorem isSpace_toLower (c : Char) : isSpace c.toLower = isSpace c := by
  simp only [isSpace, toNat_toLower, decide_eq_decide]
  split_ifs <;> omega

theorem toLower_toLower (c : Char) : c.toLower.toLower = c.toLower := by
  simp

theorem Progress.step_toLower (p : Progress) (c : Char) : p.step c.toLower = p.step c := by
  cases p <;> simp only [Progress.step, Progress.miss, toLower_toLower, isWord_toLower,
    isSpace_toLower]

theorem Reader.read_append : r.read (s ++ t) = (r.read s).read t := List.foldl_append

theorem Reader.quote_read : (r.read t).quote = r.quote.after t := by
  induction t generalizing r with
  | nil => rfl
  | cons c t ih => exact ih

theorem Reader.read_unquoted (h : Unquoted s) :
    Reader.read ⟨q, p⟩ s = ⟨q, if q = .outside then s.foldl Progress.step p else p⟩ := by
  induction s generalizing p with
  | nil => simp [Reader.read]
  | cons c s ih =>
    rw [Unquoted, List.forall_mem_cons] at h
    have hstep : Reader.step ⟨q, p⟩ c = ⟨q, if q = .outside then p.step c else p⟩ := by
      rw [Reader.step, step_of_not_isMark h.1]
    rw [Reader.read, List.foldl_cons, hstep]
    refine (ih h.2).trans ?_
    split_ifs <;> rfl

theorem Reader.read_found : (Reader.read ⟨q, .found⟩ t).progress = .found := by
  induction t generalizing q with
  | nil => rfl
  | cons c t ih =>
    have hstep : Reader.step ⟨q, .found⟩ c = ⟨q.step c, .found⟩ := by
      simp [Reader.step, Progress.step]
    rw [Reader.read, List.foldl_cons, hstep]
    exact ih

theorem isWord_of_toLower {d : Char} (h : c.toLower = d) (hd : isWord d = true) :
    isWord c = true := by
  rw [← isWord_toLower, h, hd]

variable {n : List Char}

theorem isWord_of_keyword (hn : n = keywordOn ∨ n = keywordConflict) {k : ℕ}
    (h : n[k]? = some c.toLower) : isWord c = true := by
  have hall : (keywordOn ++ keywordConflict).all isWord = true := by decide +kernel
  refine isWord_of_toLower rfl (List.all_eq_true.mp hall _ (List.mem_append.mpr ?_))
  rcases hn with rfl | rfl
  · exact .inl (List.mem_of_getElem? h)
  · exact .inr (List.mem_of_getElem? h)

theorem Progress.step_of_not_isWord (hc : isWord c = false) :
    p.step c = .start ∨ (p.step c = .gap ∧ isSpace c = true) ∨ p.step c = .found := by
  have hkeyword {n : List Char} {k : ℕ} (hn : n = keywordOn ∨ n = keywordConflict) :
      n[k]? ≠ some c.toLower := by
    intro h
    rw [isWord_of_keyword hn h] at hc
    cases hc
  have hmiss : Progress.miss c = .start := if_neg (by simp [hc])
  have ho : c.toLower ≠ 'o' := fun h ↦ hkeyword (k := 0) (.inl rfl) (h ▸ rfl)
  cases p with
  | first k =>
    simp only [Progress.step, hkeyword (.inl rfl), and_false, dite_false, hmiss]
    split_ifs with hk
    · exact .inr (.inl ⟨rfl, hk.2⟩)
    · exact .inl rfl
  | second k =>
    simp only [Progress.step, hkeyword (.inr rfl), and_false, dite_false, hmiss, ho, if_false]
    split_ifs with hk
    · exact .inr (.inl ⟨rfl, hk.2⟩)
    · exact .inr (.inr rfl)
    · exact .inl rfl
  | other => exact .inl hmiss
  | found => exact .inr (.inr rfl)

/-- What has been read when the progress is `p`. -/
def Progress.Seen : Progress → List Char → Prop
  | first k, t => ∃ pre w, t = pre ++ w ∧ AtWord pre ∧ w.map Char.toLower = keywordOn.take k
  | second k, t => ∃ before pre on gap w, t = before ++ w ∧ AfterOn before pre on gap ∧
      w.map Char.toLower = keywordConflict.take k
  | other, _ => True
  | found, t => ∃ before pre on gap conflict d post, t = before ++ (conflict ++ d :: post) ∧
      AfterOn before pre on gap ∧ conflict.map Char.toLower = keywordConflict ∧ isWord d = false

theorem not_isWord_of_isSpace (h : isSpace c = true) : isWord c = false := by
  simp only [isSpace, decide_eq_true_eq] at h
  simp only [isWord, decide_eq_false_iff_not]
  omega

theorem AfterOn.atWord {pre on gap : List Char} (h : AfterOn t pre on gap)
    (hout : Quote.after .outside t = .outside) : AtWord t := by
  refine ⟨hout, fun c hc ↦ not_isWord_of_isSpace (h.blank c ?_)⟩
  rw [h.eq, ← List.append_assoc, List.getLast?_append_of_ne_nil _ h.gap_ne] at hc
  exact List.mem_of_getLast? hc

theorem map_take_succ {n w : List Char} {k : ℕ} (hw : w.map Char.toLower = n.take k)
    (hc : n[k]? = some c.toLower) : (w ++ [c]).map Char.toLower = n.take (k + 1) := by
  rw [List.map_append, hw, List.take_add_one, hc]
  rfl

/-- One step of the reader outside quotes: either it is back at the start, at the end of a word, or
it has seen what its progress says. -/
theorem Progress.Seen.step (h : p.Seen t) (hout : Quote.after .outside t = .outside) :
    (p.step c = .start ∧ isWord c = false) ∨ (p.step c).Seen (t ++ [c]) := by
  have hmiss : (Progress.miss c = .start ∧ isWord c = false) ∨ (Progress.miss c).Seen (t ++ [c]) := by
    unfold Progress.miss
    split_ifs with hc
    · exact .inr trivial
    · exact .inl ⟨rfl, by simpa using hc⟩
  cases p with
  | first k =>
    obtain ⟨pre, w, rfl, hpre, hw⟩ := h
    simp only [Progress.step]
    split_ifs with hk hspace
    · exact .inr ⟨pre, w ++ [c], List.append_assoc _ _ _, hpre, map_take_succ hw hk.2⟩
    · obtain ⟨htwo, hspace⟩ := hspace
      rw [htwo] at hw
      refine .inr ⟨pre ++ w ++ [c], pre, w, [c], [], (List.append_nil _).symm,
        ⟨List.append_assoc _ _ _, hpre, hw, by simp, by simpa using hspace⟩, rfl⟩
    · exact hmiss
  | second k =>
    obtain ⟨before, pre, on, gap, w, rfl, hon, hw⟩ := h
    simp only [Progress.step]
    split_ifs with hk ho hspace hend
    · exact .inr ⟨before, pre, on, gap, w ++ [c], List.append_assoc _ _ _, hon,
        map_take_succ hw hk.2⟩
    · -- another word that may be the first keyword
      obtain ⟨hzero, ho⟩ := ho
      obtain rfl : w = [] := by simpa [hzero] using hw
      rw [List.append_nil] at hout ⊢
      exact .inr ⟨before, [c], rfl, hon.atWord hout, by simp [ho, keywordOn]⟩
    · obtain ⟨hzero, hspace⟩ := hspace
      obtain rfl : w = [] := by simpa [hzero] using hw
      rw [List.append_nil]
      refine .inr ⟨before ++ [c], pre, on, gap ++ [c], [], (List.append_nil _).symm,
        ⟨by simp [hon.eq], hon.opens, hon.keyword, by simp, ?_⟩, rfl⟩
      intro d hd
      rcases List.mem_append.mp hd with hd | hd
      · exact hon.blank d hd
      · exact List.mem_singleton.mp hd ▸ hspace
    · obtain ⟨height, hend⟩ := hend
      rw [height] at hw
      exact .inr ⟨before, pre, on, gap, w, c, [], List.append_assoc _ _ _, hon, hw, hend⟩
    · exact hmiss
  | other => exact hmiss
  | found =>
    obtain ⟨before, pre, on, gap, conflict, d, post, rfl, hon, hconflict, hd⟩ := h
    exact .inr ⟨before, pre, on, gap, conflict, d, post ++ [c], by simp, hon, hconflict, hd⟩

/-- What a reader knows after a text: outside quotes what its progress says, within quotes whether
there has been a clause. -/
structure Reader.Knows (r : Reader) (t : List Char) : Prop where
  outside : r.quote = .outside → r.progress.Seen t
  quoted : r.quote ≠ .outside → r.progress = .start ∨ (r.progress = .found ∧ Progress.found.Seen t)

theorem isWord_of_isMark (h : isMark c = true) : isWord c = false ∧ isSpace c = false := by
  have hc : c = '\'' ∨ c = '"' := by simpa [isMark] using h
  rcases hc with rfl | rfl <;> decide

theorem isMark_of_step (h : q.step c ≠ q) : isMark c = true := by
  by_contra hc
  exact h (step_of_not_isMark (Bool.eq_false_iff.mpr hc))

theorem atWord_append (hout : Quote.after .outside (t ++ [c]) = .outside) (hc : isWord c = false) :
    Progress.start.Seen (t ++ [c]) := by
  refine ⟨t ++ [c], [], (List.append_nil _).symm, ⟨hout, ?_⟩, rfl⟩
  simpa using hc

theorem Reader.Knows.step (h : r.Knows t) (hq : r.quote = Quote.after .outside t) :
    (r.step c).Knows (t ++ [c]) := by
  have hq' : (r.step c).quote = Quote.after .outside (t ++ [c]) := by
    rw [after_append, ← hq]
    rfl
  by_cases hout : r.quote = .outside
  · have hprogress : (r.step c).progress = r.progress.step c := if_pos hout
    have hseen := (h.outside hout).step (c := c) (hq.symm.trans hout)
    constructor
    · intro hout'
      rw [hprogress]
      rcases hseen with ⟨hstart, hc⟩ | hseen
      · rw [hstart]
        exact atWord_append (hq'.symm.trans hout') hc
      · exact hseen
    · -- a mark has been read
      intro hquoted
      have hmark := isWord_of_isMark (isMark_of_step (fun he ↦ hquoted (he.trans hout)))
      rw [hprogress]
      rcases Progress.step_of_not_isWord (p := r.progress) hmark.1 with hs | ⟨-, hs⟩ | hs
      · exact .inl hs
      · rw [hmark.2] at hs
        cases hs
      · rw [hs] at hseen
        exact .inr ⟨hs, hseen.resolve_left (fun he ↦ by cases he.1)⟩
  · have hprogress : (r.step c).progress = r.progress := if_neg hout
    have hmore : r.progress = .start ∨ (r.progress = .found ∧ Progress.found.Seen (t ++ [c])) := by
      refine (h.quoted hout).imp_right fun hf ↦ ⟨hf.1, ?_⟩
      obtain ⟨before, pre, on, gap, conflict, d, post, rfl, hrest⟩ := hf.2
      exact ⟨before, pre, on, gap, conflict, d, post ++ [c], by simp, hrest⟩
    constructor
    · intro hout'
      have hmark := isWord_of_isMark (isMark_of_step (fun he ↦ hout (he.symm.trans hout')))
      rw [hprogress]
      rcases hmore with hs | ⟨hs, hseen⟩
      · rw [hs]
        exact atWord_append (hq'.symm.trans hout') hmark.1
      · rw [hs]
        exact hseen
    · intro _
      rw [hprogress]
      exact hmore

theorem Reader.knows (t : List Char) : (Reader.start.read t).Knows t := by
  induction t using List.reverseRecOn with
  | nil =>
    refine ⟨fun _ ↦ ⟨[], [], rfl, ⟨rfl, by simp⟩, rfl⟩, fun h ↦ absurd rfl h⟩
  | append_singleton t c ih =>
    rw [Reader.read_append]
    exact ih.step Reader.quote_read

theorem progress_of_atWord (h : AtWord t) : (Reader.start.read t).quote = .outside ∧
    ((Reader.start.read t).progress = .start ∨ (Reader.start.read t).progress = .gap ∨
      (Reader.start.read t).progress = .found) := by
  refine ⟨Reader.quote_read.trans h.outside, ?_⟩
  induction t using List.reverseRecOn with
  | nil => exact .inl rfl
  | append_singleton t c _ =>
    have hc : isWord c = false := h.boundary c (by simp)
    have hread : Reader.start.read (t ++ [c]) = (Reader.start.read t).step c := by
      rw [Reader.read_append]
      rfl
    rw [hread]
    by_cases hout : (Reader.start.read t).quote = .outside
    · rw [Reader.step, if_pos hout]
      rcases Progress.step_of_not_isWord hc with hs | hs | hs
      · exact .inl hs
      · exact .inr (.inl hs.1)
      · exact .inr (.inr hs)
    · rw [Reader.step, if_neg hout]
      rcases (Reader.knows t).quoted hout with hs | hs
      · exact .inl hs
      · exact .inr (.inr hs.1)

theorem Progress.foldl_toLower (hs : s.map Char.toLower = n) (p : Progress) :
    s.foldl Progress.step p = n.foldl Progress.step p := by
  rw [← hs, List.foldl_map]
  simp only [Progress.step_toLower]

theorem Reader.read_keyword (hs : s.map Char.toLower = n) (hn : Unquoted n) :
    Reader.read ⟨.outside, p⟩ s = ⟨.outside, n.foldl Progress.step p⟩ := by
  rw [Reader.read_unquoted (unquoted_of_map hs hn), if_pos rfl, Progress.foldl_toLower hs]

theorem foldl_gap (hne : s ≠ []) (hs : ∀ c ∈ s, isSpace c = true) :
    s.foldl Progress.step (.first 2) = .gap := by
  have hspace (c : Char) (hc : isSpace c = true) :
      Progress.step (.first 2) c = .gap ∧ Progress.step .gap c = .gap := by
    have hword := not_isWord_of_isSpace hc
    have hkeyword : keywordConflict[0]? ≠ some c.toLower := by
      intro h
      rw [isWord_of_keyword (.inr rfl) h] at hword
      cases hword
    have ho : c.toLower ≠ 'o' := by
      intro h
      rw [isWord_of_toLower h (by decide)] at hword
      cases hword
    simp [Progress.step, Progress.gap, hc, hkeyword, ho]
  have hstay (s : List Char) (hs : ∀ c ∈ s, isSpace c = true) :
      s.foldl Progress.step .gap = .gap := by
    induction s with
    | nil => rfl
    | cons c s ih =>
      rw [List.forall_mem_cons] at hs
      rw [List.foldl_cons, (hspace c hs.1).2, ih hs.2]
  cases s with
  | nil => exact absurd rfl hne
  | cons c s =>
    rw [List.forall_mem_cons] at hs
    rw [List.foldl_cons, (hspace c hs.1).1, hstay s hs.2]

theorem Progress.foldl_found : s.foldl Progress.step .found = .found := by
  induction s with
  | nil => rfl
  | cons c s ih => exact ih

theorem AfterOn.read {pre on gap : List Char} (h : AfterOn t pre on gap) :
    Reader.start.read t = ⟨.outside, .gap⟩ ∨ Reader.start.read t = ⟨.outside, .found⟩ := by
  obtain ⟨hout, hprogress⟩ := progress_of_atWord h.opens
  have hpre : Reader.start.read pre = ⟨.outside, (Reader.start.read pre).progress⟩ := by
    rw [← hout]
  have hgap : Unquoted gap := by
    intro c hc
    by_contra hmark
    have hspace := (isWord_of_isMark (Bool.not_eq_false _ ▸ hmark)).2
    rw [h.blank c hc] at hspace
    cases hspace
  rw [h.eq, Reader.read_append, hpre, Reader.read_append,
    Reader.read_keyword h.keyword (by decide), Reader.read_unquoted hgap, if_pos rfl]
  rcases hprogress with hp | hp | hp
  · left
    rw [hp]
    exact congrArg _ (foldl_gap h.gap_ne h.blank)
  · left
    rw [hp]
    exact congrArg _ (foldl_gap h.gap_ne h.blank)
  · right
    rw [hp, Progress.foldl_found, Progress.foldl_found]

theorem hasConflictClause_of_seen (h : Progress.found.Seen t) : HasConflictClause t := by
  obtain ⟨before, pre, on, gap, conflict, d, post, rfl, hon, hconflict, hd⟩ := h
  exact ⟨before, pre, on, gap, conflict, d :: post, rfl, hon, hconflict, by simpa using hd⟩

theorem hasConflictClause_iff : HasConflictClause t ↔ (Reader.start.read t).Accepts := by
  constructor
  · rintro ⟨before, pre, on, gap, conflict, post, rfl, hon, hconflict, hpost⟩
    rw [Reader.read_append]
    rcases hon.read with hr | hr
    · rw [hr, Reader.read_append, Reader.read_keyword hconflict (by decide)]
      cases post with
      | nil => exact .inr ⟨rfl, by decide +kernel⟩
      | cons d post =>
        have hd : isWord d = false := hpost d (by simp)
        have hstep : Reader.step ⟨.outside, .second 8⟩ d = ⟨Quote.step .outside d, .found⟩ := by
          simp [Reader.step, Progress.step, hd]
        left
        rw [Reader.read, List.foldl_cons]
        exact (congrArg (fun r : Reader ↦ (r.read post).progress) hstep).trans Reader.read_found
    · rw [hr]
      exact .inl Reader.read_found
  · have hknows := Reader.knows t
    rintro (hfound | ⟨hout, hend⟩)
    · apply hasConflictClause_of_seen
      by_cases hout : (Reader.start.read t).quote = .outside
      · exact hfound ▸ hknows.outside hout
      · rcases hknows.quoted hout with hs | hs
        · rw [hfound] at hs
          cases hs
        · exact hs.2
    · have hseen := hknows.outside hout
      rw [hend] at hseen
      obtain ⟨before, pre, on, gap, w, rfl, hon, hw⟩ := hseen
      exact ⟨before, pre, on, gap, w, [], by simp, hon, hw, by simp⟩

end Reading

/-! ### The clause and the translation -/

section Translation

variable {q : Quote} {p : Progress} {r : Reader} {t u blank word rest : List Char}

/-- A reader of the clause does not notice a replacement between other words. -/
theorem Reader.read_replace {n s : List Char} (hn : n ≠ []) (hquote : Unquoted n)
    (hs : Unquoted s) (h : ∀ p : Progress, n.foldl Progress.step p = s.foldl Progress.step p) :
    r.read (replace Char.toLower n s t) = r.read t := by
  refine foldl_replace hn (fun m hm r ↦ ?_) r t
  have hm' := Reader.read_unquoted (q := r.quote) (p := r.progress) (unquoted_of_map hm hquote)
  have hs' := Reader.read_unquoted (q := r.quote) (p := r.progress) hs
  rw [Progress.foldl_toLower hm, h] at hm'
  exact hm'.trans hs'.symm

theorem Reader.read_ifnull : r.read (replace Char.toLower ifnull coalesce t) = r.read t := by
  exact Reader.read_replace (by decide) (by decide) (by decide) (by decide +kernel)

theorem Reader.read_rewriteTransactions : r.read (rewriteTransactions t) = r.read t := by
  rw [rewriteTransactions_eq,
    Reader.read_replace (by decide) (by decide) (by decide) (by decide +kernel),
    Reader.read_replace (by decide) (by decide +kernel) (by decide) (by decide +kernel)]

theorem Reader.read_rewritePlaceholders :
    Reader.read ⟨q, p⟩ (rewritePlaceholders q t) = Reader.read ⟨q, p⟩ t := by
  have hmarks : ∀ p : Progress, p.step '$' = p.step '?' := by decide +kernel
  induction t generalizing q p with
  | nil => rfl
  | cons c t ih =>
    rw [rewritePlaceholders]
    split_ifs with hc
    · obtain ⟨rfl, rfl, -⟩ := hc
      have hstep : Reader.step ⟨.outside, p⟩ '$' = Reader.step ⟨.outside, p⟩ '?' := by
        simp [Reader.step, hmarks, step_question]
      rw [Reader.read, List.foldl_cons, hstep]
      exact ih
    · exact ih

theorem read_insertInto :
    Reader.start.read (insertInto ++ u) = Reader.read ⟨.outside, .other⟩ u := by
  have hread : Reader.start.read insertInto = ⟨.outside, .other⟩ := by
    rw [Reader.start, Reader.read_unquoted aside_insertInto.unquoted]
    decide +kernel
  rw [Reader.read_append, hread]

theorem foldl_blank (h : ∀ c ∈ blank, isWhitespace c = true) (hp : p = .start ∨ p = .other) :
    blank.foldl Progress.step p = .start ∨ blank.foldl Progress.step p = .other := by
  induction blank generalizing p with
  | nil => exact hp
  | cons c blank ih =>
    rw [List.forall_mem_cons] at h
    refine ih h.2 ?_
    have ho : ¬ 'o' = c.toLower := by
      intro ho
      have hspace := isWhitespace_toLower c
      rw [← ho, h.1] at hspace
      cases hspace
    have hmiss : Progress.miss c = .start ∨ Progress.miss c = .other := by
      unfold Progress.miss
      split_ifs
      · exact .inr rfl
      · exact .inl rfl
    rcases hp with rfl | rfl
    · simpa [Progress.start, Progress.step, keywordOn, ho] using hmiss
    · exact hmiss

theorem Headed.read (h : Headed orIgnore t blank word rest) :
    Reader.start.read (blank ++ (word ++ u)) = Reader.read ⟨.outside, .other⟩ u := by
  have hblank : Reader.start.read blank = Reader.start ∨
      Reader.start.read blank = ⟨.outside, .other⟩ := by
    rw [Reader.start, Reader.read_unquoted (aside_blank h.blank).unquoted, if_pos rfl]
    exact (foldl_blank h.blank (.inl rfl)).imp (congrArg _) (congrArg _)
  have hword (p : Progress) (hp : p ≠ .found) :
      Reader.read ⟨.outside, p⟩ word = ⟨.outside, .other⟩ := by
    have hfold : ∀ p : Progress, p ≠ .found → orIgnore.foldl Progress.step p = .other := by
      decide +kernel
    rw [Reader.read_keyword h.word (by decide +kernel), hfold p hp]
  rw [Reader.read_append, Reader.read_append]
  rcases hblank with hb | hb
  · rw [hb, Reader.start, hword _ (by decide)]
  · rw [hb, hword _ (by decide)]

theorem contains_rewritePlaceholders {n : List Char} (hn : Plain n) :
    Contains Char.toLower n (rewritePlaceholders q t) ↔ Contains Char.toLower n t := by
  induction t generalizing q with
  | nil => rfl
  | cons c t ih =>
    have hbegins := begins_rewritePlaceholders (q := q) (t := c :: t) hn
    rw [rewritePlaceholders] at hbegins ⊢
    rw [contains_cons, contains_cons, hbegins, ih]

theorem Headed.contains (h : Headed orIgnore t blank word rest) :
    Contains Char.toLower onConflict (insertInto ++ rest) ↔ Contains Char.toLower onConflict t := by
  have hmap {x y : List Char} (hxy : x.map Char.toLower = y.map Char.toLower) :
      Contains Char.toLower onConflict x ↔ Contains Char.toLower onConflict y := by
    rw [Contains, hxy]
    rfl
  have ho : 'o' ∉ blank.map Char.toLower := by
    intro hmem
    obtain ⟨c, hc, ho⟩ := List.mem_map.mp hmem
    have hspace := isWhitespace_toLower c
    rw [ho, h.blank c hc] at hspace
    cases hspace
  have hblank : Apart onConflict (blank.map Char.toLower) := apart_of_not_mem ho
  -- only the last letter of the first words can belong to what is searched for
  have hinto : Contains Char.toLower onConflict (insertInto ++ rest) ↔
      Contains Char.toLower onConflict ("insert int".toList ++ 'o' :: rest) := hmap rfl
  have hword : Contains Char.toLower onConflict (word ++ rest) ↔
      Contains Char.toLower onConflict ("insert or ignore int".toList ++ 'o' :: rest) := by
    apply hmap
    rw [List.map_append, h.word]
    rfl
  rw [h.eq, hblank.contains, hinto, hword, Apart.contains (by decide +kernel),
    Apart.contains (by decide +kernel)]

theorem Headed.rewritePlaceholders (h : Headed orIgnore t blank word rest) :
    Headed orIgnore (Sql.rewritePlaceholders .outside t) blank word
      (Sql.rewritePlaceholders .outside rest) := by
  have hblank := aside_blank h.blank
  have hword := h.aside (by simp)
  refine ⟨?_, h.blank, h.word⟩
  rw [h.eq, rewritePlaceholders_append hblank.plain, rewritePlaceholders_append hword.plain,
    after_of_unquoted hblank.unquoted, after_of_unquoted hword.unquoted]

theorem Headed.read_rewriteEpoch (h : Headed orIgnore t blank word rest) :
    Reader.start.read (rewriteEpoch (insertInto ++ rest)) = Reader.start.read (rewriteEpoch t) := by
  rw [h.eq, aside_insertInto.rewriteEpoch, (aside_blank h.blank).rewriteEpoch,
    (h.aside (by simp)).rewriteEpoch, read_insertInto, h.read]

theorem Reader.read_doNothing (hr : r.quote = .outside) : (r.read doNothing).Accepts := by
  have hfold : ∀ p : Progress, doNothing.foldl Progress.step p = .found := by decide +kernel
  have hread := Reader.read_unquoted (q := r.quote) (p := r.progress) (s := doNothing)
    (by decide +kernel)
  left
  rw [hread, if_pos hr, hfold]

theorem Reader.read_quoted {s : List Char} (hr : r.quote ≠ .outside) (hs : Unquoted s) :
    r.read s = r := by
  have hread := Reader.read_unquoted (q := r.quote) (p := r.progress) hs
  rwa [if_neg hr] at hread

theorem accepts_doNothing {body tail : List Char} (htail : tail.all trailing = true) :
    (Reader.start.read (rewriteEpoch (body ++ doNothing))).Accepts ↔
      (Reader.start.read (rewriteEpoch (body ++ tail))).Accepts ∨ Balanced body := by
  obtain ⟨hunquoted, -, -, hlast⟩ := ending_facts htail
  obtain ⟨hunquoted', -, -, hlast'⟩ := ending_facts trailing_doNothing
  have hquote : (Reader.start.read (rewriteEpoch body)).quote = Quote.after .outside body :=
    Reader.quote_read.trans after_rewriteEpoch
  rw [rewriteEpoch_append hlast, rewriteEpoch_append hlast', Reader.read_append,
    Reader.read_append]
  by_cases hb : Balanced body
  · exact iff_of_true (Reader.read_doNothing (hquote.trans hb)) (.inr hb)
  · have hr : (Reader.start.read (rewriteEpoch body)).quote ≠ .outside := hquote ▸ hb
    rw [Reader.read_quoted hr hunquoted, Reader.read_quoted hr hunquoted']
    simp [hb]

end Translation

/-- A statement that begins with `INSERT OR IGNORE INTO`. -/
def InsertOrIgnore (sql : String) : Prop :=
  Begins Char.toLower orIgnore (sql.toList.dropWhile isWhitespace)

instance (sql : String) : Decidable (InsertOrIgnore sql) :=
  inferInstanceAs (Decidable (Begins _ _ _))

/-- The translation of `INSERT OR IGNORE INTO` has a conflict clause outside quotes exactly if the
statement has one already, or has balanced quotes and the characters `on conflict` nowhere. -/
theorem toPostgres_has_clause_iff {sql : String} (hsql : InsertOrIgnore sql) :
    HasConflictClause (toPostgres sql).toList ↔
      HasConflictClause (rewriteEpoch sql.toList) ∨
        (¬ Contains Char.toLower onConflict sql.toList ∧ Balanced sql.toList) := by
  obtain ⟨blank, word, rest, h, -⟩ := exists_headed hsql
  have h' := h.rewritePlaceholders
  have hcontains : Contains Char.toLower onConflict
      (insertInto ++ rewritePlaceholders .outside rest) ↔
      Contains Char.toLower onConflict sql.toList :=
    h'.contains.trans (contains_rewritePlaceholders (by decide))
  have hepoch : Reader.start.read (rewriteEpoch (rewritePlaceholders .outside sql.toList)) =
      Reader.start.read (rewriteEpoch sql.toList) := by
    rw [rewriteEpoch_rewritePlaceholders]
    exact Reader.read_rewritePlaceholders
  rw [hasConflictClause_iff, hasConflictClause_iff, toList_toPostgres,
    Reader.read_rewriteTransactions, Reader.read_ifnull, h'.rewriteInsertOr]
  split_ifs with hc
  · rw [h'.read_rewriteEpoch, hepoch]
    simp [hcontains.mp hc]
  · obtain ⟨tail, hbody, hends⟩ := exists_tail (insertInto ++ rewritePlaceholders .outside rest)
    have htail : tail.all trailing = true :=
      List.all_eq_true.mpr fun c hc ↦ trailing_of_tail (hends c hc)
    have hquote := after_rewriteInsertOr_body h' (by simp) hbody (ending_facts htail).1
    rw [accepts_doNothing htail, ← hbody, h'.read_rewriteEpoch, hepoch, Balanced, hquote,
      after_rewritePlaceholders]
    simp [← hcontains, hc, Balanced]

theorem toPostgres_has_clause_plain :
    HasConflictClause (toPostgres "INSERT OR IGNORE INTO t (a) VALUES ('kept')").toList := by
  apply (toPostgres_has_clause_iff (by decide +kernel)).mpr
  right
  decide +kernel

/-- The words in a literal keep the clause away. -/
theorem literal_suppresses_clause :
    InsertOrIgnore "INSERT OR IGNORE INTO t (a) VALUES ('on conflict')" ∧
      toPostgres "INSERT OR IGNORE INTO t (a) VALUES ('on conflict')" =
        "INSERT INTO t (a) VALUES ('on conflict')" ∧
      ¬ HasConflictClause "INSERT INTO t (a) VALUES ('on conflict')".toList := by
  refine ⟨by decide +kernel, by decide +kernel, ?_⟩
  rw [hasConflictClause_iff]
  decide +kernel

end SauronId.Sql
