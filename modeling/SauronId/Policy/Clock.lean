import Mathlib.Data.String.Basic
import SauronId.Policy.Enforcement

namespace SauronId.Policy

open Lib Lib.Text

/-- The decimal digits of Unicode with their values. `\d` of the `regex` crate stands for any of
them, and all but the ten of ASCII come after those. -/
structure DecimalDigits (E : TextEngine) where
  value : Char → ℕ
  value_lt : ∀ c, E.decimalDigit c → value c < 10
  value_ascii : ∀ c, c.isDigit → value c = c.toNat - 48
  decimal_ascii : ∀ c, c.isDigit → E.decimalDigit c
  beyond : ∀ c, E.decimalDigit c → c.isDigit ∨ 128 ≤ c.toNat

def rank (c : Char) : ℕ := if c.isDigit then c.toNat - 48 else 10

def isAscii (s : String) : Bool := s.toList.all (fun c ↦ c.toNat < 128)

def DecimalDigits.minute {E : TextEngine} (D : DecimalDigits E) (s : String) : ℕ :=
  match s.toList with
  | [h₁, h₂, _, m₁, m₂] =>
    60 * (10 * D.value h₁ + D.value h₂) + (10 * D.value m₁ + D.value m₂)
  | _ => 0

/-- The last minute of the day that a clock does not write after `s`. -/
def reach (s : String) : ℕ :=
  match s.toList with
  | [h₁, h₂, _, m₁, m₂] =>
    if ¬ h₂.isDigit then 60 * (10 * rank h₁ + 9) + 59
    else if ¬ m₂.isDigit then 60 * (10 * rank h₁ + rank h₂) + (10 * rank m₁ + 9)
    else 60 * (10 * rank h₁ + rank h₂) + (10 * rank m₁ + rank m₂)
  | _ => 0

/-- The first minute of the day that a clock does not write before `s`. -/
def DecimalDigits.opens {E : TextEngine} (D : DecimalDigits E) (s : String) : ℕ :=
  if isAscii s then D.minute s else reach s + 1

def LocalTime.minuteOfDay (t : LocalTime) : ℕ := 60 * t.hour + t.minute

/-- Both ends belong to the window, which runs past midnight when it starts after it ends. -/
def Within (start stop m : ℕ) : Prop :=
  if start ≤ stop then start ≤ m ∧ m ≤ stop else start ≤ m ∨ m ≤ stop

section Digits

variable {E : TextEngine} (D : DecimalDigits E) {c : Char} {s : String} {t : LocalTime}

theorem isDigit_of_between {k : ℕ} (hk : k < 10) (hzero : '0' ≤ c) (hle : c ≤ Nat.digitChar k) :
    c.isDigit = true ∧ rank c ≤ k := by
  have hlow : 48 ≤ c.toNat := hzero
  have hhigh : c.toNat ≤ (Nat.digitChar k).toNat := hle
  rw [Nat.toNat_digitChar_of_lt_ten hk] at hhigh
  have hdigit : c.isDigit = true := isDigit_iff.mpr ⟨hlow, by omega⟩
  refine ⟨hdigit, ?_⟩
  rw [rank, if_pos hdigit]
  omega

include D in
theorem lt_digitChar_iff {d : ℕ} (h : d < 10) (hc : E.decimalDigit c) :
    c < Nat.digitChar d ↔ rank c < d := by
  have hlt : c < Nat.digitChar d ↔ c.toNat < (Nat.digitChar d).toNat := Iff.rfl
  rw [hlt, Nat.toNat_digitChar_of_lt_ten h, rank]
  split_ifs with hdigit
  · have := isDigit_iff.mp hdigit
    omega
  · have := (D.beyond c hc).resolve_left hdigit
    omega

include D in
theorem eq_digitChar_iff {d : ℕ} (h : d < 10) (hc : E.decimalDigit c) :
    c = Nat.digitChar d ↔ rank c = d := by
  rw [← Char.toNat_inj, Nat.toNat_digitChar_of_lt_ten h, rank]
  split_ifs with hdigit
  · have := isDigit_iff.mp hdigit
    omega
  · have := (D.beyond c hc).resolve_left hdigit
    omega

theorem rank_lt_ten (h : c.isDigit = true) : rank c < 10 := by
  have := isDigit_iff.mp h
  rw [rank, if_pos h]
  omega

theorem rank_of_not_isDigit (h : ¬ c.isDigit = true) : rank c = 10 := if_neg h

theorem value_eq_rank (h : c.isDigit = true) : D.value c = rank c := by
  rw [D.value_ascii c h, rank, if_pos h]

end Digits

/-- The four digits of a text that the pattern `^(?:[01]\d|2[0-3]):[0-5]\d$` accepts. -/
structure HhmmDigits (E : TextEngine) (s : String) (h₁ h₂ m₁ m₂ : Char) : Prop where
  toList_eq : s.toList = [h₁, h₂, ':', m₁, m₂]
  decimal : ∀ c ∈ [h₁, h₂, m₁, m₂], E.decimalDigit c
  first : h₁.isDigit ∧ rank h₁ ≤ 2
  hour : if h₂.isDigit then 10 * rank h₁ + rank h₂ < 24 else rank h₁ ≤ 1
  tens : m₁.isDigit ∧ rank m₁ ≤ 5

section Accepted

variable {E : TextEngine} (D : DecimalDigits E) {s start stop : String} {t : LocalTime}

include D in
theorem exists_hhmmDigits (h : validateHhmm E s = .ok ()) :
    ∃ h₁ h₂ m₁ m₂, HhmmDigits E s h₁ h₂ m₁ m₂ := by
  replace h : hhmmLike E s = true := ensure_eq_ok.mp h
  unfold hhmmLike at h
  split at h
  · rename_i h₁ h₂ colon m₁ m₂ hs
    simp only [decide_eq_true_eq] at h
    obtain ⟨hhour, rfl, ⟨hlow, hhigh⟩, hm₂⟩ := h
    have htens := isDigit_of_between (k := 5) (by decide) hlow hhigh
    have hm₁ := D.decimal_ascii m₁ htens.1
    refine ⟨h₁, h₂, m₁, m₂, hs, ?_, ?_, ?_, htens⟩
    · rcases hhour with ⟨rfl | rfl, hh₂⟩ | ⟨rfl, hlow₂, hhigh₂⟩
      · simp [hh₂, hm₁, hm₂, D.decimal_ascii '0' rfl]
      · simp [hh₂, hm₁, hm₂, D.decimal_ascii '1' rfl]
      · have hh₂ := isDigit_of_between (k := 3) (by decide) hlow₂ hhigh₂
        simp [hm₁, hm₂, D.decimal_ascii '2' rfl, D.decimal_ascii h₂ hh₂.1]
    · rcases hhour with ⟨rfl | rfl, -⟩ | ⟨rfl, -⟩ <;> decide
    · rcases hhour with ⟨hfirst, hh₂⟩ | ⟨rfl, hlow₂, hhigh₂⟩
      · have hle : rank h₁ ≤ 1 := by rcases hfirst with rfl | rfl <;> decide
        split_ifs with hdigit
        · have hlt := D.value_lt h₂ hh₂
          rw [value_eq_rank D hdigit] at hlt
          omega
        · exact hle
      · have hh₂ := isDigit_of_between (k := 3) (by decide) hlow₂ hhigh₂
        have htwo : rank '2' = 2 := by decide
        rw [if_pos hh₂.1, htwo]
        omega
  · cases h

theorem toList_zeroPad_two : ∀ n : Fin 60,
    (zeroPad 2 n).toList = [Nat.digitChar (n / 10), Nat.digitChar (n % 10)] := by
  decide +kernel

theorem toList_hhmm (t : LocalTime) : t.hhmm.toList =
    [Nat.digitChar (t.hour / 10), Nat.digitChar (t.hour % 10), ':',
      Nat.digitChar (t.minute / 10), Nat.digitChar (t.minute % 10)] := by
  have hhour := toList_zeroPad_two (t.hour.castLE (by decide))
  have hminute := toList_zeroPad_two t.minute
  simp only [Fin.val_castLE] at hhour
  simp [LocalTime.hhmm, hhour, hminute]

variable {h₁ h₂ m₁ m₂ : Char}

theorem HhmmDigits.reach_eq (hs : HhmmDigits E s h₁ h₂ m₁ m₂) :
    reach s =
      if ¬ h₂.isDigit then 60 * (10 * rank h₁ + 9) + 59
      else if ¬ m₂.isDigit then 60 * (10 * rank h₁ + rank h₂) + (10 * rank m₁ + 9)
      else 60 * (10 * rank h₁ + rank h₂) + (10 * rank m₁ + rank m₂) := by
  rw [reach, hs.toList_eq]

include D in
theorem hhmm_le_iff (hs : validateHhmm E s = .ok ()) :
    t.hhmm ≤ s ↔ t.minuteOfDay ≤ reach s := by
  obtain ⟨h₁, h₂, m₁, m₂, hs⟩ := exists_hhmmDigits D hs
  have hdec := hs.decimal
  simp only [List.forall_mem_cons, List.not_mem_nil, false_imp_iff, implies_true, and_true] at hdec
  obtain ⟨hd₁, hd₂, hd₃, hd₄⟩ := hdec
  have hhour := t.hour.isLt
  have hminute := t.minute.isLt
  have hten {n : ℕ} (h : n < 100) : n / 10 < 10 := by omega
  have hone {n : ℕ} : n % 10 < 10 := Nat.mod_lt _ (by decide)
  have hh := hten (hhour.trans (by decide))
  have hm := hten (hminute.trans (by decide))
  rw [← not_lt, String.lt_iff_toList_lt, toList_hhmm, hs.toList_eq]
  simp only [List.cons_lt_cons_iff, lt_irrefl, true_and, false_or, and_false, or_false,
    lt_digitChar_iff D hh hd₁, eq_digitChar_iff D hh hd₁, lt_digitChar_iff D hone hd₂,
    eq_digitChar_iff D hone hd₂, lt_digitChar_iff D hm hd₃, eq_digitChar_iff D hm hd₃,
    lt_digitChar_iff D hone hd₄]
  -- what is left compares four numbers one after the other
  have htens := hs.tens.2
  rw [hs.reach_eq, LocalTime.minuteOfDay]
  by_cases h₂digit : h₂.isDigit
  · have hlt₂ := rank_lt_ten h₂digit
    rw [if_neg (not_not.mpr h₂digit)]
    by_cases m₂digit : m₂.isDigit
    · have hlt₄ := rank_lt_ten m₂digit
      rw [if_neg (not_not.mpr m₂digit)]
      omega
    · rw [if_pos m₂digit, rank_of_not_isDigit m₂digit]
      omega
  · rw [if_pos h₂digit, rank_of_not_isDigit h₂digit]
    omega

theorem HhmmDigits.minute_eq (hs : HhmmDigits E s h₁ h₂ m₁ m₂) :
    D.minute s = 60 * (10 * rank h₁ + D.value h₂) + (10 * rank m₁ + D.value m₂) := by
  rw [DecimalDigits.minute, hs.toList_eq, ← value_eq_rank D hs.first.1,
    ← value_eq_rank D hs.tens.1]

theorem minute_reach (hs : validateHhmm E s = .ok ()) :
    D.minute s ≤ reach s ∧ reach s < 1440 ∧ (reach s = 1439 → D.minute s ≠ 0) := by
  obtain ⟨h₁, h₂, m₁, m₂, hs⟩ := exists_hhmmDigits D hs
  have hlt₂ := D.value_lt h₂ (hs.decimal h₂ (by simp))
  have hlt₄ := D.value_lt m₂ (hs.decimal m₂ (by simp))
  have hfirst := hs.first.2
  have htens := hs.tens.2
  have hhour := hs.hour
  rw [hs.minute_eq D, hs.reach_eq]
  by_cases h₂digit : h₂.isDigit
  · rw [if_pos h₂digit] at hhour
    rw [if_neg (not_not.mpr h₂digit), value_eq_rank D h₂digit]
    by_cases m₂digit : m₂.isDigit
    · have hlt := rank_lt_ten m₂digit
      rw [if_neg (not_not.mpr m₂digit), value_eq_rank D m₂digit]
      omega
    · rw [if_pos m₂digit]
      omega
  · rw [if_neg h₂digit] at hhour
    rw [if_pos h₂digit]
    omega

theorem exists_minuteOfDay {m : ℕ} (h : m < 1440) : ∃ t : LocalTime, t.minuteOfDay = m := by
  refine ⟨{ hour := ⟨m / 60, by omega⟩, minute := ⟨m % 60, by omega⟩, weekday := 0, year := 2026,
            month := 1, day := 1 }, ?_⟩
  exact Nat.div_add_mod m 60

theorem minuteOfDay_lt (t : LocalTime) : t.minuteOfDay < 1440 := by
  have hhour := t.hour.isLt
  have hminute := t.minute.isLt
  rw [LocalTime.minuteOfDay]
  omega

theorem isDigit_digitChar {d : ℕ} (h : d < 10) : (Nat.digitChar d).isDigit = true := by
  rw [isDigit_iff, Nat.toNat_digitChar_of_lt_ten h]
  omega

theorem value_digitChar {d : ℕ} (h : d < 10) : D.value (Nat.digitChar d) = d := by
  rw [D.value_ascii _ (isDigit_digitChar h), Nat.toNat_digitChar_of_lt_ten h]
  omega

theorem minute_hhmm : D.minute t.hhmm = t.minuteOfDay := by
  have hhour := t.hour.isLt
  have hminute := t.minute.isLt
  rw [DecimalDigits.minute, toList_hhmm, LocalTime.minuteOfDay]
  simp only [value_digitChar D (by omega : t.hour.val / 10 < 10),
    value_digitChar D (by omega : t.minute.val / 10 < 10),
    value_digitChar D (Nat.mod_lt _ (by decide))]
  omega

theorem isAscii_hhmm : isAscii t.hhmm = true := by
  have hhour := t.hour.isLt
  have hminute := t.minute.isLt
  have hdigit {d : ℕ} (h : d < 10) : (Nat.digitChar d).toNat < 128 := by
    rw [Nat.toNat_digitChar_of_lt_ten h]
    omega
  rw [isAscii, toList_hhmm]
  simp [hdigit (by omega : t.hour.val / 10 < 10), hdigit (by omega : t.minute.val / 10 < 10),
    hdigit (Nat.mod_lt _ (by decide))]

theorem eq_hhmm_of_isAscii (hs : validateHhmm E s = .ok ()) (hascii : isAscii s = true) :
    D.minute s = reach s ∧ (t.hhmm = s ↔ t.minuteOfDay = D.minute s) := by
  obtain ⟨h₁, h₂, m₁, m₂, hs⟩ := exists_hhmmDigits D hs
  have hdigit : ∀ c ∈ [h₁, h₂, m₁, m₂], c.isDigit = true := by
    intro c hc
    refine (D.beyond c (hs.decimal c hc)).resolve_right (not_le.mpr ?_)
    simp only [isAscii, hs.toList_eq, List.all_eq_true, decide_eq_true_eq] at hascii
    apply hascii
    simp only [List.mem_cons] at hc ⊢
    tauto
  have h₂digit := hdigit h₂ (by simp)
  have m₂digit := hdigit m₂ (by simp)
  have hminute := hs.minute_eq D
  rw [value_eq_rank D h₂digit, value_eq_rank D m₂digit] at hminute
  refine ⟨?_, fun h ↦ h ▸ (minute_hhmm D).symm, fun h ↦ ?_⟩
  · rw [hs.reach_eq, hminute, if_neg (not_not.mpr h₂digit), if_neg (not_not.mpr m₂digit)]
  · have hlt₂ := rank_lt_ten h₂digit
    have hlt₄ := rank_lt_ten m₂digit
    have hfirst := hs.first.2
    have htens := hs.tens.2
    have hm := t.minute.isLt
    rw [hminute, LocalTime.minuteOfDay] at h
    have hd (c : Char) (hc : c ∈ [h₁, h₂, m₁, m₂]) {d : ℕ} (hlt : d < 10) (he : rank c = d) :
        Nat.digitChar d = c :=
      ((eq_digitChar_iff D hlt (hs.decimal c hc)).mpr he).symm
    rw [← String.toList_inj, toList_hhmm, hs.toList_eq, hd h₁ (by simp) (by omega) (by omega),
      hd h₂ (by simp) (by omega) (by omega), hd m₁ (by simp) (by omega) (by omega),
      hd m₂ (by simp) (by omega) (by omega)]

theorem le_hhmm_iff (hs : validateHhmm E s = .ok ()) :
    s ≤ t.hhmm ↔ D.opens s ≤ t.minuteOfDay := by
  have hle := hhmm_le_iff D (t := t) hs
  rw [le_iff_lt_or_eq, ← not_le, hle, not_le, DecimalDigits.opens]
  split_ifs with hascii
  · obtain ⟨hreach, heq⟩ := eq_hhmm_of_isAscii D (t := t) hs hascii
    rw [eq_comm, heq, hreach]
    omega
  · have hne : s ≠ t.hhmm := by
      rintro rfl
      exact hascii isAscii_hhmm
    simp only [hne, or_false]
    omega

theorem inWindow_hhmm (hstart : validateHhmm E start = .ok ())
    (hstop : validateHhmm E stop = .ok ()) :
    inWindow start stop t.hhmm = true ↔
      if start ≤ stop then D.opens start ≤ t.minuteOfDay ∧ t.minuteOfDay ≤ reach stop
      else D.opens start ≤ t.minuteOfDay ∨ t.minuteOfDay ≤ reach stop := by
  unfold inWindow
  split_ifs <;> simp [le_hhmm_iff D hstart, hhmm_le_iff D hstop]

theorem within_iff {a b m : ℕ} :
    Within a b m ↔ a ≤ b ∧ a ≤ m ∧ m ≤ b ∨ b < a ∧ (a ≤ m ∨ m ≤ b) := by
  unfold Within
  split_ifs <;> omega

include D in
theorem start_le_stop_iff (hstart : validateHhmm E start = .ok ())
    (hstop : validateHhmm E stop = .ok ()) (hascii : isAscii start = true) :
    start ≤ stop ↔ D.minute start ≤ reach stop := by
  have hlt : D.minute start < 1440 := by
    have := minute_reach D hstart
    omega
  obtain ⟨t, ht⟩ := exists_minuteOfDay hlt
  have htext := (eq_hhmm_of_isAscii D (t := t) hstart hascii).2.mpr ht
  rw [← ht, ← hhmm_le_iff D hstop, htext]

include D in
theorem reach_mono (hstart : validateHhmm E start = .ok ()) (hstop : validateHhmm E stop = .ok ())
    (h : stop ≤ start) : reach stop ≤ reach start := by
  obtain ⟨t, ht⟩ := exists_minuteOfDay (minute_reach D hstop).2.1
  rw [← ht, ← hhmm_le_iff D hstart]
  exact ((hhmm_le_iff D hstop).mpr ht.le).trans h

/-- Time windows mean minutes exactly when the start is written in ASCII and the end reaches no
further than its own minute, or when the day is covered twice over: by the minutes, and by texts
of which the end comes before the start and reaches as far. -/
theorem inWindow_means_minutes_iff (hstart : validateHhmm E start = .ok ())
    (hstop : validateHhmm E stop = .ok ()) :
    (D.minute start < 24 * 60 ∧ D.minute stop < 24 * 60 ∧
      ∀ t : LocalTime, inWindow start stop t.hhmm = true ↔
        Within (D.minute start) (D.minute stop) t.minuteOfDay) ↔
    (isAscii start = true ∧ reach stop = D.minute stop) ∨
      (isAscii start = false ∧ stop < start ∧ reach stop = reach start ∧
        D.minute stop + 1 = D.minute start) := by
  obtain ⟨hA, hr, hlast⟩ := minute_reach D hstart
  obtain ⟨hB, hb, -⟩ := minute_reach D hstop
  have hday : D.minute start < 24 * 60 ∧ D.minute stop < 24 * 60 := by omega
  have hall : (∀ t : LocalTime, inWindow start stop t.hhmm = true ↔
        Within (D.minute start) (D.minute stop) t.minuteOfDay) ↔
      ∀ m < 1440, (if start ≤ stop then D.opens start ≤ m ∧ m ≤ reach stop
        else D.opens start ≤ m ∨ m ≤ reach stop) ↔
        Within (D.minute start) (D.minute stop) m := by
    constructor
    · intro h m hm
      obtain ⟨t, rfl⟩ := exists_minuteOfDay hm
      rw [← h t, inWindow_hhmm D hstart hstop]
    · intro h t
      rw [← h _ (minuteOfDay_lt t), inWindow_hhmm D hstart hstop]
  rw [and_iff_right hday.1, and_iff_right hday.2, hall]
  simp only [within_iff]
  cases hascii : isAscii start with
  | true =>
    -- start and end are compared like the minutes they stand for, up to the reach of the end
    have hopens : D.opens start = D.minute start := if_pos hascii
    simp only [start_le_stop_iff D hstart hstop hascii, hopens, true_and, Bool.true_eq_false,
      false_and, or_false]
    constructor
    · intro h
      have hend := h (reach stop) hb
      have hown := h (D.minute stop) (by omega)
      split_ifs at hend hown <;> omega
    · intro h m _
      split_ifs <;> omega
  | false =>
    -- the window opens after the minute of its start
    have hopens : D.opens start = reach start + 1 := if_neg (by simp [hascii])
    simp only [hopens, Bool.false_eq_true, false_and, false_or, true_and]
    by_cases hle : start ≤ stop
    · simp only [hle, if_true, not_lt.mpr hle, false_and, iff_false]
      intro h
      have hown := h (D.minute start) (by omega)
      omega
    · have hmono := reach_mono D hstart hstop (not_le.mp hle).le
      simp only [hle, if_false, not_le.mp hle, true_and]
      constructor
      · intro h
        have hown := h (D.minute start) (by omega)
        have hfirst := h 0 (by omega)
        have hfinal := h 1439 (by omega)
        have hgap := h (min (reach stop + 1) 1439) (by omega)
        have hnext := h (min (D.minute stop + 1) 1439) (by omega)
        omega
      · intro h m _
        omega

end Accepted

def easternText : TextEngine :=
  { plainEngine.text with decimalDigit := fun c ↦ c.isDigit ∨ ('٠' ≤ c ∧ c ≤ '٩') }

theorem easternText_decimalDigit {c : Char} : easternText.decimalDigit c = true ↔
    c.isDigit = true ∨ (1632 ≤ c.toNat ∧ c.toNat ≤ 1641) :=
  decide_eq_true_iff

def easternDigits : DecimalDigits easternText where
  value := fun c ↦ if c.isDigit then c.toNat - 48 else c.toNat - 1632
  value_lt := by
    intro c hc
    have hrange := easternText_decimalDigit.mp hc
    split_ifs with hdigit
    · have := isDigit_iff.mp hdigit
      omega
    · have := hrange.resolve_left hdigit
      omega
  value_ascii := fun c hc ↦ if_pos hc
  decimal_ascii := fun c hc ↦ easternText_decimalDigit.mpr (.inl hc)
  beyond := by
    intro c hc
    refine (easternText_decimalDigit.mp hc).imp_right ?_
    omega

def halfPastNine : LocalTime := .atOffset 0 34200

theorem inWindow_means_minutes_office :
    easternDigits.minute "09:00" = 540 ∧ easternDigits.minute "17:00" = 1020 ∧
      ∀ t : LocalTime, inWindow "09:00" "17:00" t.hhmm = true ↔
        Within (easternDigits.minute "09:00") (easternDigits.minute "17:00") t.minuteOfDay := by
  have hstart : validateHhmm easternText "09:00" = .ok () := by decide
  have hstop : validateHhmm easternText "17:00" = .ok () := by decide
  have h := (inWindow_means_minutes_iff easternDigits hstart hstop).mpr (.inl (by decide))
  exact ⟨rfl, rfl, h.2.2⟩

/-- Nine o'clock with an Arabic-Indic nine lets half past nine in. -/
theorem eastern_nine_reaches_further :
    validateHhmm easternText "00:00" = .ok () ∧ validateHhmm easternText "0٩:00" = .ok () ∧
      easternDigits.minute "00:00" = 0 ∧ easternDigits.minute "0٩:00" = 540 ∧
      halfPastNine.minuteOfDay = 570 ∧ inWindow "00:00" "0٩:00" halfPastNine.hhmm = true ∧
      ¬ Within 0 540 570 := by
  refine ⟨by decide, by decide, by decide, by decide, by decide, by decide, ?_⟩
  rw [within_iff]
  omega

end SauronId.Policy
