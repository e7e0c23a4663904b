import SauronId.Lib.Window
import SauronId.Payment.Tables

namespace SauronId.Risk

open Lib Lib.Run Lib.Text Lib.Window
open Payment (RiskCounter checkAndIncrement)

def windowSecs (setting : Option ℤ) : ℤ := max 10 (min (setting.getD 60) 3600)

/-- One call of `check_and_increment`, with the error that the engine rolls its
transaction back with, if any. -/
structure RiskCall where
  bucket : String
  (now maxPerWindow : ℤ)
  fault : Option String := none

structure RiskWorld where
  counters : Table RiskCounter.key
  /-- The calls so far, each with whether it was let through. -/
  history : List (RiskCall × Bool)

def RiskCall.exec (w : ℤ) (c : RiskCall) (counters : Table RiskCounter.key) :
    Except String Unit × Table RiskCounter.key :=
  match c.fault with
  | some e => (.error ("risk: db error: " ++ e), counters)
  | none => checkAndIncrement w counters c.bucket c.now c.maxPerWindow

def nextRisk (w : ℤ) (v : RiskWorld) (c : RiskCall) : Option RiskWorld :=
  let (answer, counters) := c.exec w v.counters
  some ⟨counters, v.history ++ [(c, answer.isOk)]⟩

def RiskWorld.init : RiskWorld := ⟨.empty, []⟩

def letThrough (b : String) (history : List (RiskCall × Bool)) : List ℤ :=
  (history.filter (fun h ↦ h.1.bucket = b ∧ h.2 = true)).map (fun h ↦ h.1.now)

def count (counters : Table RiskCounter.key) (b : String) (k : ℤ) : ℤ :=
  (counters.get (b, k)).elim 0 RiskCounter.cnt

/-- The calls let through less than `w` seconds before `now` that the counter of
`now` does not count. -/
def forgotten (w now : ℤ) (times : List ℤ) : List ℤ :=
  (recent w now times).filter (fun u ↦ u.tdiv w ≠ now.tdiv w)

/-- The step condition: a call that is the `r`-th of its counter window, and not
beyond the limit there, finds at most `max - r` calls that its counter forgets. -/
def Remembered (w : ℤ) (b : String) (v : RiskWorld) (c : RiskCall) : Prop :=
  c.bucket = b →
    count v.counters b (c.now.tdiv w) + 1 ≤ c.maxPerWindow →
      ((forgotten w c.now (letThrough b v.history)).length : ℤ) +
        (count v.counters b (c.now.tdiv w) + 1) ≤ c.maxPerWindow

instance (w : ℤ) (b : String) (v : RiskWorld) (c : RiskCall) : Decidable (Remembered w b v c) :=
  inferInstanceAs (Decidable (_ → _ → _))

variable {w now maxPerWindow : ℤ} {b : String} {counters : Table RiskCounter.key}

theorem windowSecs_pos (setting : Option ℤ) : 0 < windowSecs setting := by
  unfold windowSecs
  omega

theorem bump_key (c : RiskCounter) : c.bump.key = c.key := rfl

theorem get_upsert (b' : String) (k k' : ℤ) :
    (counters.upsert ⟨b, k, 1⟩ RiskCounter.bump bump_key).get (b', k') =
      if (b', k') = (b, k) then some ((counters.get (b', k')).elim ⟨b, k, 1⟩ RiskCounter.bump)
      else counters.get (b', k') :=
  Table.get_upsert (b', k')

theorem count_upsert (b' : String) (k k' : ℤ) :
    count (counters.upsert ⟨b, k, 1⟩ RiskCounter.bump bump_key) b' k' =
      if (b', k') = (b, k) then count counters b k + 1 else count counters b' k' := by
  unfold count
  rw [get_upsert]
  by_cases hk : (b', k') = (b, k)
  · obtain ⟨rfl, rfl⟩ := Prod.mk.inj hk
    rw [if_pos rfl, if_pos rfl, Option.elim_some]
    cases counters.get (b', k') <;> rfl
  · rw [if_neg hk, if_neg hk]

theorem count_deleteWhere {old : ℤ} {k : ℤ} (hk : old ≤ k) :
    count (counters.deleteWhere (fun c ↦ c.windowId < old)) b k = count counters b k := by
  unfold count
  rw [Table.get_deleteWhere]
  cases hget : counters.get (b, k) with
  | none => rfl
  | some c =>
    obtain ⟨-, hkey⟩ := Table.get_eq_some.mp hget
    have hwindow : c.windowId = k := (Prod.mk.inj hkey).2
    rw [Option.filter_some, if_pos]
    simp only [Bool.not_eq_true', decide_eq_false_iff_not]
    omega

/-- A call increments its counter and is let through unless that passes the
limit. Only counters of windows long past are deleted. -/
theorem checkAndIncrement_spec (hmax : 0 < maxPerWindow) (hlen : len b ≤ 128) :
    (checkAndIncrement w counters b now maxPerWindow).1.isOk =
        decide (count counters b (now.tdiv w) + 1 ≤ maxPerWindow) ∧
      ∀ b' k, now.tdiv w - 120 ≤ k →
        count (checkAndIncrement w counters b now maxPerWindow).2 b' k = if (b', k) = (b, now.tdiv w) then count counters b (now.tdiv w) + 1
        else count counters b' k := by
  have hcounted : ∀ b' k,
      count (counters.upsert ⟨b, now.tdiv w, 1⟩ RiskCounter.bump bump_key) b' k = if (b', k) = (b, now.tdiv w) then count counters b (now.tdiv w) + 1
      else count counters b' k := fun b' k ↦ count_upsert b' (now.tdiv w) k
  have hown := hcounted b (now.tdiv w)
  rw [if_pos rfl] at hown
  unfold checkAndIncrement
  rw [if_neg (not_le.mpr hmax), if_neg (not_lt.mpr hlen)]
  cases hget : (counters.upsert ⟨b, now.tdiv w, 1⟩ RiskCounter.bump bump_key).get
      (b, now.tdiv w) with
  | none =>
    rw [get_upsert, if_pos rfl] at hget
    cases hget
  | some c =>
    have hcnt : c.cnt = count counters b (now.tdiv w) + 1 := by
      rw [← hown, count, hget, Option.elim_some]
    simp only [hget]
    by_cases hover : maxPerWindow < c.cnt
    · rw [if_pos hover]
      refine ⟨?_, fun b' k _ ↦ hcounted b' k⟩
      rw [← hcnt]
      exact (decide_eq_false (not_le.mpr hover)).symm
    · rw [if_neg hover]
      refine ⟨?_, ?_⟩
      · rw [← hcnt]
        exact (decide_eq_true (not_lt.mp hover)).symm
      · intro b' k hk
        rw [count_deleteWhere hk]
        exact hcounted b' k

variable {c : RiskCall} {v v' : RiskWorld} {m : ℕ}

theorem count_le_exec {k : ℤ} (hk : c.now.tdiv w ≤ k) :
    count counters b k ≤ count (c.exec w counters).2 b k := by
  unfold RiskCall.exec
  cases c.fault with
  | some e => exact le_rfl
  | none =>
    by_cases hmax : c.maxPerWindow ≤ 0
    · simp [checkAndIncrement, hmax]
    · by_cases hlen : 128 < len c.bucket
      · simp [checkAndIncrement, hmax, hlen]
      · dsimp only
        rw [(checkAndIncrement_spec (not_le.mp hmax) (not_lt.mp hlen)).2 b k (by omega)]
        split_ifs with heq
        · obtain ⟨rfl, rfl⟩ := Prod.mk.inj heq
          omega
        · exact le_rfl

theorem exec_of_isOk (hmax : 0 < c.maxPerWindow) (hok : (c.exec w counters).1.isOk = true) :
    count counters c.bucket (c.now.tdiv w) + 1 ≤ c.maxPerWindow ∧
      count (c.exec w counters).2 c.bucket (c.now.tdiv w) =
        count counters c.bucket (c.now.tdiv w) + 1 := by
  unfold RiskCall.exec at hok ⊢
  cases hfault : c.fault with
  | some e =>
    rw [hfault] at hok
    cases hok
  | none =>
    rw [hfault] at hok
    dsimp only at hok ⊢
    by_cases hlen : 128 < len c.bucket
    · rw [checkAndIncrement, if_neg (not_le.mpr hmax), if_pos hlen] at hok
      cases hok
    · rw [(checkAndIncrement_spec hmax (not_lt.mp hlen)).1] at hok
      refine ⟨of_decide_eq_true hok, ?_⟩
      exact ((checkAndIncrement_spec hmax (not_lt.mp hlen)).2 _ _ (by omega)).trans (if_pos rfl)

theorem letThrough_concat (b : String) (history : List (RiskCall × Bool)) (c : RiskCall)
    (ok : Bool) : letThrough b (history ++ [(c, ok)]) =
      letThrough b history ++ if c.bucket = b ∧ ok = true then [c.now] else [] := by
  unfold letThrough
  rw [List.filter_append, List.map_append]
  by_cases h : c.bucket = b ∧ ok = true
  · simp [h]
  · rw [if_neg h, List.filter_singleton, decide_eq_false h]
    rfl

/-- A counter counts at least the calls of its window that were let through, and
so far these keep to the limit. -/
structure RiskInvariant (w : ℤ) (b : String) (m : ℕ) (v : RiskWorld) : Prop where
  counted : ∀ k, (∀ h ∈ v.history, h.1.now.tdiv w ≤ k) →
    (((letThrough b v.history).filter (fun u ↦ u.tdiv w = k)).length : ℤ) ≤ count v.counters b k
  limited : Limited w m (letThrough b v.history)

/-- What the sequence of calls promises: the times do not decrease, and the
bucket always comes with the same limit. -/
def InOrder (b : String) (m : ℕ) (v : RiskWorld) (c : RiskCall) : Prop :=
  (∀ h ∈ v.history, h.1.now ≤ c.now) ∧ (c.bucket = b → c.maxPerWindow = m)

theorem length_recent (w now : ℤ) (times : List ℤ) :
    (recent w now times).length ≤ (forgotten w now times).length +
      (times.filter (fun u ↦ u.tdiv w = now.tdiv w)).length := by
  have hsplit := List.length_eq_length_filter_add (l := recent w now times)
    (fun u ↦ decide (u.tdiv w = now.tdiv w))
  have hown : ((recent w now times).filter (fun u ↦ u.tdiv w = now.tdiv w)).length ≤
      (times.filter (fun u ↦ u.tdiv w = now.tdiv w)).length :=
    (List.filter_sublist.filter _).length_le
  have hother : (recent w now times).filter (fun u ↦ !decide (u.tdiv w = now.tdiv w)) =
      forgotten w now times := by
    simp [forgotten]
  rw [hother] at hsplit
  omega

theorem RiskInvariant.refuse (hv : RiskInvariant w b m v) {ok : Bool}
    (h : ¬ (c.bucket = b ∧ ok = true)) :
    RiskInvariant w b m ⟨(c.exec w v.counters).2, v.history ++ [(c, ok)]⟩ := by
  constructor
  · intro k hk
    rw [letThrough_concat, if_neg h, List.append_nil]
    have hold := hv.counted k (fun e he ↦ hk e (List.mem_append_left _ he))
    exact hold.trans (count_le_exec (hk (c, ok) List.mem_concat_self))
  · rw [letThrough_concat, if_neg h, List.append_nil]
    exact hv.limited

theorem RiskInvariant.admit (hv : RiskInvariant w c.bucket m v) (hm : 0 < c.maxPerWindow)
    (hmax : c.maxPerWindow = m) (hremembered : Remembered w c.bucket v c)
    (hpast : ∀ e ∈ v.history, e.1.now.tdiv w ≤ c.now.tdiv w)
    (hok : (c.exec w v.counters).1.isOk = true) :
    RiskInvariant w c.bucket m ⟨(c.exec w v.counters).2, v.history ++ [(c, true)]⟩ := by
  obtain ⟨hle, hcount⟩ := exec_of_isOk hm hok
  have hown := hv.counted (c.now.tdiv w) hpast
  constructor
  · intro k hk
    rw [letThrough_concat, if_pos ⟨rfl, rfl⟩, List.filter_append, List.length_append]
    by_cases hck : c.now.tdiv w = k
    · subst hck
      rw [hcount]
      simpa using hown
    · have hold := hv.counted k (fun e he ↦ hk e (List.mem_append_left _ he))
      have hgrow := hold.trans (count_le_exec (hk (c, true) List.mem_concat_self))
      simpa [hck] using hgrow
  · rw [letThrough_concat, if_pos ⟨rfl, rfl⟩]
    apply hv.limited.concat
    have hsplit := length_recent w c.now (letThrough c.bucket v.history)
    have hroom := hremembered rfl hle
    omega

theorem nextRisk_eq (w : ℤ) (v : RiskWorld) (c : RiskCall) :
    nextRisk w v c =
      some ⟨(c.exec w v.counters).2, v.history ++ [(c, (c.exec w v.counters).1.isOk)]⟩ := rfl

theorem invariant_nextRisk (hw : 0 < w) (hm : 0 < m) (v : RiskWorld) (c : RiskCall)
    (v' : RiskWorld) (hv : RiskInvariant w b m v)
    (hok : Remembered w b v c ∧ InOrder b m v c) (h : nextRisk w v c = some v') :
    RiskInvariant w b m v' := by
  obtain ⟨hremembered, hpast, hlimit⟩ := hok
  rw [nextRisk_eq] at h
  obtain rfl := Option.some.inj h
  by_cases hthrough : c.bucket = b ∧ (c.exec w v.counters).1.isOk = true
  · obtain ⟨rfl, hisOk⟩ := hthrough
    have hmax := hlimit rfl
    rw [hisOk]
    apply hv.admit (by omega) hmax hremembered _ hisOk
    intro e he
    exact Int.tdiv_le_tdiv hw (hpast e he)
  · exact hv.refuse hthrough

theorem along_inOrder {es : List RiskCall} (hsorted : es.Pairwise (fun c d ↦ c.now ≤ d.now))
    (hmax : ∀ c ∈ es, c.bucket = b → c.maxPerWindow = m)
    (hpast : ∀ h ∈ v.history, ∀ c ∈ es, h.1.now ≤ c.now) :
    Along (nextRisk w) (InOrder b m) v es := by
  induction es generalizing v with
  | nil => trivial
  | cons c es ih =>
    obtain ⟨hfirst, hsorted⟩ := List.pairwise_cons.mp hsorted
    refine ⟨⟨fun h hh ↦ hpast h hh c List.mem_cons_self, hmax c List.mem_cons_self⟩, ?_⟩
    intro v' hv'
    obtain rfl := Option.some.inj hv'
    apply ih hsorted (fun d hd ↦ hmax d (List.mem_cons_of_mem c hd))
    intro h hh d hd
    rcases List.mem_append.mp hh with hh | hh
    · exact hpast h hh d (List.mem_cons_of_mem c hd)
    · rw [List.mem_singleton.mp hh]
      exact hfirst d hd

/-- In every sequence of calls that meets the step condition, at most `m` of the
calls for the bucket in any `w` seconds are let through. -/
theorem calls_within_limit {setting : Option ℤ} {es : List RiskCall} (hm : 0 < m)
    (hsorted : es.Pairwise (fun c d ↦ c.now ≤ d.now))
    (hmax : ∀ c ∈ es, c.bucket = b → c.maxPerWindow = m)
    (hok : Along (nextRisk (windowSecs setting)) (Remembered (windowSecs setting) b) .init es)
    (h : run (nextRisk (windowSecs setting)) .init es = some v) :
    Limited (windowSecs setting) m (letThrough b v.history) := by
  have hinit : RiskInvariant (windowSecs setting) b m .init :=
    ⟨fun k _ ↦ le_rfl, limited_nil _ m⟩
  have horder := along_inOrder (v := .init) (w := windowSecs setting) hsorted hmax
    (fun e he ↦ absurd he List.not_mem_nil)
  exact (run_invariant (invariant_nextRisk (windowSecs_pos setting) hm) hinit
    (along_and hok horder) h).limited

section Demo

def demoCall (now : ℤ) : RiskCall := ⟨"b0", now, 2, none⟩

theorem calls_within_limit_oneWindow :
    ∃ v, run (nextRisk (windowSecs none)) .init [demoCall 60, demoCall 70, demoCall 80] = some v ∧
      letThrough "b0" v.history = [60, 70] ∧
      Limited (windowSecs none) 2 (letThrough "b0" v.history) := by
  have hrun : (run (nextRisk (windowSecs none)) .init
      [demoCall 60, demoCall 70, demoCall 80]).map (fun v ↦ letThrough "b0" v.history) =
      some [60, 70] := by
    decide +kernel
  obtain ⟨v, hv, hthrough⟩ := Option.map_eq_some_iff.mp hrun
  refine ⟨v, hv, hthrough, ?_⟩
  exact calls_within_limit (by decide) (by decide) (by decide) (by decide +kernel) hv

/-- Two calls at the end of one counter window and two at the start of the next:
four in two seconds, where two a minute are allowed. -/
theorem limit_passed_across_windows :
    (run (nextRisk (windowSecs none)) .init
      [demoCall 119, demoCall 119, demoCall 120, demoCall 120]).map
        (fun v ↦ letThrough "b0" v.history) = some [119, 119, 120, 120] ∧
      ¬ Limited (windowSecs none) 2 [119, 119, 120, 120] := by
  constructor
  · decide +kernel
  · intro hlimited
    exact absurd (hlimited 100) (by decide)

end Demo

end SauronId.Risk
