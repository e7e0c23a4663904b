import SauronId.Sdk.Evaluate
import SauronId.Sdk.Tracker

namespace SauronId.Sdk

open Lib Lib.Run Policy

/-- One call of a bound tool: the action that is evaluated, what the clock shows
in milliseconds when the action is created, when the history of calls is read,
when the tool starts and after it, and whether the tool returns normally. -/
structure BoundCall where
  action : Action
  (started pruned executed recorded : ℕ)
  returns : Bool

/-- What the clients do each in their own way: the units in which they keep the
times of calls, and how they forget those up to a cutoff. -/
structure BindClient where
  evaluate : SdkBinding → EvaluationContext → Verdict
  computeNowTzHhmm : ℤ → String → String
  /-- The time of the check, from the timestamp of the action and the clock. -/
  nowEpoch : ℤ → ℕ → ℤ
  stamp : ℕ → ℤ
  seconds : ℤ → ℤ
  cutoff : ℕ → ℤ
  prune : ℤ → List ℤ → List ℤ
  evaluate_rate : ∀ b ctx r, evaluate b ctx = .allow → b.rateLimit = some r → 0 < ctx.nowEpoch →
    ctx.nowEpoch < 2 ^ 53 → (ctx.recentCallTimestamps.filter
      (fun t ↦ ctx.nowEpoch - 60 < t ∧ t ≤ ctx.nowEpoch)).length < r.requestsPerMinute
  nowEpoch_eq : ∀ timestamp reading, 0 < timestamp → nowEpoch timestamp reading = timestamp
  seconds_stamp : ∀ t : ℕ, seconds (stamp t) = (t / 1000 : ℕ)
  cutoff_mono : ∀ c d : ℕ, c ≤ d → cutoff c ≤ cutoff d
  fresh : ∀ c t : ℕ, 60000 ≤ c → c < t + 60000 → c / 1000 < t / 1000 + 60 → cutoff c < stamp t
  prune_keeps : ∀ cut l s, (∀ t ∈ s, cut < t) → s <:+ l → s <:+ prune cut l

theorem evaluateLocal_rate {R : Runtime} {b : SdkBinding} {ctx : EvaluationContext} {r : RateLimit}
    (h : evaluateLocal R b ctx = .allow) (hr : b.rateLimit = some r)
    (hminus : R.minus ctx.nowEpoch 60 = ctx.nowEpoch - 60) :
    (ctx.recentCallTimestamps.filter
      (fun t ↦ ctx.nowEpoch - 60 < t ∧ t ≤ ctx.nowEpoch)).length < r.requestsPerMinute := by
  have hslot := evaluateChecks_slots.mp h ("rate_limit", some (rateLocal R r.requestsPerMinute))
    (by simp [localSlots, hr]) _ rfl
  rw [rateLocal, objectIf_eq_none, not_le, callsLocal, hminus] at hslot
  exact hslot

def dropUntilAfter (cut : ℤ) (calls : List ℤ) : List ℤ := calls.dropWhile (fun t ↦ t ≤ cut)

theorem dropUntilAfter_keeps (cut : ℤ) (l s : List ℤ) (hs : ∀ t ∈ s, cut < t) (h : s <:+ l) :
    s <:+ dropUntilAfter cut l := by
  obtain ⟨pre, rfl⟩ := h
  induction pre with
  | nil =>
    cases s with
    | nil => exact List.nil_suffix
    | cons t s =>
      have ht : ¬ t ≤ cut := not_le.mpr (hs t List.mem_cons_self)
      simp [dropUntilAfter, ht]
  | cons p pre ih =>
    by_cases hp : p ≤ cut
    · simpa [dropUntilAfter, hp] using ih
    · have hkeep : dropUntilAfter cut (p :: pre ++ s) = p :: pre ++ s := by
        simp [dropUntilAfter, hp]
      rw [hkeep]
      exact List.suffix_append _ _

def BindClient.python (lower : LowerCase) (clock : PythonClock) : BindClient where
  evaluate := evaluatePython lower clock
  computeNowTzHhmm := clock.computeNowTzHhmm
  nowEpoch timestamp reading := if timestamp = 0 then (reading / 1000 : ℕ) else timestamp
  stamp t := (t / 1000 : ℕ)
  seconds t := t
  cutoff c := ((c : ℤ) - 60000).tdiv 1000
  prune cut calls := calls.filter (fun t ↦ cut < t)
  evaluate_rate b ctx r h hr hpos _ := by
    have hnow : (clock.resolve b ctx).nowEpoch = ctx.nowEpoch := if_pos hpos
    have hrate := evaluateLocal_rate h hr rfl
    rwa [hnow] at hrate
  nowEpoch_eq timestamp reading h := if_neg h.ne'
  seconds_stamp _ := rfl
  cutoff_mono c d h := Int.tdiv_le_tdiv (by norm_num) (by omega)
  fresh c t hc _ h := by
    rw [Int.tdiv_eq_ediv_of_nonneg (by omega)]
    omega
  prune_keeps cut l s hs h := by
    have hall : s.filter (fun t ↦ cut < t) = s := List.filter_eq_self.mpr (by simpa using hs)
    rw [← hall]
    exact h.filter _

def BindClient.typescript (lower : LowerCase) (minus : ℤ → ℤ → ℤ)
    (hminus : ∀ x y, |x| ≤ 2 ^ 53 → |y| ≤ 2 ^ 53 → |x - y| ≤ 2 ^ 53 → minus x y = x - y)
    (toFixed2 : ℚ → String) (computeNowTzHhmm : ℤ → String → String) : BindClient where
  evaluate := evaluateTypescript lower minus toFixed2
  computeNowTzHhmm := computeNowTzHhmm
  nowEpoch timestamp _ := timestamp
  stamp t := t
  seconds t := t / 1000
  cutoff c := c - 60000
  prune := dropUntilAfter
  evaluate_rate b ctx r h hr hpos hlt := by
    refine evaluateLocal_rate h hr (hminus _ _ ?_ ?_ ?_) <;> rw [abs_le] <;> omega
  nowEpoch_eq _ _ _ := rfl
  seconds_stamp t := by simp
  cutoff_mono c d h := by omega
  fresh c t _ h _ := by omega
  prune_keeps := dropUntilAfter_keeps

def BindClient.go (lower : LowerCase) (computeNowTzHhmm : ℤ → String → String) : BindClient where
  evaluate := evaluateGo lower
  computeNowTzHhmm := computeNowTzHhmm
  nowEpoch timestamp _ := timestamp
  stamp t := t
  seconds t := t.tdiv 1000
  cutoff c := c - 60000
  prune := dropUntilAfter
  evaluate_rate b ctx r h hr hpos hlt :=
    evaluateLocal_rate h hr (Word.wrap_of_fits (by omega) (by omega))
  nowEpoch_eq _ _ _ := rfl
  seconds_stamp t := by
    rw [Int.tdiv_eq_ediv_of_nonneg (by omega)]
    simp
  cutoff_mono c d h := by omega
  fresh c t _ h _ := by omega
  prune_keeps := dropUntilAfter_keeps

structure Execution where
  (executed recorded : ℕ)

structure CallWorld where
  tracker : Tracker
  executions : List Execution
  clock : ℕ

def CallWorld.init : CallWorld := ⟨.empty, [], 0⟩

section Bind

variable (C : BindClient) (b : SdkBinding)

def callContext (t : Tracker) (call : BoundCall) : EvaluationContext :=
  let now := C.nowEpoch call.action.timestamp call.pruned
  { EvaluationContext.withDefaults call.action with
    spendTotalUsd := t.totalUsd
    recentCallTimestamps := t.calls.map C.seconds
    nowEpoch := now
    nowTzHhmm := C.computeNowTzHhmm now ((b.timeWindow.map TimeWindow.timezone).getD "UTC") }

/-- `bind` around one call. The tracker is optional, and without one nothing is
ever recorded. -/
def callBound (tracked : Bool) (w : CallWorld) (call : BoundCall) : CallWorld :=
  let tracker := { w.tracker with calls := C.prune (C.cutoff call.pruned) w.tracker.calls }
  match C.evaluate b (callContext C b tracker call) with
  | .deny _ _ => ⟨tracker, w.executions, call.recorded⟩
  | .allow =>
    let executions := w.executions ++ [⟨call.executed, call.recorded⟩]
    match call.action.amountUsd, tracked && call.returns with
    | some amountUsd, true => ⟨tracker.record amountUsd (some call.action.actionId)
        (C.stamp call.recorded), executions, call.recorded⟩
    | _, _ => ⟨tracker, executions, call.recorded⟩

/-- The clock has passed the first minute of its era, never runs backwards and
counts exactly in every client. -/
def WellTimed (w : CallWorld) (call : BoundCall) : Prop :=
  60000 ≤ call.started ∧ w.clock ≤ call.started ∧ call.started ≤ call.pruned ∧
    call.pruned ≤ call.executed ∧ call.executed ≤ call.recorded ∧ call.recorded < 2 ^ 53

instance (w : CallWorld) (call : BoundCall) : Decidable (WellTimed w call) :=
  inferInstanceAs (Decidable (_ ∧ _))

def nextCall (tracked : Bool) (w : CallWorld) (call : BoundCall) : Option CallWorld :=
  if WellTimed w call then some (callBound C b tracked w call) else none

end Bind

/-- The call is checked at its own time and leaves a record, and no execution of
the last sixty seconds lies sixty or more whole seconds back. -/
structure Accountable (w : CallWorld) (call : BoundCall) : Prop where
  timestamp : call.action.timestamp = (call.started / 1000 : ℕ)
  amount : call.action.amountUsd.isSome = true
  returns : call.returns = true
  seconds : ∀ e ∈ w.executions, call.executed < e.recorded + 60000 →
    call.pruned / 1000 < e.recorded / 1000 + 60

theorem accountable_iff {w : CallWorld} {call : BoundCall} : Accountable w call ↔
    call.action.timestamp = (call.started / 1000 : ℕ) ∧ call.action.amountUsd.isSome = true ∧
      call.returns = true ∧ ∀ e ∈ w.executions, call.executed < e.recorded + 60000 →
        call.pruned / 1000 < e.recorded / 1000 + 60 :=
  ⟨fun h ↦ ⟨h.timestamp, h.amount, h.returns, h.seconds⟩, fun h ↦ ⟨h.1, h.2.1, h.2.2.1, h.2.2.2⟩⟩

instance (w : CallWorld) (call : BoundCall) : Decidable (Accountable w call) :=
  decidable_of_iff _ accountable_iff.symm

def executedFrom (s : ℕ) (l : List Execution) : List Execution :=
  l.filter (fun e ↦ s ≤ e.executed ∧ e.executed < s + 60000)

variable {C : BindClient} {b : SdkBinding} {w w' : CallWorld} {call : BoundCall} {n : ℕ}

structure RateInvariant (C : BindClient) (n : ℕ) (w : CallWorld) : Prop where
  ordered : w.executions.Pairwise (fun d e ↦ d.executed ≤ e.executed)
  within : ∀ e ∈ w.executions, e.executed ≤ e.recorded ∧ e.recorded ≤ w.clock
  /-- The latest executions are in the history unless they are too old. -/
  kept : ∀ s, s <:+ w.executions → s.length ≤ 1024 →
    (∀ e ∈ s, C.cutoff w.clock < C.stamp e.recorded) →
      s.map (fun e ↦ C.stamp e.recorded) <:+ w.tracker.calls
  limited : ∀ s, (executedFrom s w.executions).length ≤ n

theorem length_le_filter {α : Type} {p : α → Bool} {s l : List α} (h : s <:+ l)
    (hp : ∀ a ∈ s, p a = true) : s.length ≤ (l.filter p).length := by
  have hs : s.filter p = s := List.filter_eq_self.mpr hp
  rw [← hs]
  exact (h.filter p).length_le

theorem RateInvariant.kept_pruned (hw : RateInvariant C n w) (ht : WellTimed w call)
    {s : List Execution} (hs : s <:+ w.executions) (hlen : s.length ≤ 1024)
    (hfresh : ∀ e ∈ s, C.cutoff call.pruned < C.stamp e.recorded) :
    s.map (fun e ↦ C.stamp e.recorded) <:+
      C.prune (C.cutoff call.pruned) w.tracker.calls := by
  obtain ⟨-, hclock, hpruned, -⟩ := ht
  have hmono : C.cutoff w.clock ≤ C.cutoff call.pruned := C.cutoff_mono _ _ (hclock.trans hpruned)
  refine C.prune_keeps _ _ _ ?_ (hw.kept s hs hlen (fun e he ↦ hmono.trans_lt (hfresh e he)))
  intro t ht
  obtain ⟨e, he, rfl⟩ := List.mem_map.mp ht
  exact hfresh e he

theorem RateInvariant.not_allowed (hw : RateInvariant C n w) (ht : WellTimed w call)
    (hok : Accountable w call) (hn : n ≤ 1024) (hrate : b.rateLimit = some ⟨n⟩)
    {s : List Execution} (hs : s <:+ w.executions) (hlen : s.length = n)
    (hrecent : ∀ e ∈ s, call.executed < e.recorded + 60000) :
    C.evaluate b (callContext C b
      { w.tracker with calls := C.prune (C.cutoff call.pruned) w.tracker.calls } call) ≠ .allow := by
  intro hallow
  obtain ⟨hera, hclock, hpruned, hexecuted, hrecorded, hlt⟩ := ht
  have hnow : C.nowEpoch call.action.timestamp call.pruned = (call.started / 1000 : ℕ) := by
    rw [hok.timestamp]
    exact C.nowEpoch_eq _ _ (by omega)
  have hseconds : ∀ e ∈ s, call.pruned / 1000 < e.recorded / 1000 + 60 :=
    fun e he ↦ hok.seconds e (hs.mem he) (hrecent e he)
  have hfresh : ∀ e ∈ s, C.cutoff call.pruned < C.stamp e.recorded := by
    intro e he
    have hr := hrecent e he
    exact C.fresh _ _ (by omega) (by omega) (hseconds e he)
  have hkept := (hw.kept_pruned ⟨hera, hclock, hpruned, hexecuted, hrecorded, hlt⟩ hs
    (hlen.trans_le hn) hfresh).map C.seconds
  have hcount := C.evaluate_rate b _ ⟨n⟩ hallow hrate
    (by simp only [callContext, hnow]; omega) (by simp only [callContext, hnow]; omega)
  refine absurd hcount (not_lt.mpr ?_)
  have hlong : (s.map (fun e ↦ C.seconds (C.stamp e.recorded))).length = n := by
    rw [List.length_map, hlen]
  rw [← hlong]
  refine length_le_filter (by simpa [callContext, Function.comp_def] using hkept) ?_
  intro t ht
  obtain ⟨e, he, rfl⟩ := List.mem_map.mp ht
  have hle := (hw.within e (hs.mem he)).2
  have hsec := hseconds e he
  simp only [callContext, hnow, C.seconds_stamp, decide_eq_true_eq]
  omega

theorem lastN_suffix {α : Type} (n : ℕ) (l : List α) : lastN n l <:+ l := List.drop_suffix _ _

theorem length_lastN {α : Type} {n : ℕ} {l : List α} (h : n ≤ l.length) :
    (lastN n l).length = n := by
  rw [lastN, List.length_drop]
  omega

theorem le_of_mem_lastN {s : ℕ} {l : List Execution}
    (hordered : l.Pairwise (fun d e ↦ d.executed ≤ e.executed))
    (hn : n ≤ (executedFrom s l).length) {e : Execution} (he : e ∈ lastN n l) :
    s ≤ e.executed := by
  by_contra hlt
  obtain ⟨pre, hpre⟩ := lastN_suffix n l
  have hlen : (lastN n l).length = n := length_lastN (hn.trans (List.length_filter_le _ _))
  rw [← hpre] at hordered
  have hnone : executedFrom s pre = [] := by
    refine List.filter_eq_nil_iff.mpr (fun d hd ↦ ?_)
    have hle := (List.pairwise_append.mp hordered).2.2 d hd e he
    simp only [decide_eq_true_eq, not_and]
    omega
  have hless : (executedFrom s (lastN n l)).length < (lastN n l).length := by
    refine List.length_filter_lt_length_iff_exists.mpr ⟨e, he, ?_⟩
    simp only [decide_eq_true_eq, not_and]
    omega
  have hsplit : executedFrom s l = executedFrom s (lastN n l) := by
    conv_lhs => rw [← hpre]
    rw [executedFrom, List.filter_append]
    change executedFrom s pre ++ _ = _
    rw [hnone, List.nil_append]
    rfl
  rw [hsplit] at hn
  omega

theorem RateInvariant.deny (hw : RateInvariant C n w) (ht : WellTimed w call) :
    RateInvariant C n ⟨{ w.tracker with
      calls := C.prune (C.cutoff call.pruned) w.tracker.calls }, w.executions, call.recorded⟩ := by
  have hclock : w.clock ≤ call.recorded := by
    obtain ⟨-, h₁, h₂, h₃, h₄, -⟩ := ht
    omega
  refine ⟨hw.ordered, ?_, ?_, hw.limited⟩
  · intro e he
    obtain ⟨hle, hr⟩ := hw.within e he
    exact ⟨hle, hr.trans hclock⟩
  · intro s hs hlen hfresh
    have hmono : C.cutoff call.pruned ≤ C.cutoff call.recorded := by
      obtain ⟨-, -, -, h₃, h₄, -⟩ := ht
      exact C.cutoff_mono _ _ (h₃.trans h₄)
    exact hw.kept_pruned ht hs hlen (fun e he ↦ hmono.trans_lt (hfresh e he))

/-- A minute that an allowed call falls into held fewer than `n` executions: with
`n` of them behind it the call would have been denied. -/
theorem RateInvariant.executedFrom_lt (hw : RateInvariant C n w) (ht : WellTimed w call)
    (hok : Accountable w call) (hn : n ≤ 1024) (hrate : b.rateLimit = some ⟨n⟩)
    (hallow : C.evaluate b (callContext C b
      { w.tracker with calls := C.prune (C.cutoff call.pruned) w.tracker.calls } call) = .allow)
    {s : ℕ} (hs : call.executed < s + 60000) : (executedFrom s w.executions).length < n := by
  by_contra hge
  rw [not_lt] at hge
  refine hw.not_allowed ht hok hn hrate (lastN_suffix n w.executions)
    (length_lastN (hge.trans (List.length_filter_le _ _))) ?_ hallow
  intro e he
  have hstart := le_of_mem_lastN hw.ordered hge he
  have hle := (hw.within e ((lastN_suffix n w.executions).mem he)).1
  omega

theorem RateInvariant.allow (hw : RateInvariant C n w) (ht : WellTimed w call)
    (hok : Accountable w call) (hn : n ≤ 1024) (hrate : b.rateLimit = some ⟨n⟩)
    (hallow : C.evaluate b (callContext C b
      { w.tracker with calls := C.prune (C.cutoff call.pruned) w.tracker.calls } call) = .allow)
    (amountUsd : ℚ) :
    RateInvariant C n
      ⟨Tracker.record
        { w.tracker with calls := C.prune (C.cutoff call.pruned) w.tracker.calls } amountUsd
        (some call.action.actionId) (C.stamp call.recorded),
        w.executions ++ [⟨call.executed, call.recorded⟩], call.recorded⟩ := by
  have hdeny := hw.deny ht
  obtain ⟨-, hclock, hpruned, hexecuted, hrecorded, -⟩ := id ht
  refine ⟨?_, ?_, ?_, ?_⟩
  · refine List.pairwise_append.mpr ⟨hw.ordered, List.pairwise_singleton _ _, ?_⟩
    intro d hd e he
    obtain rfl := List.mem_singleton.mp he
    obtain ⟨hle, hr⟩ := hw.within d hd
    dsimp only
    omega
  · intro e he
    rcases List.mem_append.mp he with he | he
    · exact hdeny.within e he
    · obtain rfl := List.mem_singleton.mp he
      exact ⟨hrecorded, le_rfl⟩
  · intro s hs hlen hfresh
    rcases List.suffix_concat_iff.mp hs with rfl | ⟨t, rfl, ht⟩
    · exact List.nil_suffix
    · rw [List.length_append, List.length_singleton] at hlen
      have hkept := hdeny.kept t ht (by omega) (fun e he ↦ hfresh e (List.mem_append_left _ he))
      simp only [Tracker.record]
      apply suffix_lastN
      · rw [List.map_append, List.map_singleton]
        exact List.suffix_concat_iff.mpr (.inr ⟨_, rfl, hkept⟩)
      · rw [List.length_map, List.length_append, List.length_singleton]
        exact hlen
  · intro s
    rw [executedFrom, List.filter_append, List.length_append]
    change (executedFrom s w.executions).length + _ ≤ n
    by_cases hin : s ≤ call.executed ∧ call.executed < s + 60000
    · have hless := hw.executedFrom_lt ht hok hn hrate hallow hin.2
      simp only [hin, and_self, decide_true, List.filter_cons_of_pos, List.filter_nil,
        List.length_singleton]
      omega
    · simpa [hin] using hw.limited s

theorem invariant_nextCall (hn : n ≤ 1024) (hrate : b.rateLimit = some ⟨n⟩) (w : CallWorld)
    (call : BoundCall) (w' : CallWorld) (hw : RateInvariant C n w) (hok : Accountable w call)
    (h : nextCall C b true w call = some w') : RateInvariant C n w' := by
  unfold nextCall at h
  split_ifs at h with ht
  obtain rfl := Option.some.inj h
  obtain ⟨amountUsd, hamount⟩ := Option.isSome_iff_exists.mp hok.amount
  simp only [callBound, hamount, hok.returns, Bool.true_and]
  split
  · exact hw.deny ht
  · rename_i hallow
    exact hw.allow ht hok hn hrate hallow amountUsd

section Demo

def onceAMinute : SdkBinding := { rateLimit := some ⟨1⟩ }

def demoCall (amountUsd : Option ℚ) (time : ℕ) : BoundCall where
  action := { actionId := "a", tool := "pay", amountUsd := amountUsd,
              timestamp := (time / 1000 : ℕ) }
  started := time
  pruned := time
  executed := time
  recorded := time
  returns := true

def pythonClient : BindClient := .python asciiLower demoClock

def typescriptClient : BindClient :=
  .typescript asciiLower (fun x y ↦ x - y) (fun _ _ _ _ _ ↦ rfl) (Lib.Text.formatFixed 2)
    demoClock.computeNowTzHhmm

def goClient : BindClient := .go asciiLower demoClock.computeNowTzHhmm

def executedAt (C : BindClient) (calls : List BoundCall) : Option (List ℕ) :=
  (run (nextCall C onceAMinute true) CallWorld.init calls).map
    (fun w ↦ w.executions.map Execution.executed)

end Demo

end SauronId.Sdk
