import Mathlib.Data.Fintype.Basic
import Mathlib.Logic.Function.Basic
import SauronId.Lib.Run
import SauronId.Sdk.Tracker

namespace SauronId.Sdk

open Lib.Run

inductive Client
  | python
  | typescript
  | go
  deriving DecidableEq

def Client.serialises : Client → Bool
  | typescript => true
  | python | go => false

/-- Where a call of `flush` stands. While it pushes it has the snapshot it took
and what is left of it. -/
inductive FlushPhase (ι : Type)
  | idle
  | awaiting (other : ι)
  | pushing (snapshot rest : List PendingSpendRecord)
  | settled
  | returned

structure FlushWorld (ι : Type) where
  tracker : Tracker
  (recorded accepted : List PendingSpendRecord)
  inflight : Option ι
  phase : ι → FlushPhase ι

inductive FlushEvent (ι : Type)
  | record (amountUsd : ℚ) (actionId : Option String) (now : ℤ)
  | flush (i : ι)
  | push (i : ι) (accepted : Bool)
  | drop (i : ι)
  | finish (i : ι)

variable {ι : Type} [DecidableEq ι]

namespace FlushWorld

def init : FlushWorld ι := ⟨.empty, [], [], none, fun _ ↦ .idle⟩

def move (w : FlushWorld ι) (i : ι) (p : FlushPhase ι) : FlushWorld ι :=
  { w with phase := Function.update w.phase i p }

def startFlush (c : Client) (w : FlushWorld ι) (i : ι) : FlushWorld ι :=
  match (if c.serialises then w.inflight else none) with
  | some j => w.move i (.awaiting j)
  | none =>
    if w.tracker.pending = [] then w.move i .returned
    else
      { w.move i (.pushing w.tracker.pending w.tracker.pending) with
        inflight := if c.serialises then some i else w.inflight }

end FlushWorld

open FlushWorld

def nextFlush (c : Client) (w : FlushWorld ι) : FlushEvent ι → Option (FlushWorld ι)
  | .record amountUsd actionId now => some
      { w with
        tracker := w.tracker.record amountUsd actionId now
        recorded := w.recorded ++ [⟨amountUsd, actionId, now⟩] }
  | .flush i =>
    match w.phase i with
    | .idle | .returned => some (startFlush c w i)
    | _ => none
  | .push i accepted =>
    match w.phase i with
    | .pushing snapshot (r :: rest) =>
      if accepted then
        some { w.move i (.pushing snapshot rest) with accepted := w.accepted ++ [r] }
      else some (w.move i .settled)
    | _ => none
  | .drop i =>
    match w.phase i with
    | .pushing snapshot [] => some
        { w.move i .settled with
          tracker := { w.tracker with pending := w.tracker.pending.drop snapshot.length } }
    | _ => none
  | .finish i =>
    match w.phase i with
    | .awaiting j =>
      match w.phase j with
      | .pushing _ _ => none
      | _ => some (w.move i .returned)
    | .settled => some
        { w.move i .returned with inflight := if c.serialises then none else w.inflight }
    | _ => none

def FlushPhase.Active : FlushPhase ι → Prop
  | .pushing _ _ => True
  | _ => False

instance : DecidablePred (fun p : FlushPhase ι ↦ p.Active)
  | .pushing _ _ => isTrue trivial
  | .idle | .awaiting _ | .settled | .returned => isFalse id

/-- Flushes that nothing keeps apart do not overlap, and a request fails only
when it is the first of its snapshot. -/
def Orderly (c : Client) (w : FlushWorld ι) : FlushEvent ι → Prop
  | .flush _ => c.serialises = true ∨ ∀ j, ¬ (w.phase j).Active
  | .push i false =>
    match w.phase i with
    | .pushing snapshot rest => rest = snapshot
    | _ => True
  | _ => True

instance [Fintype ι] (c : Client) (w : FlushWorld ι) (e : FlushEvent ι) :
    Decidable (Orderly c w e) := by
  unfold Orderly
  split
  · infer_instance
  · split <;> infer_instance
  · infer_instance

variable {c : Client} {w w' : FlushWorld ι} {i : ι}

/-- What was recorded is what the server has, then what is still to push. -/
inductive Accounted (w : FlushWorld ι) : Prop
  | between (hidle : ∀ j, ¬ (w.phase j).Active)
      (hrecorded : w.recorded = w.accepted ++ w.tracker.pending)
  | within (i : ι) (sent rest newer : List PendingSpendRecord)
      (hphase : w.phase i = .pushing (sent ++ rest) rest)
      (hothers : ∀ j, j ≠ i → ¬ (w.phase j).Active) (hne : sent ++ rest ≠ [])
      (hpending : w.tracker.pending = sent ++ rest ++ newer)
      (hrecorded : w.recorded = w.accepted ++ (rest ++ newer))

/-- A flush of a serialising client that took a snapshot is the one in flight
until it returns. -/
def Held (c : Client) (w : FlushWorld ι) : Prop :=
  c.serialises = true → ∀ j, (w.phase j).Active ∨ w.phase j = .settled → w.inflight = some j

omit [DecidableEq ι] in
theorem Accounted.exact (h : Accounted w) :
    w.accepted <+: w.recorded ∧ (w.tracker.pending = [] → w.accepted = w.recorded) := by
  cases h with
  | between hidle hrecorded =>
    refine ⟨hrecorded ▸ List.prefix_append _ _, fun hp ↦ ?_⟩
    rw [hrecorded, hp, List.append_nil]
  | within i sent rest newer hphase hothers hne hpending hrecorded =>
    refine ⟨hrecorded ▸ List.prefix_append _ _, fun hp ↦ ?_⟩
    rw [hpending] at hp
    exact absurd (List.append_eq_nil_iff.mp hp).1 hne

theorem Accounted.of_pushing (h : Accounted w) {snapshot rest : List PendingSpendRecord}
    (hphase : w.phase i = .pushing snapshot rest) :
    ∃ sent newer, snapshot = sent ++ rest ∧ (∀ j, j ≠ i → ¬ (w.phase j).Active) ∧ snapshot ≠ [] ∧
      w.tracker.pending = sent ++ rest ++ newer ∧ w.recorded = w.accepted ++ (rest ++ newer) := by
  have hactive : (w.phase i).Active := by
    rw [hphase]
    trivial
  cases h with
  | between hidle hrecorded => exact absurd hactive (hidle i)
  | within j sent rest' newer hj hothers hne hpending hrecorded =>
    obtain rfl : i = j := by
      by_contra hij
      exact hothers i hij hactive
    rw [hphase] at hj
    obtain ⟨rfl, rfl⟩ := FlushPhase.pushing.inj hj
    exact ⟨sent, newer, rfl, hothers, hne, hpending, hrecorded⟩

variable {p : FlushPhase ι}

theorem not_active_move (hp : ¬ p.Active) {j : ι} (hj : j ≠ i → ¬ (w.phase j).Active) :
    ¬ ((w.move i p).phase j).Active := by
  by_cases hij : j = i
  · subst hij
    simpa [move] using hp
  · simpa [move, hij] using hj hij

theorem Accounted.move (h : Accounted w) (hi : ¬ (w.phase i).Active) (hp : ¬ p.Active) :
    Accounted (w.move i p) := by
  cases h with
  | between hidle hrecorded =>
    exact .between (fun j ↦ not_active_move hp (fun _ ↦ hidle j)) hrecorded
  | within k sent rest newer hphase hothers hne hpending hrecorded =>
    have hki : k ≠ i := by
      rintro rfl
      exact hi (by rw [hphase]; trivial)
    refine .within k sent rest newer ?_ ?_ hne hpending hrecorded
    · simpa [FlushWorld.move, hki] using hphase
    · exact fun j hj ↦ not_active_move hp (fun _ ↦ hothers j hj)

omit [DecidableEq ι] in
theorem Held.not_holding (h : Held c w) (hc : c.serialises = true) (hnone : w.inflight = none)
    (j : ι) : ¬ ((w.phase j).Active ∨ w.phase j = .settled) := by
  intro hj
  have hsome := h hc j hj
  rw [hnone] at hsome
  cases hsome

theorem Held.move (h : Held c w) (hp : ¬ p.Active) (hs : p ≠ .settled) :
    Held c (w.move i p) := by
  intro hc j hj
  by_cases hij : j = i
  · subst hij
    simp only [FlushWorld.move, Function.update_self] at hj
    exact absurd hj (not_or.mpr ⟨hp, hs⟩)
  · simp only [FlushWorld.move, Function.update_of_ne hij] at hj
    exact h hc j hj

theorem Held.move_of_holding (h : Held c w) (hi : (w.phase i).Active) :
    Held c (w.move i p) := by
  intro hc j hj
  by_cases hij : j = i
  · subst hij
    exact h hc j (.inl hi)
  · simp only [FlushWorld.move, Function.update_of_ne hij] at hj
    exact h hc j hj

structure FlushInvariant (c : Client) (w : FlushWorld ι) : Prop where
  accounted : Accounted w
  held : Held c w

theorem invariant_record (hw : FlushInvariant c w) (amountUsd : ℚ) (actionId : Option String)
    (now : ℤ) (h : nextFlush c w (.record amountUsd actionId now) = some w') :
    FlushInvariant c w' := by
  obtain rfl := Option.some.inj h
  refine ⟨?_, hw.held⟩
  cases hw.accounted with
  | between hidle hrecorded =>
    refine .between hidle ?_
    simp only [Tracker.record, hrecorded, List.append_assoc]
  | within k sent rest newer hphase hothers hne hpending hrecorded =>
    refine .within k sent rest (newer ++ [⟨amountUsd, actionId, now⟩]) hphase hothers hne ?_ ?_
    · simp only [Tracker.record, hpending, List.append_assoc]
    · simp only [hrecorded, List.append_assoc]

theorem invariant_startFlush (hw : FlushInvariant c w) (hi : ¬ (w.phase i).Active)
    (hok : c.serialises = true ∨ ∀ j, ¬ (w.phase j).Active) :
    FlushInvariant c (startFlush c w i) := by
  have hquiet : ∀ p : FlushPhase ι, ¬ p.Active → p ≠ .settled → FlushInvariant c (w.move i p) :=
    fun p hp hs ↦ ⟨hw.accounted.move hi hp, hw.held.move hp hs⟩
  unfold startFlush
  split
  · exact hquiet _ id nofun
  · rename_i hfree
    -- a serialising client has no flush in flight, another one was told to wait
    have hnone : c.serialises = true → w.inflight = none := fun hc ↦ by simpa [hc] using hfree
    have hidle : ∀ j, ¬ (w.phase j).Active := by
      rcases hok with hc | hok
      · intro j hj
        exact hw.held.not_holding hc (hnone hc) j (.inl hj)
      · exact hok
    have hrecorded : w.recorded = w.accepted ++ w.tracker.pending := by
      cases hw.accounted with
      | between _ hrecorded => exact hrecorded
      | within k _ _ _ hphase => exact absurd (by rw [hphase]; trivial) (hidle k)
    by_cases hempty : w.tracker.pending = []
    · rw [if_pos hempty]
      exact hquiet _ id nofun
    · rw [if_neg hempty]
      refine ⟨.within i [] w.tracker.pending [] ?_ ?_ hempty ?_ ?_, ?_⟩
      · exact Function.update_self ..
      · intro j hj
        simpa [FlushWorld.move, hj] using hidle j
      · simp [FlushWorld.move]
      · simpa [FlushWorld.move] using hrecorded
      · intro hc j hj
        by_cases hij : j = i
        · simp [hc, hij]
        · simp only [FlushWorld.move, Function.update_of_ne hij] at hj
          exact absurd hj (hw.held.not_holding hc (hnone hc) j)

theorem invariant_push (hw : FlushInvariant c w) {accepted : Bool}
    (hok : Orderly c w (.push i accepted)) (h : nextFlush c w (.push i accepted) = some w') :
    FlushInvariant c w' := by
  simp only [nextFlush] at h
  split at h
  · rename_i snapshot r rest hphase
    have hactive : (w.phase i).Active := by
      rw [hphase]
      trivial
    obtain ⟨sent, newer, rfl, hothers, hne, hpending, hrecorded⟩ := hw.accounted.of_pushing hphase
    cases accepted with
    | true =>
      obtain rfl := Option.some.inj h
      refine ⟨.within i (sent ++ [r]) rest newer ?_ ?_ ?_ ?_ ?_,
        hw.held.move_of_holding hactive⟩
      · simp [FlushWorld.move]
      · intro j hj
        simpa [FlushWorld.move, hj] using hothers j hj
      · simp
      · simpa [FlushWorld.move] using hpending
      · simpa [FlushWorld.move] using hrecorded
    | false =>
      obtain rfl := Option.some.inj h
      have hfirst : r :: rest = sent ++ r :: rest := by simpa [Orderly, hphase] using hok
      obtain rfl : sent = [] := by
        have hlen := congrArg List.length hfirst
        rw [List.length_append] at hlen
        exact List.length_eq_zero_iff.mp (by omega)
      refine ⟨.between (fun j ↦ not_active_move id (hothers j)) ?_,
        hw.held.move_of_holding hactive⟩
      simpa [FlushWorld.move, hpending] using hrecorded
  · cases h

theorem invariant_drop (hw : FlushInvariant c w) (h : nextFlush c w (.drop i) = some w') :
    FlushInvariant c w' := by
  simp only [nextFlush] at h
  split at h
  · rename_i snapshot hphase
    have hactive : (w.phase i).Active := by
      rw [hphase]
      trivial
    obtain ⟨sent, newer, rfl, hothers, hne, hpending, hrecorded⟩ := hw.accounted.of_pushing hphase
    obtain rfl := Option.some.inj h
    refine ⟨.between (fun j ↦ not_active_move id (hothers j)) ?_,
      hw.held.move_of_holding hactive⟩
    simpa [FlushWorld.move, hpending] using hrecorded
  · cases h

theorem invariant_finish (hw : FlushInvariant c w) (h : nextFlush c w (.finish i) = some w') :
    FlushInvariant c w' := by
  simp only [nextFlush] at h
  split at h
  · rename_i other hphase
    split at h
    · cases h
    · obtain rfl := Option.some.inj h
      have hi : ¬ (w.phase i).Active := by
        rw [hphase]
        exact id
      exact ⟨hw.accounted.move hi id, hw.held.move id nofun⟩
  · rename_i hphase
    obtain rfl := Option.some.inj h
    have hi : ¬ (w.phase i).Active := by
      rw [hphase]
      exact id
    refine ⟨?_, ?_⟩
    · cases hw.accounted.move hi (p := .returned) id with
      | between hidle hrecorded => exact .between hidle hrecorded
      | within k sent rest newer hk hothers hne hpending hrecorded =>
        exact .within k sent rest newer hk hothers hne hpending hrecorded
    · intro hc j hj
      have hmoved := hw.held.move (i := i) (p := .returned) id nofun hc j hj
      have hown := hw.held hc i (.inr hphase)
      have hji : j = i := Option.some.inj (hmoved.symm.trans hown)
      subst hji
      simp [FlushWorld.move, FlushPhase.Active] at hj
  · cases h

theorem invariant_nextFlush (w : FlushWorld ι) (e : FlushEvent ι) (w' : FlushWorld ι)
    (hw : FlushInvariant c w) (hok : Orderly c w e) (h : nextFlush c w e = some w') :
    FlushInvariant c w' := by
  cases e with
  | record amountUsd actionId now => exact invariant_record hw amountUsd actionId now h
  | flush i =>
    simp only [nextFlush] at h
    split at h
    · rename_i hphase
      obtain rfl := Option.some.inj h
      exact invariant_startFlush hw (by rw [hphase]; exact id) hok
    · rename_i hphase
      obtain rfl := Option.some.inj h
      exact invariant_startFlush hw (by rw [hphase]; exact id) hok
    · cases h
  | push i accepted => exact invariant_push hw hok h
  | drop i => exact invariant_drop hw h
  | finish i => exact invariant_finish hw h

section Demo

def demoSpend (now : ℤ) : FlushEvent Bool := .record 5 none now

def retriedFlush : List (FlushEvent Bool) :=
  [demoSpend 1, demoSpend 2, .flush false, .push false false, .finish false, .flush true,
    .push true true, demoSpend 3, .push true true, .drop true, .finish true, .flush false,
    .push false true, .drop false, .finish false]

def failedMidway : List (FlushEvent Bool) :=
  [demoSpend 1, demoSpend 2, .flush false, .push false true, .push false false, .finish false,
    .flush false, .push false true, .push false true, .drop false, .finish false]

def overlapping : List (FlushEvent Bool) :=
  [demoSpend 1, .flush false, .flush true, .push false true, .push true true, .drop false,
    demoSpend 2, .drop true, .finish false, .finish true]

def flushed (c : Client) (es : List (FlushEvent Bool)) : Option (List ℤ × List ℤ) :=
  (run (nextFlush c) FlushWorld.init es).map (fun w ↦
    (w.accepted.map PendingSpendRecord.timestamp,
      w.tracker.pending.map PendingSpendRecord.timestamp))

end Demo

end SauronId.Sdk
