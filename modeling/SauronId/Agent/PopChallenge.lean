import SauronId.Lib.Voucher
import SauronId.Payment.Tables

namespace SauronId.Agent

open Lib Lib.Run
open Payment (PopChallenge takePopChallenge)

structure TakeCall where
  (challengeId expectedAgentId : String)
  now : ℤ
  deriving DecidableEq

inductive TakePhase
  | idle
  | looking (call : TakeCall)
  /-- The row was found and fits, it is deleted next. -/
  | deleting (row : PopChallenge)
  /-- The row was found and has expired, it is deleted next. -/
  | dropping (row : PopChallenge)
  | returned (result : Except String String)
  deriving DecidableEq

namespace TakePhase

def wanted : TakePhase → Option TakeCall
  | looking call => some call
  | _ => none

def found : TakePhase → Option PopChallenge
  | deleting row => some row
  | _ => none

end TakePhase

structure PopWorld (ι : Type) where
  challenges : Table PopChallenge.id
  phase : ι → TakePhase
  /-- Every row that was ever in the table. -/
  stored : List PopChallenge
  /-- The rows whose challenge was returned to a caller, one entry a call. -/
  taken : List PopChallenge

/-- A call begins, or its next statement is executed, with the error the engine
answers it with, if any. Challenges are stored and expired ones swept by others. -/
inductive PopEvent (ι : Type)
  | call (i : ι) (call : TakeCall)
  | step (i : ι) (fault : Option String)
  | store (row : PopChallenge)
  | sweep (now : ℤ)

variable {ι : Type} [DecidableEq ι]

def PopWorld.move (w : PopWorld ι) (i : ι) (p : TakePhase) : PopWorld ι :=
  { w with phase := Function.update w.phase i p }

def PopWorld.init (challenges : Table PopChallenge.id) : PopWorld ι :=
  ⟨challenges, fun _ ↦ .idle, challenges.rows, []⟩

def lookup (challenges : Table PopChallenge.id) (call : TakeCall) (fault : Option String) :
    TakePhase :=
  match fault, challenges.get call.challengeId with
  | none, some row =>
    if row.agentId ≠ call.expectedAgentId then
      .returned (.error "pop challenge does not match agent")
    else if row.exp < call.now then .dropping row
    else .deleting row
  | _, _ => .returned (.error "unknown or expired pop_challenge_id")

def delete (challenges : Table PopChallenge.id) (row : PopChallenge) : Table PopChallenge.id :=
  challenges.deleteWhere (fun c ↦ c.id = row.id)

def takeStep (w : PopWorld ι) (i : ι) (fault : Option String) : Option (PopWorld ι) :=
  match w.phase i with
  | .idle | .returned _ => none
  | .looking call => some (w.move i (lookup w.challenges call fault))
  | .deleting row =>
    match fault with
    | some e => some (w.move i (.returned (.error e)))
    | none => some { w.move i (.returned (.ok row.challenge)) with
        challenges := delete w.challenges row
        taken := w.taken ++ [row] }
  | .dropping row =>
    some { w.move i (.returned (.error "pop challenge expired")) with
      challenges := fault.elim (delete w.challenges row) (fun _ ↦ w.challenges) }

def nextPop (w : PopWorld ι) : PopEvent ι → Option (PopWorld ι)
  | .call i call =>
    match w.phase i with
    | .idle | .returned _ => some (w.move i (.looking call))
    | _ => none
  | .step i fault => takeStep w i fault
  | .store row =>
    some ((w.challenges.insert row).elim w
      (fun challenges ↦ { w with challenges := challenges, stored := w.stored ++ [row] }))
  | .sweep now =>
    some { w with challenges := w.challenges.deleteWhere (fun c ↦ c.exp < now) }

/-- The step condition: when a call looks a challenge up, no other call that has
looked it up has yet to delete it. -/
def Alone (w : PopWorld ι) : PopEvent ι → Prop
  | .step i _ => ∀ call ∈ (w.phase i).wanted, ∀ j, ∀ row ∈ (w.phase j).found,
      row.id ≠ call.challengeId
  | _ => True

instance [Fintype ι] (w : PopWorld ι) : (e : PopEvent ι) → Decidable (Alone w e)
  | .step _ _ => inferInstanceAs (Decidable (∀ _ ∈ _, ∀ _, ∀ _ ∈ _, _))
  | .call _ _ | .store _ | .sweep _ => isTrue trivial

/-- The row is in the table, or a call is about to return it. -/
def PopWorld.Live (w : PopWorld ι) (row : PopChallenge) : Prop :=
  row ∈ w.challenges.rows ∨ ∃ i, w.phase i = .deleting row

structure PopInvariant (w : PopWorld ι) : Prop where
  outstanding : Outstanding w.stored w.taken w.Live
  unique : ∀ i j row row', w.phase i = .deleting row → w.phase j = .deleting row' →
    row.id = row'.id → i = j

variable {w w' : PopWorld ι} {i j : ι} {p : TakePhase} {row : PopChallenge}
  {call : TakeCall} {fault : Option String}

@[simp] theorem phase_move_self : (w.move i p).phase i = p := Function.update_self ..

theorem phase_move_of_ne (hj : j ≠ i) : (w.move i p).phase j = w.phase j :=
  Function.update_of_ne hj ..

theorem deleting_of_move (hp : ∀ row, p ≠ .deleting row) (h : (w.move i p).phase j = .deleting row) :
    j ≠ i ∧ w.phase j = .deleting row := by
  have hj : j ≠ i := by
    intro hj
    rw [hj, phase_move_self] at h
    exact hp row h
  exact ⟨hj, (phase_move_of_ne hj).symm.trans h⟩

theorem deleting_of_hold {r : PopChallenge}
    (h : (w.move i (.deleting row)).phase j = .deleting r) :
    j = i ∧ r = row ∨ w.phase j = .deleting r := by
  by_cases hj : j = i
  · subst hj
    rw [phase_move_self] at h
    cases h
    exact .inl ⟨rfl, rfl⟩
  · exact .inr ((phase_move_of_ne hj).symm.trans h)

omit [DecidableEq ι] in
theorem mem_of_lookup (h : lookup w.challenges call fault = .deleting row) :
    row ∈ w.challenges.rows ∧ row.id = call.challengeId := by
  unfold lookup at h
  split at h
  · rename_i c hget
    split_ifs at h
    cases h
    exact Table.get_eq_some.mp hget
  · cases h

theorem PopInvariant.release (hw : PopInvariant w) (hp : ∀ row, p ≠ .deleting row)
    {challenges : Table PopChallenge.id} (hsub : ∀ r ∈ challenges.rows, r ∈ w.challenges.rows) :
    PopInvariant { w.move i p with challenges := challenges } where
  outstanding := by
    apply hw.outstanding.mono
    intro row hlive
    rcases hlive with hrow | ⟨j, hj⟩
    · exact .inl (hsub row hrow)
    · exact .inr ⟨j, (deleting_of_move hp hj).2⟩
  unique a b r s ha hb :=
    hw.unique a b r s (deleting_of_move hp ha).2 (deleting_of_move hp hb).2

theorem PopInvariant.hold (hw : PopInvariant w) (hrow : row ∈ w.challenges.rows)
    (hfree : ∀ j s, w.phase j = .deleting s → s.id ≠ row.id) :
    PopInvariant (w.move i (.deleting row)) where
  outstanding := by
    apply hw.outstanding.mono
    intro r hlive
    rcases hlive with hr | ⟨j, hj⟩
    · exact .inl hr
    · rcases deleting_of_hold hj with ⟨-, rfl⟩ | hj
      · exact .inl hrow
      · exact .inr ⟨j, hj⟩
  unique a b r s ha hb he := by
    rcases deleting_of_hold ha with ⟨rfl, rfl⟩ | ha'
    · rcases deleting_of_hold hb with ⟨rfl, -⟩ | hb'
      · rfl
      · exact absurd he.symm (hfree b s hb')
    · rcases deleting_of_hold hb with ⟨rfl, rfl⟩ | hb'
      · exact absurd he (hfree a r ha')
      · exact hw.unique a b r s ha' hb' he

theorem PopInvariant.take (hw : PopInvariant w) (hi : w.phase i = .deleting row)
    {result : Except String String} :
    PopInvariant { w.move i (.returned result) with
      challenges := delete w.challenges row
      taken := w.taken ++ [row] } where
  outstanding := by
    apply hw.outstanding.handOut (.inr ⟨i, hi⟩)
    intro r hlive
    rcases hlive with hr | ⟨j, hj⟩
    · obtain ⟨hr, hid⟩ := Table.mem_deleteWhere.mp hr
      refine ⟨?_, .inl hr⟩
      intro he
      simp [he] at hid
    · obtain ⟨hji, hj⟩ := deleting_of_move (fun _ ↦ TakePhase.noConfusion) hj
      refine ⟨?_, .inr ⟨j, hj⟩⟩
      intro he
      exact hji (hw.unique j i r row hj hi (by rw [he]))
  unique a b r s ha hb :=
    hw.unique a b r s (deleting_of_move (fun _ ↦ TakePhase.noConfusion) ha).2
      (deleting_of_move (fun _ ↦ TakePhase.noConfusion) hb).2

theorem invariant_takeStep (hw : PopInvariant w) (hok : Alone w (.step i fault))
    (h : takeStep w i fault = some w') : PopInvariant w' := by
  unfold takeStep at h
  cases hphase : w.phase i with
  | idle | returned result =>
    rw [hphase] at h
    cases h
  | looking call =>
    rw [hphase] at h
    obtain rfl := Option.some.inj h
    by_cases hrow : ∃ row, lookup w.challenges call fault = .deleting row
    · obtain ⟨row, hrow⟩ := hrow
      obtain ⟨hmem, hid⟩ := mem_of_lookup hrow
      rw [hrow]
      apply hw.hold hmem
      intro j s hs
      rw [hid]
      exact hok call (by rw [hphase]; rfl) j s (by rw [hs]; rfl)
    · exact hw.release (fun row hr ↦ hrow ⟨row, hr⟩) (fun r hr ↦ hr)
  | deleting row =>
    rw [hphase] at h
    cases fault with
    | some e =>
      obtain rfl := Option.some.inj h
      exact hw.release (fun _ ↦ TakePhase.noConfusion) (fun r hr ↦ hr)
    | none =>
      obtain rfl := Option.some.inj h
      exact hw.take hphase
  | dropping row =>
    rw [hphase] at h
    obtain rfl := Option.some.inj h
    apply hw.release (fun _ ↦ TakePhase.noConfusion)
    intro r hr
    cases fault with
    | none => exact (Table.mem_deleteWhere.mp hr).1
    | some e => exact hr

theorem invariant_store (hw : PopInvariant w) (h : nextPop w (.store row) = some w') :
    PopInvariant w' := by
  obtain rfl := Option.some.inj h
  cases hins : w.challenges.insert row with
  | none => exact hw
  | some challenges =>
    obtain ⟨-, hrows⟩ := Table.insert_eq_some.mp hins
    refine ⟨?_, hw.unique⟩
    apply hw.outstanding.store
    intro r hlive
    rcases hlive with hr | hheld
    · replace hr : r ∈ challenges.rows := hr
      rw [hrows] at hr
      rcases List.mem_append.mp hr with hr | hr
      · exact .inr (.inl hr)
      · exact .inl (List.mem_singleton.mp hr)
    · exact .inr (.inr hheld)

theorem invariant_nextPop (w : PopWorld ι) (e : PopEvent ι) (w' : PopWorld ι)
    (hw : PopInvariant w) (hok : Alone w e) (h : nextPop w e = some w') : PopInvariant w' := by
  cases e with
  | call i call =>
    simp only [nextPop] at h
    split at h
    · obtain rfl := Option.some.inj h
      exact hw.release (fun _ ↦ TakePhase.noConfusion) (fun r hr ↦ hr)
    · obtain rfl := Option.some.inj h
      exact hw.release (fun _ ↦ TakePhase.noConfusion) (fun r hr ↦ hr)
    · cases h
  | step i fault => exact invariant_takeStep hw hok h
  | store row => exact invariant_store hw h
  | sweep now =>
    obtain rfl := Option.some.inj h
    refine ⟨?_, hw.unique⟩
    apply hw.outstanding.mono
    intro r hlive
    exact hlive.imp_left (fun hr ↦ (Table.mem_deleteWhere.mp hr).1)

omit [DecidableEq ι] in
theorem invariant_popInit (challenges : Table PopChallenge.id) :
    PopInvariant (PopWorld.init challenges : PopWorld ι) where
  outstanding := by
    apply Outstanding.start
    intro r hlive
    rcases hlive with hr | ⟨i, hi⟩
    · exact hr
    · cases hi
  unique i j r s hi := by cases hi

/-- A call that nobody interrupts does what `takePopChallenge` says. -/
theorem run_uninterrupted (call : TakeCall) (hi : w.phase i = .idle) :
    ∃ n w' result, run nextPop w (.call i call :: List.replicate n (.step i none)) = some w' ∧
      w'.phase i = .returned result ∧
      takePopChallenge w.challenges call.challengeId call.expectedAgentId call.now =
        (result, w'.challenges) := by
  unfold takePopChallenge
  cases hget : w.challenges.get call.challengeId with
  | none => exact ⟨1, by simp [run, nextPop, takeStep, lookup, PopWorld.move, hi, hget]⟩
  | some row =>
    obtain ⟨-, hid⟩ := Table.get_eq_some.mp hget
    by_cases hagent : row.agentId = call.expectedAgentId
    · refine ⟨2, ?_⟩
      by_cases hexp : row.exp < call.now <;>
        simp [run, nextPop, takeStep, lookup, delete, PopWorld.move, hi, hget, hid, hagent, hexp]
    · exact ⟨1, by simp [run, nextPop, takeStep, lookup, PopWorld.move, hi, hget, hagent]⟩

/-- In every run that meets the step condition, no stored challenge is returned
by more than one call. -/
theorem challenges_taken_once {challenges : Table PopChallenge.id} {es : List (PopEvent ι)}
    (hok : Along nextPop Alone (PopWorld.init challenges) es)
    (h : run nextPop (PopWorld.init challenges) es = some w) : w.taken.Subperm w.stored :=
  (run_invariant invariant_nextPop (invariant_popInit challenges) hok h).outstanding.subperm

section Demo

def demoChallenge (id : String) : PopChallenge := ⟨id, "agent_a", "nonce", 400⟩

def demoTake (i : Bool) (id : String) : PopEvent Bool := .call i ⟨id, "agent_a", 100⟩

def twoChallenges : List (PopEvent Bool) :=
  [.store (demoChallenge "pch_1"), .store (demoChallenge "pch_2"), demoTake false "pch_1",
    demoTake true "pch_2", .step false none, .step true none, .step false none, .step true none,
    demoTake true "pch_1", .step true none]

theorem challenges_taken_once_twoChallenges :
    ∃ w : PopWorld Bool, run nextPop (PopWorld.init .empty) twoChallenges = some w ∧
      w.taken.map PopChallenge.id = ["pch_1", "pch_2"] ∧ w.taken.Subperm w.stored := by
  have hrun : (run nextPop (PopWorld.init .empty) twoChallenges).map
      (fun w : PopWorld Bool ↦ w.taken.map PopChallenge.id) = some ["pch_1", "pch_2"] := by
    decide +kernel
  obtain ⟨w, hw, htaken⟩ := Option.map_eq_some_iff.mp hrun
  exact ⟨w, hw, htaken, challenges_taken_once (by decide +kernel) hw⟩

/-- Both calls look the challenge up before either deletes it. The second
deletion affects no row, and the challenge is returned to both. -/
theorem challenge_taken_twice :
    (run nextPop (PopWorld.init .empty) [.store (demoChallenge "pch_1"), demoTake false "pch_1",
        demoTake true "pch_1", .step false none, .step true none, .step false none,
        .step true none]).map
      (fun w : PopWorld Bool ↦ (w.phase false, w.phase true, w.stored, w.taken)) =
    some (.returned (.ok "nonce"), .returned (.ok "nonce"), [demoChallenge "pch_1"],
      [demoChallenge "pch_1", demoChallenge "pch_1"]) := by
  decide +kernel

end Demo

end SauronId.Agent
