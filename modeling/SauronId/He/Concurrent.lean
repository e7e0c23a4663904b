import SauronId.He.Submit

namespace SauronId.He

open Lib Lib.Run

/-- Where a request is. The database is locked for one statement at a time. -/
inductive SubmitPhase
  | idle
  | checking (body : EncryptedStatsSubmission) (pk : PaillierPublicKey) (incoming : Ciphertext)
  | loading (body : EncryptedStatsSubmission) (pk : PaillierPublicKey) (incoming : Ciphertext)
  /-- The new sum is computed from the row that was loaded, it is written next. -/
  | storing (body : EncryptedStatsSubmission) (incoming : Ciphertext)
      (seen : Option HeAggregationRow) (agg : HeAggregator)
  | returned (result : Except AppError EncryptedStatsResponse)

structure HeWorld (ι : Type) where
  db : HeDb
  phase : ι → SubmitPhase
  /-- The submissions that were answered with success. -/
  accepted : List Contribution

/-- A request begins, or its next statement is executed, with the error the
engine answers it with, if any, the randomness and the clock. -/
inductive HeEvent (ι σ : Type)
  | call (i : ι) (body : EncryptedStatsSubmission)
  | step (i : ι) (fault : Option String) (seed : σ) (now : ℤ)

variable {ι σ : Type} [DecidableEq ι]

def HeWorld.move (w : HeWorld ι) (i : ι) (p : SubmitPhase) : HeWorld ι :=
  { w with phase := Function.update w.phase i p }

@[simp] theorem HeWorld.phase_move_self (w : HeWorld ι) (i : ι) (p : SubmitPhase) :
    (w.move i p).phase i = p := Function.update_self ..

theorem HeWorld.phase_move_of_ne (w : HeWorld ι) {i j : ι} (p : SubmitPhase) (hj : j ≠ i) :
    (w.move i p).phase j = w.phase j := Function.update_of_ne hj ..

def HeWorld.init : HeWorld ι := ⟨.empty, fun _ ↦ .idle, []⟩

section Machine

variable (env : HeEnv) (R : RngCore σ)

def arrived (body : EncryptedStatsSubmission) : SubmitPhase :=
  match resolve env body with
  | .error e => .returned (.error e)
  | .ok (pk, incoming) => .checking body pk incoming

def checked (body : EncryptedStatsSubmission) (pk : PaillierPublicKey) (incoming : Ciphertext)
    (fault : Option String) (db : HeDb) : SubmitPhase :=
  match refuseConflict body fault db with
  | .error e => .returned (.error e)
  | .ok () => .loading body pk incoming

def loaded (body : EncryptedStatsSubmission) (pk : PaillierPublicKey) (incoming : Ciphertext)
    (fault : Option String) (s : σ) (db : HeDb) : SubmitPhase :=
  match loadAndAdd env R body pk incoming fault s db with
  | .error e => .returned (.error e)
  | .ok agg => .storing body incoming (db.get (aggregationId body.key)) agg

def submitStep (w : HeWorld ι) (i : ι) (fault : Option String) (s : σ) (now : ℤ) :
    Option (HeWorld ι) :=
  match w.phase i with
  | .idle | .returned _ => none
  | .checking body pk incoming => some (w.move i (checked body pk incoming fault w.db))
  | .loading body pk incoming => some (w.move i (loaded env R body pk incoming fault s w.db))
  | .storing body incoming _ agg =>
    match fault with
    | some e => some (w.move i (.returned (.error (storageFailed e))))
    | none => some { w.move i (.returned (.ok (responseOf body agg))) with
        db := upsertHeAggregation w.db (rowOf body agg now)
        accepted := w.accepted ++ [⟨body.key, incoming⟩] }

def nextHe (w : HeWorld ι) : HeEvent ι σ → Option (HeWorld ι)
  | .call i body =>
    match w.phase i with
    | .idle | .returned _ => some (w.move i (arrived env body))
    | _ => none
  | .step i fault s now => submitStep env R w i fault s now

end Machine

def SubmitPhase.pending : SubmitPhase → Option (AggregateKey × Option HeAggregationRow)
  | .storing body _ seen _ => some (body.key, seen)
  | _ => none

/-- The step condition: when a request writes its sum back, the row is still the
one it had loaded, and its counter is below the largest `u32`. -/
def Unchanged (w : HeWorld ι) : HeEvent ι σ → Prop
  | .step i none _ _ => ∀ loaded ∈ (w.phase i).pending,
      w.db.get (aggregationId loaded.1) = loaded.2 ∧
        ∀ row ∈ loaded.2, row.nContributions < 2 ^ 32 - 1
  | _ => True

instance (w : HeWorld ι) : (e : HeEvent ι σ) → Decidable (Unchanged w e)
  | .step _ none _ _ => inferInstanceAs (Decidable (∀ _ ∈ _, _ ∧ ∀ _ ∈ _, _))
  | .step _ (some _) _ _ | .call _ _ => isTrue trivial

def HeEvent.Concerns (k : AggregateKey) : HeEvent ι σ → Prop
  | .call _ body => body.key = k
  | .step _ _ _ _ => True

instance (k : AggregateKey) : (e : HeEvent ι σ) → Decidable (e.Concerns k)
  | .call _ _ => inferInstanceAs (Decidable (_ = _))
  | .step _ _ _ _ => isTrue trivial

/-- What a request under way is about: the aggregate, a registered key, and a
sum that comes from the row it has seen. -/
def SubmitPhase.Coherent (env : HeEnv) (R : RngCore σ) (k : AggregateKey) : SubmitPhase → Prop
  | .idle | .returned _ => True
  | .checking body pk _ | .loading body pk _ => body.key = k ∧ env.registry body.pkId = some pk
  | .storing body incoming seen agg' => body.key = k ∧ ∃ pk s agg,
      env.registry body.pkId = some pk ∧ restore env R pk seen s = .ok agg ∧
      contribute agg incoming = .ok agg'

structure HeInvariant {env : HeEnv} (R : RngCore σ) (ring : KeyRing env.registry)
    (k : AggregateKey) (w : HeWorld ι) : Prop where
  separated : Separated ring w.db w.accepted
  only : ∀ c ∈ w.accepted, c.key = k
  coherent : ∀ i, (w.phase i).Coherent env R k

section Invariant

variable {env : HeEnv} {R : RngCore σ} {ring : KeyRing env.registry} {k : AggregateKey}
  {w w' : HeWorld ι} {i : ι} {p : SubmitPhase}

omit [DecidableEq ι] in
theorem invariant_heInit : HeInvariant R ring k (HeWorld.init : HeWorld ι) where
  separated := separated_init
  only c hc := by cases hc
  coherent i := trivial

theorem HeInvariant.move (hw : HeInvariant R ring k w) (hp : p.Coherent env R k) :
    HeInvariant R ring k (w.move i p) where
  separated := hw.separated
  only := hw.only
  coherent j := by
    by_cases hj : j = i
    · subst hj
      rw [HeWorld.phase_move_self]
      exact hp
    · rw [HeWorld.phase_move_of_ne w p hj]
      exact hw.coherent j

variable {body : EncryptedStatsSubmission}

theorem coherent_arrived (hk : body.key = k) :
    (arrived env body).Coherent env R k := by
  unfold arrived
  cases hresolve : resolve env body with
  | error e => trivial
  | ok resolved => exact ⟨hk, (resolve_eq_ok hresolve).1⟩

variable {incoming : Ciphertext} {pk : PaillierPublicKey}

theorem coherent_checked (h : (SubmitPhase.checking body pk incoming).Coherent env R k)
    (fault : Option String) (db : HeDb) :
    (checked body pk incoming fault db).Coherent env R k := by
  unfold checked
  cases refuseConflict body fault db with
  | error e => trivial
  | ok u => exact h

theorem coherent_loaded (h : (SubmitPhase.loading body pk incoming).Coherent env R k)
    (fault : Option String) (s : σ) (db : HeDb) :
    (loaded env R body pk incoming fault s db).Coherent env R k := by
  unfold loaded
  cases hload : loadAndAdd env R body pk incoming fault s db with
  | error e => trivial
  | ok agg' =>
    obtain ⟨agg, hagg, hadd⟩ := loadAndAdd_eq_ok hload
    exact ⟨h.1, pk, s, agg, h.2, hagg, hadd⟩

omit [DecidableEq ι] in
theorem HeInvariant.key_of_get (hw : HeInvariant R ring k w) {id : String}
    {row : HeAggregationRow} (h : w.db.get id = some row) : row.key = k := by
  obtain ⟨c, hc, hrow⟩ := hw.separated.owned id row h
  rw [← hrow, hw.only c hc]

variable {seen : Option HeAggregationRow}

theorem HeInvariant.store (hw : HeInvariant R ring k w) {agg' : HeAggregator}
    (hphase : w.phase i = .storing body incoming seen agg')
    (hseen : w.db.get (aggregationId body.key) = seen)
    (hcount : ∀ row ∈ seen, row.nContributions < 2 ^ 32 - 1) (now : ℤ) :
    HeInvariant R ring k { w.move i (.returned (.ok (responseOf body agg'))) with
      db := upsertHeAggregation w.db (rowOf body agg' now)
      accepted := w.accepted ++ [⟨body.key, incoming⟩] } := by
  have hcoherent := hw.coherent i
  rw [hphase] at hcoherent
  obtain ⟨hk, pk, s, agg, hpk, hagg, hadd⟩ := hcoherent
  subst hseen
  have hmoved : HeInvariant R ring k (w.move i (.returned (.ok (responseOf body agg')))) :=
    hw.move trivial
  refine ⟨?_, ?_, hmoved.coherent⟩
  · apply hw.separated.writeBack hpk _ hagg hadd now
    intro row hrow
    exact ⟨(hw.key_of_get hrow).trans hk.symm, hcount row hrow⟩
  · intro c hc
    rcases List.mem_append.mp hc with hc | hc
    · exact hw.only c hc
    · rw [List.mem_singleton.mp hc]
      exact hk

theorem invariant_submitStep (hw : HeInvariant R ring k w) {fault : Option String} {s : σ}
    {now : ℤ} (hok : Unchanged w (.step i fault s now))
    (h : submitStep env R w i fault s now = some w') : HeInvariant R ring k w' := by
  have hcoherent := hw.coherent i
  unfold submitStep at h
  cases hphase : w.phase i with
  | idle | returned result =>
    rw [hphase] at h
    cases h
  | checking body pk incoming =>
    rw [hphase] at h hcoherent
    obtain rfl := Option.some.inj h
    exact hw.move (coherent_checked hcoherent fault w.db)
  | loading body pk incoming =>
    rw [hphase] at h hcoherent
    obtain rfl := Option.some.inj h
    exact hw.move (coherent_loaded hcoherent fault s w.db)
  | storing body incoming seen agg =>
    rw [hphase] at h
    cases fault with
    | some e =>
      obtain rfl := Option.some.inj h
      exact hw.move trivial
    | none =>
      obtain rfl := Option.some.inj h
      obtain ⟨hseen, hcount⟩ := hok (body.key, seen) (by rw [hphase]; rfl)
      exact hw.store hphase hseen hcount now

theorem invariant_nextHe (w : HeWorld ι) (e : HeEvent ι σ) (w' : HeWorld ι)
    (hw : HeInvariant R ring k w) (hok : e.Concerns k ∧ Unchanged w e)
    (h : nextHe env R w e = some w') : HeInvariant R ring k w' := by
  cases e with
  | call i body =>
    simp only [nextHe] at h
    split at h
    · obtain rfl := Option.some.inj h
      exact hw.move (coherent_arrived hok.1)
    · obtain rfl := Option.some.inj h
      exact hw.move (coherent_arrived hok.1)
    · cases h
  | step i fault s now => exact invariant_submitStep hw hok.2 h

def ownEvents (i : ι) (call : SubmitCall σ) : List (HeEvent ι σ) :=
  [.call i call.body, .step i call.conflictFault call.seed call.now,
    .step i call.loadFault call.seed call.now, .step i call.storeFault call.seed call.now]

/-- In every interleaving of requests to one aggregate that meets the step
condition, the aggregate decrypts to the sum of all submissions answered with
success and counts them. -/
theorem no_contribution_lost {es : List (HeEvent ι σ)} (hone : ∀ e ∈ es, e.Concerns k)
    (hok : Along (nextHe env R) Unchanged HeWorld.init es)
    (h : run (nextHe env R) HeWorld.init es = some w) :
    match w.db.get (aggregationId k) with
    | none => w.accepted = []
    | some row => Sums ring row (w.accepted.map Contribution.ciphertext) := by
  have hboth := along_and (along_of_forall hone) hok
  have hw : HeInvariant R ring k w := run_invariant invariant_nextHe invariant_heInit hboth h
  cases hget : w.db.get (aggregationId k) with
  | none =>
    apply List.eq_nil_iff_forall_not_mem.mpr
    intro c hc
    obtain ⟨row, hrow, -⟩ := hw.separated.found c hc
    rw [hw.only c hc, hget] at hrow
    cases hrow
  | some row =>
    have hsums := hw.separated.sums _ row hget
    have hall : contributedTo row.key w.accepted = w.accepted.map Contribution.ciphertext := by
      rw [contributedTo, List.filter_eq_self.mpr]
      intro c hc
      exact decide_eq_true ((hw.only c hc).trans (hw.key_of_get hget).symm)
    rwa [hall] at hsums

end Invariant

namespace Demo

def arrive (i : Bool) (c : ℕ) : HeEvent Bool Unit := .call i (submit ofA c).body

def advance (i : Bool) : HeEvent Bool Unit := .step i none () 1000

def tally (w : HeWorld Bool) : ℕ × Option (ℤ × Option ℕ) :=
  (w.accepted.length, (w.db.get (aggregationId ofA)).map
    (fun row ↦ (row.nContributions, opened key row)))

/-- Encryptions of `7` and `9` by two requests at once, of which the second
loads the row only after the first has written it. -/
def inTurn : List (HeEvent Bool Unit) :=
  [arrive false 83, arrive true 98, advance false, advance true, advance false, advance false,
    advance true, advance true]

def atOnce : List (HeEvent Bool Unit) :=
  [arrive false 83, arrive true 98, advance false, advance true, advance false, advance true,
    advance false, advance true]

end Demo

theorem no_contribution_lost_inTurn :
    ∃ w, run (nextHe Demo.env Demo.two) HeWorld.init Demo.inTurn = some w ∧
      Demo.tally w = (2, some (2, some 1)) ∧
      match w.db.get (aggregationId Demo.ofA) with
      | none => w.accepted = []
      | some row => Sums Demo.ring row (w.accepted.map Contribution.ciphertext) := by
  have hrun : (run (nextHe Demo.env Demo.two) HeWorld.init Demo.inTurn).map Demo.tally =
      some (2, some (2, some 1)) := by
    decide +kernel
  obtain ⟨w, hw, htally⟩ := Option.map_eq_some_iff.mp hrun
  exact ⟨w, hw, htally, no_contribution_lost (by decide +kernel) (by decide +kernel) hw⟩

/-- Both requests are answered with success, and the row holds the second
submission alone. -/
theorem contribution_overwritten :
    (run (nextHe Demo.env Demo.two) HeWorld.init Demo.atOnce).map Demo.tally =
      some (2, some (1, some 9)) := by
  decide +kernel

end SauronId.He
