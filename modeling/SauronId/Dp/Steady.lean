import SauronId.Dp.Conservation

namespace SauronId.Dp

open Lib

def Phase.answer : Phase → Option (Except LedgerError Response)
  | .rejected e => some (.error e)
  | .returned _ result => some result
  | _ => none

def Phase.receipt : Phase → List Publication
  | .returned (.recordPublication p) (.ok _) => [p]
  | _ => []

theorem Phase.mem_receipt {phase : Phase} {p : Publication} :
    p ∈ phase.receipt ↔ ∃ r, phase = .returned (.recordPublication p) (.ok r) := by
  unfold Phase.receipt
  split
  · rw [List.mem_singleton]
    constructor
    · rintro rfl
      exact ⟨_, rfl⟩
    · rintro ⟨r, hr⟩
      cases hr
      rfl
  · rename_i hne
    simp only [List.not_mem_nil, false_iff]
    rintro ⟨r, hr⟩
    exact hne p r hr

theorem Phase.receipt_eq_nil {phase : Phase} (h : ∀ p, phase.call ≠ some (.recordPublication p)) :
    phase.receipt = [] := by
  refine List.eq_nil_iff_forall_not_mem.mpr (fun p hp ↦ ?_)
  obtain ⟨r, rfl⟩ := mem_receipt.mp hp
  exact h p rfl

def Call.Fits : Call → Response → Prop
  | ensureCycle _ _, .done | rotateCycle _ _, .done => True
  | canPublish _ _ _, .decision _ => True
  | recordPublication _, .published _ => True
  | _, _ => False

def Phase.Fits : Phase → Prop
  | .returned call (.ok response) => call.Fits response
  | _ => True

/-- A cycle that was published in since the ledger was `start` has no more spent
on it than its cap. -/
def CappedSince (start db : LedgerDb) : Prop :=
  ∀ p ∈ db.publications.rows, p ∉ start.publications.rows →
    ∀ l ∈ db.ledger.rows, l.key = p.key → l.epsilonSpent ≤ l.epsilonCap

/-- A call that leaves the caps of the cycles alone. -/
def Call.Tame : Call → Prop
  | rotateCycle _ _ => False
  | ensureCycle _ _ | canPublish _ _ _ | recordPublication _ => True

variable {start db db' : LedgerDb} {p : Publication}

theorem CappedSince.ensureCycle {k : CycleKey} {caps : ℚ × ℚ} (h : CappedSince start db)
    (hb : Balanced db) : CappedSince start (ensureCycle db k caps) := by
  unfold Dp.ensureCycle
  cases ht : db.ledger.insert (freshEntry k caps.1 caps.2) with
  | none => exact h
  | some t =>
    obtain ⟨hfresh, hrows⟩ := Table.insert_eq_some.mp ht
    intro p hp hnew l hl hkey
    rw [Option.getD_some, hrows] at hl
    rcases List.mem_append.mp hl with hl | hl
    · exact h p hp hnew l hl hkey
    · -- Nothing was published in a cycle that did not exist.
      obtain rfl := List.mem_singleton.mp hl
      obtain ⟨l', hl', hkey'⟩ := hb.owned p hp
      exact absurd (hkey'.trans hkey.symm) (hfresh l' hl')

theorem Publishes.cappedSince (hpub : Publishes db p db') (h : CappedSince start db) :
    CappedSince start db' := by
  intro q hq hnew l' hl' hkey
  obtain ⟨l, hl, rfl⟩ := hpub.mem_ledger.mp hl'
  by_cases hlp : l.key = p.key
  · rw [if_pos hlp]
    obtain ⟨work, hcharge, -⟩ := hpub
    obtain ⟨⟨c, hc, hchargeable⟩, -⟩ := charge_eq_some.mp hcharge
    obtain rfl := db.ledger.eq_of_key hl hc (hlp.trans hchargeable.1.symm)
    exact hchargeable.2.1
  · rw [if_neg hlp] at hkey ⊢
    rw [hpub.publications_eq] at hq
    rcases List.mem_append.mp hq with hq | hq
    · exact h q hq hnew l hl hkey
    · rw [List.mem_singleton.mp hq] at hkey
      exact absurd hkey hlp

theorem Publishes.fresh (hpub : Publishes db p db') : p ∉ db.publications.rows := by
  obtain ⟨work, hcharge, hins⟩ := hpub
  obtain ⟨-, rfl⟩ := charge_eq_some.mp hcharge
  obtain ⟨publications, hp, -, -⟩ := insertPublication_eq_ok.mp hins
  exact fun hmem ↦ (Table.insert_eq_some.mp hp).1 p hmem rfl

variable {ι : Type} {T : FloatText} {w w' : World ι} {i : ι} {fault : Option String}

structure Steady (start : LedgerDb) (w : World ι) : Prop where
  invariant : Invariant w
  capped : CappedSince start w.shared
  tame : ∀ i call, (w.phase i).call = some call → call.Tame
  fits : ∀ i, (w.phase i).Fits

theorem Stepped.rows (h : Stepped w i w') :
    w'.shared.publications.rows = w.shared.publications.rows ++ (w'.phase i).receipt ∧
      ∀ p ∈ (w'.phase i).receipt, p ∉ w.shared.publications.rows := by
  have hother : ∀ {call}, (w.phase i).call = some call →
      (∀ p, call ≠ .recordPublication p) → (w'.phase i).receipt = [] := by
    intro call hcall hne
    apply Phase.receipt_eq_nil
    intro p hp
    rw [h.call, hcall] at hp
    exact hne p (Option.some.inj hp)
  cases h.effect with
  | quiet hshared hphase =>
    have hnone : (w'.phase i).receipt = [] := by
      refine List.eq_nil_iff_forall_not_mem.mpr (fun p hp ↦ ?_)
      obtain ⟨r, hr⟩ := Phase.mem_receipt.mp hp
      exact hphase p r hr
    simp [hshared, hnone]
  | ensured k caps hcall hshared => simp [hshared, hother hcall, ensureCycle]
  | rotated k caps hcall hshared => simp [hshared, hother hcall, rotateCycle]
  | published p r hcall hphase hpub =>
    rw [hphase, hpub.publications_eq]
    refine ⟨rfl, fun q hq ↦ ?_⟩
    obtain rfl := List.mem_singleton.mp hq
    exact hpub.fresh

variable [DecidableEq ι]

theorem receipt_of_step (h : next T w (.step i fault) = some w') : (w.phase i).receipt = [] := by
  simp only [next] at h
  split at h
  · rename_i call hphase
    rw [hphase]
    rfl
  · rename_i call hphase
    rw [hphase]
    rfl
  · rename_i p stage hphase
    rw [hphase]
    rfl
  · cases h

theorem fits_step (h : next T w (.step i fault) = some w') : (w'.phase i).Fits := by
  simp only [next] at h
  split at h
  · obtain rfl := Option.some.inj h
    cases fault <;> simp [World.fail, Phase.Fits]
  · rename_i call hphase
    cases fault with
    | some e =>
      cases call with
      | ensureCycle | rotateCycle | canPublish | recordPublication =>
        obtain rfl := Option.some.inj h
        simp [World.fail, Phase.Fits]
    | none =>
      cases call with
      | ensureCycle | rotateCycle =>
        obtain ⟨-, rfl⟩ := Locked.once_eq_some.mp h
        simp [Phase.Fits, Call.Fits]
      | canPublish =>
        obtain rfl := Option.some.inj h
        simp [Phase.Fits, Call.Fits]
      | recordPublication p =>
        obtain ⟨-, rfl⟩ := Locked.enter_eq_some.mp h
        simp [Phase.Fits]
  · obtain rfl := Option.some.inj h
    unfold continueTxn
    split <;> simp [Phase.Fits, Call.Fits]
  · cases h

theorem Steady.step (hw : Steady start w) (h : next T w (.step i fault) = some w') :
    Steady start w' := by
  have hstep := stepped_step hw.invariant h
  refine ⟨hstep.invariant, ?_, ?_, ?_⟩
  · cases hstep.effect with
    | quiet hshared hphase => exact hshared ▸ hw.capped
    | ensured k caps hcall hshared =>
      exact hshared ▸ hw.capped.ensureCycle hw.invariant.balanced
    | rotated k caps hcall hshared => exact (hw.tame i _ hcall).elim
    | published p r hcall hphase hpub => exact hpub.cappedSince hw.capped
  · intro j call hcall
    by_cases hj : j = i
    · subst hj
      exact hw.tame j call (hstep.call ▸ hcall)
    · rw [hstep.others j hj] at hcall
      exact hw.tame j call hcall
  · intro j
    by_cases hj : j = i
    · exact hj ▸ fits_step h
    · rw [hstep.others j hj]
      exact hw.fits j

theorem Steady.call {request : Request} (hw : Steady start w)
    (hrequest : ∀ call, request.check T = .ok call → call.Tame)
    (h : next T w (.call i request) = some w') : Steady start w' := by
  have hphase : (∃ e, w'.phase i = .rejected e) ∨
      ∃ call, request.check T = .ok call ∧ w'.phase i = .pooling call := by
    obtain ⟨-, ⟨e, -, rfl⟩ | ⟨c, hc, rfl⟩⟩ := call_eq_some h
    · exact .inl ⟨e, Locked.phase_move _ _ _⟩
    · exact .inr ⟨c, hc, Locked.phase_move _ _ _⟩
  refine ⟨invariant_call hw.invariant h, shared_call h ▸ hw.capped, ?_, ?_⟩
  · intro j call hcall
    by_cases hj : j = i
    · subst hj
      obtain ⟨e, he⟩ | ⟨c, hc, he⟩ := hphase
      · rw [he] at hcall
        cases hcall
      · rw [he] at hcall
        obtain rfl : c = call := Option.some.inj hcall
        exact hrequest c hc
    · exact hw.tame j call (phase_call h hj ▸ hcall)
  · intro j
    by_cases hj : j = i
    · subst hj
      obtain ⟨e, he⟩ | ⟨c, -, he⟩ := hphase
      · exact he ▸ trivial
      · exact he ▸ trivial
    · exact (phase_call h hj).symm ▸ hw.fits j

omit [DecidableEq ι] in
theorem steady_init (hdb : Balanced start) : Steady start (World.init start : World ι) where
  invariant := ⟨Locked.guarded_init id, hdb⟩
  capped p hp hnew := absurd hp hnew
  tame i call hcall := by cases hcall
  fits i := trivial

end SauronId.Dp
