import SauronId.Action.Machine
import SauronId.Lib.SingleUse

namespace SauronId.Action

open CryptoProtocol Lib Lib.Run Lib.SingleUse Receipt

def SignedEnvelope.stamp (e : SignedEnvelope) : String × ℤ := (e.nonceKey, e.expiresAt)

def NonceRow.stamp (r : NonceRow) : String × ℤ := (r.nonce, r.expiresAt)

def AnonPass.envelope (pass : AnonPass) : SignedEnvelope :=
  .anonymous pass.proof.envelope pass.proof.ringSignature.keyImageHex

variable {C : Curve} {ι : Type}

def Admission.awaited : Admission C → Option (String × ℤ)
  | .arrived _ => none
  | .checked _ proof | .timed _ proof _ | .keyed _ proof _ _ =>
    some (SignedEnvelope.identified proof.envelope).stamp
  | .findingRing pass _ _ | .listingMembers pass _ _ _ | .readingUsage pass =>
    some pass.envelope.stamp

def Phase.awaited : Phase C → Option (String × ℤ)
  | .admitting a => a.awaited
  | .sweeping t | .claiming t => some t.envelope.stamp
  | _ => none

def Phase.holder : Phase C → Option Ticket
  | .readingHead t | .loadingHead t _ | .readingMandate t _ _ | .issuing t _ _ _ => some t
  | _ => none

/-- A clean-up of expired nonces does not delete one that a request still waits
to insert. -/
def SparesAwaited (w : World C ι) : Event ι → Prop
  | .advance i _ =>
    match w.phase i with
    | .sweeping t => ∀ row ∈ w.nonces.rows, row.expiresAt < t.now →
        ∀ j, (w.phase j).awaited ≠ some row.stamp
    | _ => True
  | _ => True

instance [Fintype ι] (w : World C ι) (e : Event ι) : Decidable (SparesAwaited w e) := by
  unfold SparesAwaited
  split
  · split <;> infer_instance
  · infer_instance

def World.guard (w : World C ι) : Guard ι String where
  clock := w.clock
  held := {s | ∃ r ∈ w.nonces.rows, r.stamp = s}
  waiting i := (w.phase i).awaited
  spent := w.claimed.map (fun c ↦ c.2.stamp)

def Phase.Timely (clock : ℤ) : Phase C → Prop
  | .admitting a => a.Timely clock
  | .sweeping t => t.now ≤ clock
  | _ => True

variable {S : Server} {w v : World C ι} {e : Event ι}

variable {clock : ℤ} {anonRings : Bool} {dir : Directory} {a : Admission C} {P : Primitives}

theorem timely_afterAdmission (ha : a.Timely clock) :
    (afterAdmission (a.next P anonRings clock dir)).Timely clock := by
  cases hr : a.next P anonRings clock dir with
  | error rejection => trivial
  | ok r =>
    have h := Admission.timely_next ha hr
    cases r with
    | inl b => exact h
    | inr t =>
      simp only [afterAdmission]
      split_ifs
      · exact h
      · trivial

variable {s : String × ℤ}

theorem awaited_next {r : Admission C ⊕ Ticket} (h : a.next P anonRings clock dir = .ok r)
    (hs : r.elim Admission.awaited (fun t ↦ some t.envelope.stamp) = some s) :
    a.awaited = some s ∨ clock ≤ s.2 := by
  cases a with
  | arrived request =>
    cases request with
    | identified opts proof =>
      obtain ⟨_, hc, h⟩ := bind_eq_ok.mp h
      cases h
      cases hs
      exact .inr (not_expired_of_checkEnvelope hc)
    | anonymous proof =>
      obtain ⟨-, -, h⟩ := bind_eq_ok.mp h
      obtain ⟨_, hc, h⟩ := bind_eq_ok.mp h
      cases h
      cases hs
      exact .inr (not_expired_of_checkAnonEnvelope hc)
  | checked opts proof =>
    cases h
    exact .inl hs
  | timed opts proof now =>
    simp only [Admission.next] at h
    split at h
    · cases h
    · obtain ⟨point, -, h⟩ := bind_eq_ok.mp h
      cases h
      exact .inl hs
  | keyed opts proof now point =>
    obtain ⟨-, -, h⟩ := bind_eq_ok.mp h
    cases h
    exact .inl hs
  | findingRing pass ring rest =>
    obtain ⟨⟨rule, version⟩, -, h⟩ := bind_eq_ok.mp h
    cases h
    have he : (pass.underRule ring rule).envelope = pass.envelope := by
      unfold AnonPass.underRule
      split <;> rfl
    exact .inl ((congrArg (fun e : SignedEnvelope ↦ some e.stamp) he).symm.trans hs)
  | listingMembers pass ring version rest =>
    obtain ⟨-, -, h⟩ := bind_eq_ok.mp h
    cases h
    cases rest <;> exact .inl hs
  | readingUsage pass =>
    obtain ⟨-, -, h⟩ := bind_eq_ok.mp h
    cases h
    exact .inl hs

theorem awaited_afterAdmission
    (hs : (afterAdmission (a.next P anonRings clock dir)).awaited = some s) :
    a.awaited = some s ∨ clock ≤ s.2 := by
  cases hr : a.next P anonRings clock dir with
  | error rejection =>
    rw [hr] at hs
    cases hs
  | ok r =>
    rw [hr] at hs
    refine awaited_next hr ?_
    cases r with
    | inl b => exact hs
    | inr t =>
      simp only [afterAdmission] at hs
      split_ifs at hs
      · exact hs
      · cases hs

variable {t : Ticket}

theorem holder_afterAdmission {r : Except Rejection (Admission C ⊕ Ticket)}
    (h : (afterAdmission r).holder = some t) : t.ringOk = false := by
  match r with
  | .error _ | .ok (.inl _) => cases h
  | .ok (.inr u) =>
    simp only [afterAdmission] at h
    split_ifs at h with hu
    · cases h
    · cases h
      simpa using hu

variable {i : ι} {phase : Phase C}

theorem Quiet.awaited (h : Quiet S w i phase) (hs : phase.awaited = some s) :
    (w.phase i).awaited = some s ∨ w.clock ≤ s.2 := by
  cases h with
  | admission a hp =>
    rw [hp]
    exact awaited_afterAdmission hs
  | loadHead t head hp =>
    cases hl : linkAfter S.primitives w.receipts head <;> (rw [hl] at hs; cases hs)
  | arrive | replayed | readHead | readMandate | refuse => cases hs

theorem Quiet.timely (h : Quiet S w i phase) (hw : (w.phase i).Timely w.clock) :
    phase.Timely w.clock := by
  cases h with
  | admission a hp =>
    rw [hp] at hw
    exact timely_afterAdmission hw
  | loadHead t head hp => cases linkAfter S.primitives w.receipts head <;> trivial
  | arrive | replayed | readHead | readMandate | refuse => trivial

theorem Quiet.holder (h : Quiet S w i phase) (ht : phase.holder = some t) (hok : t.ringOk = true) :
    (w.phase i).holder = some t := by
  cases h with
  | admission a hp => exact absurd hok (by simp [holder_afterAdmission ht])
  | readHead u hp => rwa [hp]
  | loadHead u head hp =>
    cases hl : linkAfter S.primitives w.receipts head with
    | error failure =>
      rw [hl] at ht
      cases ht
    | ok position =>
      rw [hl] at ht
      rwa [hp]
  | readMandate u head position mandate hp => rwa [hp]
  | arrive | replayed | refuse => cases ht

theorem Quiet.not_finished (h : Quiet S w i phase) (o : Outcome) : w.phase i ≠ .finished o := by
  cases h with
  | arrive _ hp | admission _ hp | replayed _ _ hp | readHead _ hp | loadHead _ _ hp
  | readMandate _ _ _ _ hp | refuse _ _ _ _ _ hp =>
    rw [hp]
    nofun

theorem guard_insert {nonces : NonceTable} {row : NonceRow}
    (h : w.nonces.insert row = some nonces) (claimed : List (ι × SignedEnvelope)) :
    World.guard { w with nonces := nonces, claimed := claimed } =
      { w.guard with
        held := insert row.stamp w.guard.held
        spent := claimed.map (fun c ↦ c.2.stamp) } := by
  simp only [World.guard, Guard.mk.injEq, true_and, and_true]
  exact stamps_insert h

theorem guard_sweep (w : World C ι) (now : ℤ) :
    (w.sweep now).guard = { w.guard with held := {s ∈ w.guard.held | now ≤ s.2} } := by
  simp only [World.guard, World.sweep, Guard.mk.injEq, true_and, and_true]
  have hexpired : ∀ r : NonceRow, decide (r.expiresAt < now) = true ↔ r.stamp.2 < now :=
    fun _ ↦ decide_eq_true_iff
  exact stamps_deleteWhere hexpired w.nonces

structure Accounted (w : World C ι) : Prop where
  holder : ∀ i t, (w.phase i).holder = some t → t.ringOk = true → (i, t.envelope) ∈ w.claimed
  claimed : ∀ x ∈ w.issued, (x.1, x.2.1) ∈ w.claimed
  finished : ∀ x ∈ w.issued, ∃ o, w.phase x.1 = .finished o
  nodup : (w.issued.map Prod.fst).Nodup

structure Single (w : World C ι) : Prop where
  timely : ∀ i, (w.phase i).Timely w.clock
  sound : Sound w.guard
  accounted : Accounted w

theorem single_init (clock : ℤ) (directory : Directory) :
    Single (World.init clock directory : World C ι) where
  timely := fun _ ↦ trivial
  sound := ⟨List.nodup_nil, fun _ hs ↦ absurd hs List.not_mem_nil⟩
  accounted :=
    { holder := fun _ t ht ↦ absurd ht (Option.some_ne_none t).symm
      claimed := fun _ hx ↦ absurd hx List.not_mem_nil
      finished := fun _ hx ↦ absurd hx List.not_mem_nil
      nodup := List.nodup_nil }

variable [DecidableEq ι]

theorem guard_move (w : World C ι) (i : ι) (phase : Phase C) :
    (w.move i phase).guard =
      { w.guard with waiting := Function.update w.guard.waiting i phase.awaited } := by
  simp only [World.guard, World.move, Guard.mk.injEq, true_and, and_true]
  exact Function.comp_update Phase.awaited w.phase i phase

theorem guard_move_same (h : phase.awaited = (w.phase i).awaited) :
    (w.move i phase).guard = w.guard := by
  rw [guard_move, h]
  exact congrArg (Guard.mk _ _ · _) (Function.update_eq_self i w.guard.waiting)

/-- The requests over their shared tables refine the guard, as long as no
clean-up deletes what somebody waits for. -/
theorem Step.refines (hstep : Step S w e v) (ht : ∀ i, (w.phase i).Timely w.clock)
    (hok : SparesAwaited w e) : SingleUse.Step w.guard v.guard := by
  cases hstep with
  | tick seconds => exact .tick _ (by simp [World.guard])
  | setDirectory directory => exact .stutter
  | recordNonce row nonces hn =>
    rw [guard_insert hn w.claimed]
    exact .hold row.stamp
  | quiet e i phase hq =>
    rw [guard_move]
    exact .move (fun _ hs ↦ hq.awaited hs)
  | sweep i random t hp =>
    have hnow := ht i
    rw [hp] at hnow
    simp only [SparesAwaited, hp] at hok
    rw [guard_move_same (by rw [show (w.sweep t.now).phase i = _ from hp]; rfl), guard_sweep]
    refine .sweep t.now hnow ?_
    rintro s ⟨r, hr, rfl⟩ hlt
    exact hok r hr hlt
  | claim i random t nonces hp hn =>
    have hfresh : t.nonceRow.stamp ∉ w.guard.held :=
      stamp_not_mem (fun _ _ he ↦ (Prod.mk.inj he).1) hn
    have hwait : w.guard.waiting i = some t.envelope.stamp := by
      show (w.phase i).awaited = _
      rw [hp]
      rfl
    rw [guard_move, guard_insert hn, List.map_append]
    exact .claim i t.envelope.stamp hwait hfresh
  | issue i random t head position mandate signature hp hr hs =>
    rw [World.store, guard_move]
    exact .leave i

theorem Step.timely (hstep : Step S w e v) (ht : ∀ i, (w.phase i).Timely w.clock) :
    ∀ i, (v.phase i).Timely v.clock := by
  have hmove : ∀ (i : ι) (phase : Phase C), phase.Timely w.clock →
      ∀ j, (Function.update w.phase i phase j).Timely w.clock := fun i phase hphase ↦
    (Function.forall_update_iff w.phase (fun _ p ↦ p.Timely w.clock)).mpr
      ⟨hphase, fun j _ ↦ ht j⟩
  cases hstep with
  | tick seconds =>
    intro i
    have hi := ht i
    have hle : w.clock ≤ w.clock + seconds := by omega
    show (w.phase i).Timely (w.clock + seconds)
    cases hp : w.phase i with
    | admitting a =>
      rw [hp] at hi
      exact Admission.Timely.mono hle hi
    | sweeping t =>
      rw [hp] at hi
      exact le_trans hi hle
    | _ => trivial
  | setDirectory | recordNonce => exact ht
  | quiet e i phase hq => exact hmove i phase (hq.timely (ht i))
  | sweep i | claim i | issue i => exact hmove i _ trivial

theorem Accounted.move (h : Accounted w) (hne : ∀ o, w.phase i ≠ .finished o)
    (hphase : ∀ t, phase.holder = some t → t.ringOk = true → (i, t.envelope) ∈ w.claimed) :
    Accounted (w.move i phase) := by
  refine ⟨fun j t hj ↦ ?_, h.claimed, fun x hx ↦ ?_, h.nodup⟩
  · rcases eq_or_ne j i with rfl | hji
    · exact hphase t (by simpa [World.move] using hj)
    · exact h.holder j t (by simpa [World.move, hji] using hj)
  · obtain ⟨o, ho⟩ := h.finished x hx
    have hxi : x.1 ≠ i := fun he ↦ hne o (he ▸ ho)
    exact ⟨o, by simpa [World.move, hxi] using ho⟩

theorem Accounted.moveIdle (h : Accounted w) (hne : ∀ o, w.phase i ≠ .finished o)
    (hnone : phase.holder = none) : Accounted (w.move i phase) :=
  h.move hne (fun t ht ↦ absurd (hnone.symm.trans ht) (Option.some_ne_none t).symm)

theorem Accounted.store {head : Option (ℤ × String)} {position : ℤ × String} {mandate : String}
    (h : Accounted w) (hp : w.phase i = .issuing t head position mandate)
    (hr : t.ringOk = true) (receipt : ActionReceipt) : Accounted (w.store i t receipt) := by
  have hclaimed : (i, t.envelope) ∈ w.claimed := h.holder i t (by rw [hp]; rfl) hr
  have hnew : i ∉ w.issued.map Prod.fst := by
    intro hi
    obtain ⟨x, hx, rfl⟩ := List.mem_map.mp hi
    obtain ⟨o, ho⟩ := h.finished x hx
    rw [hp] at ho
    cases ho
  have hmove : Accounted (w.move i (.finished (.accepted receipt))) :=
    h.moveIdle (fun o ↦ by rw [hp]; nofun) rfl
  refine ⟨hmove.holder, fun x hx ↦ ?_, fun x hx ↦ ?_, ?_⟩
  · rcases List.mem_append.mp hx with hx | hx
    · exact h.claimed x hx
    · rw [List.mem_singleton.mp hx]
      exact hclaimed
  · rcases List.mem_append.mp hx with hx | hx
    · exact hmove.finished x hx
    · rw [List.mem_singleton.mp hx]
      exact ⟨_, Function.update_self i _ w.phase⟩
  · show ((w.issued ++ [_]).map Prod.fst).Nodup
    rw [List.map_append]
    exact h.nodup.append (List.nodup_singleton i) (by simpa using hnew)

theorem Step.accounted (hstep : Step S w e v) (h : Accounted w) : Accounted v := by
  cases hstep with
  | tick | setDirectory | recordNonce => exact ⟨h.holder, h.claimed, h.finished, h.nodup⟩
  | quiet e i phase hq =>
    exact h.move hq.not_finished (fun t ht hok ↦ h.holder i t (hq.holder ht hok) hok)
  | sweep i random t hp =>
    have hs : Accounted (w.sweep t.now) := ⟨h.holder, h.claimed, h.finished, h.nodup⟩
    exact hs.moveIdle (fun o ↦ by rw [show (w.sweep t.now).phase i = _ from hp]; nofun) rfl
  | claim i random t nonces hp hn =>
    have hs : Accounted { w with nonces := nonces, claimed := w.claimed ++ [(i, t.envelope)] } :=
      ⟨fun j u hj hok ↦ List.mem_append_left _ (h.holder j u hj hok),
        fun x hx ↦ List.mem_append_left _ (h.claimed x hx), h.finished, h.nodup⟩
    refine hs.move (fun o ↦ by rw [show w.phase i = _ from hp]; nofun) (fun u hu _ ↦ ?_)
    cases hu
    exact List.mem_append_right _ (List.mem_singleton_self _)
  | issue i random t head position mandate signature hp hr hs => exact h.store hp hr _

theorem single_of_run {directory : Directory} {es : List (Event ι)}
    (hrun : run (next S) (World.init clock directory) es = some w)
    (hok : Along (next S) SparesAwaited (World.init (C := C) clock directory) es) : Single w := by
  refine run_invariant (fun w e v hw hspares h ↦ ?_) (single_init clock directory) hok hrun
  have hstep := step_of_next h
  exact ⟨hstep.timely hw.timely, hw.sound.step (hstep.refines hw.timely hspares),
    hstep.accounted hw.accounted⟩

theorem envelope_accepted_once {clock : ℤ} {directory : Directory} {es : List (Event ι)}
    (hrun : run (next S) (World.init clock directory) es = some w)
    (hok : Along (next S) SparesAwaited (World.init (C := C) clock directory) es) :
    (w.issued.map (fun x ↦ x.2.1)).Nodup := by
  obtain ⟨-, hsound, hacc⟩ := single_of_run hrun hok
  have hinj := List.inj_on_of_nodup_map (f := fun c : ι × SignedEnvelope ↦ c.2.stamp) hsound.nodup
  refine List.Nodup.map_on (fun x hx y hy he ↦ ?_) (hacc.nodup.of_map Prod.fst)
  have hxy := hinj (hacc.claimed x hx) (hacc.claimed y hy) (congrArg SignedEnvelope.stamp he)
  exact List.inj_on_of_nodup_map hacc.nodup hx hy (Prod.mk.inj hxy).1

def paidTwice : List (Event (Fin 3)) :=
  [Event.arrive 0 agentPayment, .arrive 1 agentPayment, .arrive 2 ringPayment] ++
    advances 0 10 "a" ++ advances 1 6 "b" ++ advances 2 10 "c"

theorem envelope_accepted_once_paidTwice :
    ∃ w : World openCurve (Fin 3),
      run (next openServer) (World.init 90 payers) paidTwice = some w ∧
      w.issued.length = 2 ∧ (w.issued.map (fun x ↦ x.2.1)).Nodup := by
  obtain ⟨w, hw, hlen⟩ : ∃ w, run (next openServer) (World.init (C := openCurve) 90 payers)
      paidTwice = some w ∧ w.issued.length = 2 := by
    decide +kernel
  exact ⟨w, hw, hlen, envelope_accepted_once hw (by decide +kernel)⟩

def expiredInBetween : List (Event (Fin 2)) :=
  [Event.arrive 0 agentPayment, .arrive 1 agentPayment] ++ advances 0 10 "a" ++
    advances 1 1 "b" ++ [Event.tick 1] ++ advances 1 9 "b"

theorem envelope_accepted_twice :
    ∃ w : World openCurve (Fin 2),
      run (next openServer) (World.init 100 payers) expiredInBetween = some w ∧
      ¬ (w.issued.map (fun x ↦ x.2.1)).Nodup := by
  decide +kernel

end SauronId.Action
