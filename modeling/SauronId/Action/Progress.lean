import SauronId.Action.Machine

namespace SauronId.Action

open CryptoProtocol Lib Lib.Run Receipt

variable {C : Curve} {ι : Type}

def Admission.rank : Admission C → ℕ
  | .arrived (.identified _ _) => 10
  | .arrived (.anonymous proof) => 10 + 2 * (alsoRings proof).length
  | .checked _ _ => 9
  | .timed _ _ _ => 8
  | .keyed _ _ _ _ => 7
  | .findingRing _ _ rest => 9 + 2 * rest.length
  | .listingMembers _ _ _ rest => 8 + 2 * rest.length
  | .readingUsage _ => 7

def Phase.rank : Phase C → ℕ
  | .idle | .finished _ => 0
  | .admitting a => a.rank
  | .sweeping _ => 6
  | .claiming _ => 5
  | .readingHead _ => 4
  | .loadingHead _ _ => 3
  | .readingMandate _ _ _ => 2
  | .issuing _ _ _ _ => 1

theorem Admission.six_lt_rank (a : Admission C) : 6 < a.rank := by
  rcases a with (_ | _) | _ | _ | _ | _ | _ | _ <;> simp only [Admission.rank] <;> omega

theorem Admission.rank_afterRing (pass : AnonPass) (rest : List RingCheck) :
    (Admission.afterRing pass rest : Admission C).rank = 7 + 2 * rest.length := by
  cases rest with
  | nil => rfl
  | cons ring rest =>
    simp only [Admission.afterRing, Admission.rank, List.length_cons]
    omega

theorem Admission.rank_next {P : Primitives} {anonRings : Bool} {clock : ℤ} {dir : Directory}
    {a b : Admission C} (h : a.next P anonRings clock dir = .ok (.inl b)) : b.rank < a.rank := by
  cases a with
  | arrived request =>
    cases request with
    | identified opts proof =>
      obtain ⟨_, h⟩ := andThen_eq_ok.mp h
      cases h
      exact Nat.lt_add_one 9
    | anonymous proof =>
      obtain ⟨_, h⟩ := andThen_eq_ok.mp h
      obtain ⟨_, h⟩ := andThen_eq_ok.mp h
      cases h
      simp only [Admission.rank]
      omega
  | checked opts proof =>
    cases h
    exact Nat.lt_add_one 8
  | timed opts proof now =>
    simp only [Admission.next] at h
    split at h
    · cases h
    · obtain ⟨point, _, h⟩ := bind_eq_ok.mp h
      cases h
      exact Nat.lt_add_one 7
  | keyed opts proof now point =>
    obtain ⟨_, h⟩ := andThen_eq_ok.mp h
    cases h
  | findingRing pass ring rest =>
    obtain ⟨_, _, h⟩ := bind_eq_ok.mp h
    cases h
    simp only [Admission.rank]
    omega
  | listingMembers pass ring version rest =>
    obtain ⟨_, h⟩ := andThen_eq_ok.mp h
    cases h
    rw [Admission.rank_afterRing, Admission.rank]
    omega
  | readingUsage pass =>
    obtain ⟨_, h⟩ := andThen_eq_ok.mp h
    cases h

def Phase.Below (p : Phase C) (n : ℕ) : Prop := p ≠ .idle ∧ p.rank < n

theorem below_finished {n : ℕ} (hn : 0 < n) (outcome : Outcome) :
    (Phase.finished outcome : Phase C).Below n := ⟨nofun, hn⟩

theorem below_afterAdmission {P : Primitives} {anonRings : Bool} {clock : ℤ} {dir : Directory}
    (a : Admission C) : (afterAdmission (a.next P anonRings clock dir)).Below a.rank := by
  have hsix := a.six_lt_rank
  cases h : a.next P anonRings clock dir with
  | error rejection => exact below_finished (by omega) _
  | ok answer =>
    cases answer with
    | inl b => exact ⟨nofun, Admission.rank_next h⟩
    | inr t =>
      simp only [afterAdmission]
      split_ifs
      · exact ⟨nofun, hsix⟩
      · exact ⟨nofun, Nat.lt_of_succ_lt (Nat.lt_of_succ_lt hsix)⟩

theorem below_afterLink (t : Ticket) (head : Option (ℤ × String))
    (link : Except Failure (ℤ × String)) : (afterLink t head link : Phase C).Below 3 := by
  cases link with
  | error failure => exact below_finished (by decide) _
  | ok position => exact ⟨nofun, Nat.lt_add_one 2⟩

variable [DecidableEq ι] {S : Server} {i : ι} {random : String}

theorem phase_move (w : World C ι) (i : ι) (p : Phase C) : (w.move i p).phase i = p := by
  simp only [World.move, Function.update_self]

theorem below_claim (w : World C ι) (i : ι) (t : Ticket) : ((w.claim i t).phase i).Below 5 := by
  unfold World.claim
  split <;> rw [phase_move]
  · exact below_finished (by decide) _
  · exact ⟨nofun, Nat.lt_add_one 4⟩

theorem below_issue (w : World C ι) (i : ι) (t : Ticket) (draft : ActionReceipt) :
    ((w.issue S i t draft).phase i).Below 1 := by
  unfold World.issue
  split
  · rw [phase_move]
    exact below_finished Nat.one_pos _
  · split_ifs
    · rw [World.store, phase_move]
      exact below_finished Nat.one_pos _
    · rw [phase_move]
      exact below_finished Nat.one_pos _

theorem below_advance {w v : World C ι} (h : w.advance S i random = some v) :
    (v.phase i).Below (w.phase i).rank := by
  unfold World.advance at h
  split at h
  case h_1 | h_2 => cases h
  case h_3 a hp =>
    cases h
    rw [phase_move, hp]
    exact below_afterAdmission a
  case h_4 t hp =>
    cases h
    rw [phase_move, hp]
    exact ⟨nofun, Nat.lt_add_one 5⟩
  case h_5 t hp =>
    cases h
    rw [hp]
    exact below_claim w i t
  case h_6 t hp =>
    cases h
    rw [phase_move, hp]
    exact ⟨nofun, Nat.lt_add_one 3⟩
  case h_7 t head hp =>
    cases h
    rw [phase_move, hp]
    exact below_afterLink t head _
  case h_8 t head position hp =>
    cases h
    rw [phase_move, hp]
    exact ⟨nofun, Nat.lt_add_one 1⟩
  case h_9 t head position mandate hp =>
    cases h
    rw [hp]
    exact below_issue w i t _

def drive (S : Server) (i : ι) (random : String) : ℕ → World C ι → World C ι
  | 0, w => w
  | n + 1, w =>
    match w.advance S i random with
    | none => w
    | some v => drive S i random n v

theorem finished_of_advance_eq_none {w : World C ι} (hi : w.phase i ≠ .idle)
    (h : w.advance S i random = none) : ∃ outcome, w.phase i = .finished outcome := by
  unfold World.advance at h
  split at h
  case h_1 hp => exact absurd hp hi
  case h_2 outcome hp => exact ⟨outcome, hp⟩
  all_goals cases h

theorem finished_drive {n : ℕ} {w : World C ι} (hi : w.phase i ≠ .idle)
    (hn : (w.phase i).rank < n) :
    ∃ outcome, (drive S i random n w).phase i = .finished outcome := by
  induction n generalizing w with
  | zero => exact absurd hn (Nat.not_lt_zero _)
  | succ n ih =>
    unfold drive
    cases h : w.advance S i random with
    | none => exact finished_of_advance_eq_none hi h
    | some v =>
      obtain ⟨hv, hlt⟩ := below_advance h
      exact ih hv (lt_of_lt_of_le hlt (Nat.lt_succ_iff.mp hn))

def Phase.outcome : (p : Phase C) → (∃ outcome, p = .finished outcome) → Outcome
  | .finished outcome, _ => outcome
  | .idle, h | .admitting _, h | .sweeping _, h | .claiming _, h | .readingHead _, h
  | .loadingHead _ _, h | .readingMandate _ _ _, h | .issuing _ _ _ _, h => absurd h (by simp)

def validateAgentAction (S : Server) (opts : ValidateAgentActionOptions)
    (proof : AgentActionProof) (random : String) (w : World C Unit) : Outcome × World C Unit :=
  let arrived := w.move () (.admitting (.arrived (.identified opts proof)))
  have hbusy : arrived.phase () ≠ .idle ∧ (arrived.phase ()).rank < 11 := by
    rw [phase_move]
    exact ⟨nofun, Nat.lt_add_one 10⟩
  (((drive S () random 11 arrived).phase ()).outcome (finished_drive hbusy.1 hbusy.2),
    drive S () random 11 arrived)

end SauronId.Action
