import SauronId.Agent.Delegation

namespace SauronId.Agent

open SauronId.Action (Curve Rejection openCurve parsePointHex)
open Lib Lib.Encoding Lib.Handler Lib.Run Lib.Text

variable {C : Curve} {H : Host C} {call : RegisterCall} {s t u : Registry C}

/-! ### The ring of a restarted server -/

def storedPoint (C : Curve) (publicKeyHex : String) : Option C.Point :=
  (hexDecode publicKeyHex).bind (fun raw ↦ if raw.length = 32 then C.decompress raw else none)

/-- `hexes_to_group`, on the agents that are not revoked. -/
def restoredGroup (C : Curve) (agents : Table AgentRecord.agentId) : List C.Point :=
  (agents.rows.filter (fun a ↦ a.revoked = 0)).filterMap (fun a ↦ storedPoint C a.publicKeyHex)

def restart (s : Registry C) : Registry C := { s with agentGroup := restoredGroup C s.agents }

/-- The ring in memory has the points that a restart would give it. -/
def Mirrors (s : Registry C) : Prop := ∀ pt, pt ∈ s.agentGroup ↔ pt ∈ (restart s).agentGroup

variable {pt : C.Point} {agents : Table AgentRecord.agentId}

theorem mem_restoredGroup :
    pt ∈ restoredGroup C agents ↔
      ∃ a ∈ agents.rows, a.revoked = 0 ∧ storedPoint C a.publicKeyHex = some pt := by
  simp only [restoredGroup, List.mem_filterMap, List.mem_filter, decide_eq_true_eq, and_assoc]

def InputsOwned (s : Registry C) : Prop :=
  ∀ i ∈ s.checksumInputs.rows, ∃ a ∈ s.agents.rows, a.agentId = i.agentId

/-! ### Registrations -/

def Same (s u : Registry C) : Prop :=
  u.agents = s.agents ∧ u.checksumInputs = s.checksumInputs ∧ u.agentGroup = s.agentGroup

structure Added (call : RegisterCall) (s t : Registry C) (row : AgentRecord) : Prop where
  live : row.revoked = 0
  key : row.publicKeyHex = call.payload.publicKeyHex
  agents : s.agents.insert row = some t.agents
  inputs : ∀ i ∈ t.checksumInputs.rows, i ∈ s.checksumInputs.rows ∨ i.agentId = row.agentId

def Joined (H : Host C) (call : RegisterCall) (s t : Registry C) : Prop :=
  Same s t ∨ ∃ row point, Added call s t row ∧ agentPoint H call.payload = .ok point ∧
    ∀ pt, pt ∈ t.agentGroup ↔ pt ∈ s.agentGroup ∨ pt = point

theorem persistAgent_cases (H : Host C) (call : RegisterCall) (hs : InputsOwned s)
    (hu : Same s u) (row : AgentRecord) (hlive : row.revoked = 0)
    (hkey : row.publicKeyHex = call.payload.publicKeyHex) (inputs : Option (String × String)) :
    (∃ e, (persistAgent H inputs row u).1 = .error e ∧ Same s (persistAgent H inputs row u).2) ∨
      (persistAgent H inputs row u).1 = .ok () ∧ Added call s (persistAgent H inputs row u).2 row ∧
        (persistAgent H inputs row u).2.agentGroup = s.agentGroup := by
  obtain ⟨hagents, hinputs, hgroup⟩ := hu
  unfold persistAgent
  cases hi : insertAgent u.agents row with
  | error e => exact .inl ⟨_, rfl, hagents, hinputs, hgroup⟩
  | ok agents =>
    have hinsert : s.agents.insert row = some agents := hagents ▸ insertAgent_eq_ok hi
    cases inputs with
    | none =>
      refine .inr ⟨rfl, ⟨hlive, hkey, hinsert, fun i hmem ↦ .inl ?_⟩, hgroup⟩
      exact hinputs ▸ hmem
    | some pair =>
      dsimp only
      split
      · rename_i hnone
        obtain ⟨i, hmem, hid⟩ := Table.insert_eq_none.mp hnone
        obtain ⟨a, ha, haid⟩ := hs i (hinputs ▸ hmem)
        exact absurd (haid.trans hid) ((Table.insert_eq_some.mp hinsert).1 a ha)
      · rename_i rows hrows
        refine .inr ⟨rfl, ⟨hlive, hkey, hinsert, fun i hmem ↦ ?_⟩, hgroup⟩
        rw [(Table.insert_eq_some.mp hrows).2, List.mem_append, List.mem_singleton] at hmem
        rcases hmem with hmem | rfl
        · exact .inl (hinputs ▸ hmem)
        · exact .inr rfl

theorem Same.limitRegistrations (h : Same s u) (human : String) :
    Same s (limitRegistrations H call human u).2 := h

theorem Same.consumeChallenge (h : Same s u) : Same s (consumeChallenge call u).2 := by
  unfold SauronId.Agent.consumeChallenge
  dsimp only
  split_ifs
  · exact h
  · exact h
  · exact h

theorem mem_joinRing {point pt : C.Point} :
    pt ∈ (joinRing point s).agentGroup ↔ pt ∈ s.agentGroup ∨ pt = point := by
  unfold joinRing
  dsimp only
  split_ifs with hmem
  · constructor
    · exact .inl
    · rintro (h | rfl)
      · exact h
      · exact hmem
  · rw [List.mem_append, List.mem_singleton]

theorem registerAgent_joined_triple (H : Host C) (call : RegisterCall) (hs : InputsOwned s) :
    Triple (Same s) (registerAgent H call) (fun _ ↦ Joined H call s) (fun _ ↦ Joined H call s) := by
  have hsame : ∀ (_ : Rejection) (u : Registry C), Same s u → Joined H call s u := fun _ _ ↦ .inl
  unfold registerAgent
  refine .result_bind hsame (fun human _ ↦ .query_bind hsame (fun mandateHash ↦ ?_))
  refine .service_bind hsame (fun u hu ↦ hu.limitRegistrations human) ?_
  refine fun _ ↦ .query_bind hsame (fun nonce ↦ .result_bind hsame (fun checksum _ ↦ ?_))
  refine .result_bind hsame (fun _ _ ↦ .result_bind hsame (fun pinned _ ↦ ?_))
  refine .service_bind hsame (fun u hu ↦ hu.consumeChallenge) (fun _ ↦ ?_)
  refine .result_bind hsame (fun points hpoints ↦ .query_bind hsame (fun _ ↦ ?_))
  refine .query_bind hsame (fun _ ↦ .query_bind hsame (fun parent ↦ .result_bind hsame ?_))
  intro ajwt _
  have hpoint : agentPoint H call.payload = .ok points.agent := by
    obtain ⟨agent, hagent, hrest⟩ := bind_eq_ok.mp hpoints
    obtain ⟨ringKeyImage, -, hpure⟩ := bind_eq_ok.mp hrest
    rw [hagent, ← Except.ok.inj hpure]
  have hpersist := fun u (hu : Same s u) ↦ persistAgent_cases H call hs hu
    (newAgentRecord call human checksum.value mandateHash pinned parent) rfl rfl checksum.inputs
  refine .bind (R := fun _ t ↦ ∃ row, Added call s t row ∧ t.agentGroup = s.agentGroup) ?_ ?_
  · refine .service (fun u _ hu hok ↦ ?_) (fun u e hu herr ↦ ?_)
    · rcases hpersist u hu with ⟨e, he, -⟩ | ⟨-, hadded, hgroup⟩
      · rw [he] at hok
        cases hok
      · exact ⟨_, hadded, hgroup⟩
    · rcases hpersist u hu with ⟨-, -, hunchanged⟩ | ⟨hok, -, -⟩
      · exact .inl hunchanged
      · rw [hok] at herr
        cases herr
  · intro _
    refine .bind (R := fun _ ↦ Joined H call s) ?_ (fun _ ↦ .pure (fun _ h ↦ h))
    refine .service (fun u _ hu _ ↦ ?_) (fun u e hu herr ↦ by cases herr)
    obtain ⟨row, hadded, hgroup⟩ := hu
    refine .inr ⟨row, points.agent, ⟨hadded.live, hadded.key, hadded.agents, hadded.inputs⟩, hpoint,
      fun pt ↦ ?_⟩
    rw [mem_joinRing, hgroup]

theorem registerAgent_joined (H : Host C) (call : RegisterCall) (hs : InputsOwned s) :
    Joined H call s (exec (registerAgent H call) s).2 :=
  (registerAgent_joined_triple H call hs).exec_snd ⟨rfl, rfl, rfl⟩

theorem storedPoint_of_agentPoint {p : RegisterAgentRequest} {point : C.Point}
    (h : agentPoint H p = .ok point) : storedPoint C p.publicKeyHex = some point := by
  unfold agentPoint ristrettoPoint at h
  obtain ⟨raw, hraw, h⟩ := bind_eq_ok.mp h
  obtain ⟨hlength, h⟩ := andThen_eq_ok.mp h
  obtain ⟨pt, hpt, h⟩ := bind_eq_ok.mp h
  obtain ⟨-, h⟩ := andThen_eq_ok.mp h
  obtain rfl : pt = point := Except.ok.inj h
  rw [storedPoint, elim_eq_ok.mp hraw, Option.bind_some, if_pos (ensure_eq_ok.mp hlength),
    elim_eq_ok.mp hpt]

theorem Joined.inputsOwned (h : Joined H call s t) (hs : InputsOwned s) : InputsOwned t := by
  rcases h with ⟨hagents, hinputs, -⟩ | ⟨row, point, hadded, -, -⟩
  · intro i hi
    rw [hinputs] at hi
    rw [hagents]
    exact hs i hi
  · have hrows := (Table.insert_eq_some.mp hadded.agents).2
    intro i hi
    rw [hrows]
    rcases hadded.inputs i hi with hi | hid
    · obtain ⟨a, ha, haid⟩ := hs i hi
      exact ⟨a, List.mem_append_left _ ha, haid⟩
    · exact ⟨row, List.mem_append_right _ (List.mem_singleton_self row), hid.symm⟩

theorem Joined.follows (h : Joined H call s t) (hs : Mirrors s) : Mirrors t := by
  rcases h with ⟨hagents, -, hgroup⟩ | ⟨row, point, hadded, hpoint, hgroup⟩
  · intro pt
    have hpt := hs pt
    rw [restart] at hpt ⊢
    rw [hgroup, hagents]
    exact hpt
  · have hrows := (Table.insert_eq_some.mp hadded.agents).2
    have hstored : storedPoint C row.publicKeyHex = some point :=
      hadded.key ▸ storedPoint_of_agentPoint hpoint
    intro pt
    rw [hgroup, hs pt, restart, restart, mem_restoredGroup, mem_restoredGroup, hrows]
    constructor
    · rintro (⟨a, ha, hlive, hpt⟩ | rfl)
      · exact ⟨a, List.mem_append_left _ ha, hlive, hpt⟩
      · exact ⟨row, List.mem_append_right _ (List.mem_singleton_self row), hadded.live, hstored⟩
    · rintro ⟨a, ha, hlive, hpt⟩
      rcases List.mem_append.mp ha with ha | ha
      · exact .inl ⟨a, ha, hlive, hpt⟩
      · obtain rfl := List.mem_singleton.mp ha
        exact .inr (Option.some.inj (hpt.symm.trans hstored))

/-! ### Revocations -/

theorem parsePointHex_of_storedPoint {hex : String} (h : storedPoint C hex = some pt) :
    parsePointHex C hex = .ok pt := by
  obtain ⟨raw, hraw, hpt⟩ := Option.bind_eq_some_iff.mp h
  rw [Option.ite_none_right_eq_some] at hpt
  rw [parsePointHex, trim_of_hexDecode hraw, hraw]
  simp only [hpt.1, hpt.2, ne_eq, not_true_eq_false, if_false]

theorem mem_dropRingMember {hex : String} :
    pt ∈ (dropRingMember hex s).agentGroup ↔
      pt ∈ s.agentGroup ∧ parsePointHex C hex ≠ .ok pt := by
  unfold dropRingMember
  cases hparse : parsePointHex C hex with
  | error e => simp
  | ok q =>
    simp only [List.mem_filter, decide_eq_true_eq, ne_eq, Except.ok.injEq]
    exact and_congr_right (fun _ ↦ not_congr eq_comm)

/-- The condition of a revocation: it asks for one id, and does not read whether the agent is
revoked. -/
structure Selects (p : AgentRecord → Bool) : Prop where
  one : ∀ a b, p a = true → p b = true → a.agentId = b.agentId
  revoked : ∀ a, p a.revoke = p a

variable {p : AgentRecord → Bool}

theorem revokeWhere_cases (hp : Selects p) (message : String) (s : Registry C) :
    ((∀ a ∈ s.agents.rows, p a = false) ∧ (revokeWhere p message s).2 = s) ∨
      ∃ a ∈ s.agents.rows, p a = true ∧ (revokeWhere p message s).2 =
        dropRingMember a.publicKeyHex
          { s with agents := s.agents.updateWhere p .revoke (fun _ ↦ rfl) } := by
  unfold revokeWhere
  split_ifs with hany
  · obtain ⟨a, ha, hpa⟩ := List.any_eq_true.mp hany
    refine .inr ⟨a, ha, hpa, ?_⟩
    have hmem : a.revoke ∈ (s.agents.updateWhere p .revoke (fun _ ↦ rfl)).rows :=
      Table.mem_updateWhere.mpr ⟨a, ha, if_pos hpa⟩
    have hfind : (s.agents.updateWhere p .revoke (fun _ ↦ rfl)).rows.find? p = some a.revoke := by
      cases hf : (s.agents.updateWhere p .revoke (fun _ ↦ rfl)).rows.find? p with
      | none => exact absurd ((hp.revoked a).trans hpa) (List.find?_eq_none.mp hf _ hmem)
      | some b =>
        have hb := List.find?_some hf
        exact congrArg some (Table.eq_of_key _ (List.mem_of_find?_eq_some hf) hmem
          (hp.one b a hb hpa))
    have hkey : a.revoke.publicKeyHex = a.publicKeyHex := rfl
    simp only [hfind, Option.map_some, Option.elim_some, hkey]
  · refine .inl ⟨fun a ha ↦ ?_, rfl⟩
    exact Bool.eq_false_iff.mpr (fun hpa ↦ hany (List.any_eq_true.mpr ⟨a, ha, hpa⟩))

theorem mem_restoredGroup_revoked :
    pt ∈ restoredGroup C (agents.updateWhere p .revoke (fun _ ↦ rfl)) ↔
      ∃ b ∈ agents.rows, p b = false ∧ b.revoked = 0 ∧ storedPoint C b.publicKeyHex = some pt := by
  rw [mem_restoredGroup]
  constructor
  · rintro ⟨a, ha, hlive, hpt⟩
    obtain ⟨b, hb, rfl⟩ := Table.mem_updateWhere.mp ha
    split_ifs at hlive hpt with hpb
    · cases hlive
    · exact ⟨b, hb, Bool.eq_false_iff.mpr hpb, hlive, hpt⟩
  · rintro ⟨b, hb, hpb, hlive, hpt⟩
    refine ⟨b, Table.mem_updateWhere.mpr ⟨b, hb, ?_⟩, hlive, hpt⟩
    rw [hpb, if_neg Bool.false_ne_true]

/-- No other agent that is not revoked has the point of the agents that are selected. -/
def Unshared (p : AgentRecord → Bool) (s : Registry C) : Prop :=
  ∀ a ∈ s.agents.rows, p a = true → ∀ pt, parsePointHex C a.publicKeyHex = .ok pt →
    ∀ b ∈ s.agents.rows, b.revoked = 0 → b.agentId ≠ a.agentId →
      storedPoint C b.publicKeyHex ≠ some pt

theorem revokeWhere_follows_iff (hp : Selects p) (message : String) (hs : Mirrors s) :
    Mirrors (revokeWhere p message s).2 ↔ Unshared p s := by
  rcases revokeWhere_cases hp message s with ⟨hnone, hsame⟩ | ⟨a, ha, hpa, hstate⟩
  · rw [hsame]
    refine iff_of_true hs (fun a ha hpa ↦ ?_)
    exact absurd hpa (Bool.eq_false_iff.mp (hnone a ha))
  · have hgroup : ∀ pt, pt ∈ s.agentGroup ↔
        ∃ b ∈ s.agents.rows, b.revoked = 0 ∧ storedPoint C b.publicKeyHex = some pt :=
      fun pt ↦ (hs pt).trans mem_restoredGroup
    have hfollows : Mirrors (revokeWhere p message s).2 ↔ ∀ pt,
        (pt ∈ s.agentGroup ∧ parsePointHex C a.publicKeyHex ≠ .ok pt) ↔
          ∃ b ∈ s.agents.rows, p b = false ∧ b.revoked = 0 ∧
            storedPoint C b.publicKeyHex = some pt := by
      unfold Mirrors restart
      simp only [hstate, mem_dropRingMember, dropRingMember_agents, mem_restoredGroup_revoked]
    rw [hfollows]
    constructor
    · intro h a' ha' hpa' pt hparse b hb hlive hid hpt
      obtain rfl := s.agents.eq_of_key ha' ha (hp.one a' a hpa' hpa)
      have hpb : p b = false := Bool.eq_false_iff.mpr (fun hpb ↦ hid (hp.one b a' hpb hpa))
      exact ((h pt).mpr ⟨b, hb, hpb, hlive, hpt⟩).2 hparse
    · intro halone pt
      rw [hgroup]
      constructor
      · rintro ⟨⟨b, hb, hlive, hpt⟩, hparse⟩
        refine ⟨b, hb, Bool.eq_false_iff.mpr (fun hpb ↦ hparse ?_), hlive, hpt⟩
        obtain rfl := s.agents.eq_of_key hb ha (hp.one b a hpb hpa)
        exact parsePointHex_of_storedPoint hpt
      · rintro ⟨b, hb, hpb, hlive, hpt⟩
        refine ⟨⟨b, hb, hlive, hpt⟩, fun hparse ↦ ?_⟩
        refine halone a ha hpa pt hparse b hb hlive (fun hid ↦ ?_) hpt
        obtain rfl := s.agents.eq_of_key hb ha hid
        exact absurd hpa (Bool.eq_false_iff.mp hpb)

/-! ### Runs -/

inductive RingEvent
  | register (call : RegisterCall)
  | revoke (call : RevokeCall)
  | revokeAdmin (scope agentId : String)

namespace RingEvent

def event : RingEvent → RegistryEvent
  | register call => .register call
  | revoke call => .revoke call
  | revokeAdmin scope agentId => .revokeAdmin scope agentId

def selection (H : Host C) : RingEvent → Option (AgentRecord → Bool)
  | register _ => none
  | revoke call =>
    (call.session.bind (fun token ↦ verifyUserSession H call.now token call.tenantId)).map
      (fun humanKeyImage a ↦ a.agentId = call.agentId ∧ a.humanKeyImage = humanKeyImage ∧
        a.tenantId = call.tenantId)
  | revokeAdmin scope agentId =>
    some (fun a ↦ a.agentId = agentId ∧ (scope = "*" ∨ a.tenantId = scope))

def Lone (H : Host C) (s : Registry C) (e : RingEvent) : Prop :=
  ∀ p, e.selection H = some p → Unshared p s

end RingEvent

def nextRing (H : Host C) (s : Registry C) (e : RingEvent) : Option (Registry C) :=
  nextRegistry H s e.event

variable {e : RingEvent}

theorem exists_nextRing (H : Host C) (s : Registry C) (e : RingEvent) :
    ∃ t, nextRing H s e = some t := by
  cases e <;> exact ⟨_, rfl⟩

theorem selects_selection (h : e.selection H = some p) : Selects p := by
  cases e with
  | register call => cases h
  | revoke call =>
    obtain ⟨human, -, rfl⟩ := Option.map_eq_some_iff.mp h
    refine ⟨fun a b ha hb ↦ ?_, fun _ ↦ rfl⟩
    exact (of_decide_eq_true ha).1.trans (of_decide_eq_true hb).1.symm
  | revokeAdmin scope agentId =>
    obtain rfl := Option.some.inj h
    refine ⟨fun a b ha hb ↦ ?_, fun _ ↦ rfl⟩
    exact (of_decide_eq_true ha).1.trans (of_decide_eq_true hb).1.symm

theorem nextRing_cases (h : nextRing H s e = some t) :
    (∃ call, e = .register call ∧ t = (exec (registerAgent H call) s).2) ∨
    (∃ p message, e.selection H = some p ∧ t = (revokeWhere p message s).2) ∨
    (e.selection H = none ∧ t = s) := by
  cases e with
  | register call => exact .inl ⟨call, rfl, (Option.some.inj h).symm⟩
  | revoke call =>
    obtain rfl := Option.some.inj h
    refine .inr ?_
    cases hsession :
      call.session.bind (fun token ↦ verifyUserSession H call.now token call.tenantId) with
    | none =>
      refine .inr ⟨?_, ?_⟩
      · rw [RingEvent.selection, hsession]
        rfl
      · rw [revokeAgent, hsession]
    | some human =>
      refine .inl ⟨fun a ↦ a.agentId = call.agentId ∧ a.humanKeyImage = human ∧
        a.tenantId = call.tenantId, "Agent not found or not owned by this user", ?_, ?_⟩
      · rw [RingEvent.selection, hsession]
        rfl
      · rw [revokeAgent, hsession]
  | revokeAdmin scope agentId => exact .inr (.inl ⟨_, _, rfl, (Option.some.inj h).symm⟩)

theorem revokeWhere_inputsOwned (message : String) (hs : InputsOwned s) :
    InputsOwned (revokeWhere p message s).2 := by
  have hinputs : (revokeWhere p message s).2.checksumInputs = s.checksumInputs := by
    unfold revokeWhere
    split_ifs
    · dsimp only
      cases (s.agents.updateWhere p .revoke (fun _ ↦ rfl)).rows.find? p with
      | none => rfl
      | some a =>
        unfold dropRingMember
        dsimp only [Option.map_some, Option.elim_some]
        split <;> rfl
    · rfl
  intro i hi
  rw [hinputs] at hi
  obtain ⟨a, ha, hid⟩ := hs i hi
  rcases revokeWhere_agents p message s with hagents | hagents
  · exact ⟨a, hagents ▸ ha, hid⟩
  · rw [hagents]
    refine ⟨_, Table.mem_updateWhere.mpr ⟨a, ha, rfl⟩, ?_⟩
    split_ifs
    · exact hid
    · exact hid

theorem nextRing_inputsOwned (hs : InputsOwned s) (h : nextRing H s e = some t) :
    InputsOwned t := by
  rcases nextRing_cases h with ⟨call, -, rfl⟩ | ⟨p, message, -, rfl⟩ | ⟨-, rfl⟩
  · exact (registerAgent_joined H call hs).inputsOwned hs
  · exact revokeWhere_inputsOwned message hs
  · exact hs

/-- After a step the ring follows the database exactly when the step was no revocation that takes
the point of another agent. -/
theorem nextRing_follows_iff (hinputs : InputsOwned s) (hs : Mirrors s)
    (h : nextRing H s e = some t) : Mirrors t ↔ e.Lone H s := by
  rcases nextRing_cases h with ⟨call, rfl, rfl⟩ | ⟨p, message, hp, rfl⟩ | ⟨hp, rfl⟩
  · refine iff_of_true ((registerAgent_joined H call hinputs).follows hs) (fun p hp ↦ ?_)
    cases hp
  · rw [revokeWhere_follows_iff (selects_selection hp) message hs]
    constructor
    · intro halone q hq
      obtain rfl := Option.some.inj (hp.symm.trans hq)
      exact halone
    · exact fun hlone ↦ hlone p hp
  · refine iff_of_true hs (fun p hp' ↦ ?_)
    rw [hp] at hp'
    cases hp'

/-- The ring of a server that starts on a database follows the database throughout a run exactly
when no revocation of the run takes the point that another agent still has. -/
theorem live_ring_follows_iff (H : Host C) (s : Registry C) (hs : InputsOwned s)
    (events : List RingEvent) :
    (∀ fs t, fs <+: events → run (nextRing H) (restart s) fs = some t → Mirrors t) ↔
      Along (nextRing H) (fun u e ↦ e.Lone H u) (restart s) events := by
  have hstart : InputsOwned (restart s) ∧ Mirrors (restart s) := ⟨hs, fun _ ↦ Iff.rfl⟩
  refine (along_iff_reached (I := fun u ↦ InputsOwned u ∧ Mirrors u) (fun _ hu ↦ hu.2)
    (exists_nextRing H) ?_ ?_ hstart).symm
  · intro u e v hu hv hlone
    exact ⟨nextRing_inputsOwned hu.1 hv, (nextRing_follows_iff hu.1 hu.2 hv).mpr hlone⟩
  · intro u e v hu hv hfollows
    exact (nextRing_follows_iff hu.1 hu.2 hv).mp hfollows

theorem live_ring_follows_registered :
    ∃ t, run (nextRing demoHost) (restart demoRegistry) [.register (demoCall 3600)] = some t ∧
      Mirrors t := by
  have hinputs : InputsOwned demoRegistry := fun i hi ↦ absurd hi List.not_mem_nil
  refine ⟨_, rfl, (live_ring_follows_iff demoHost demoRegistry hinputs
    [.register (demoCall 3600)]).mpr ?_ _ _ List.prefix_rfl rfl⟩
  refine ⟨fun p hp ↦ ?_, fun _ _ ↦ trivial⟩
  cases hp

def sharingAgent (agentId tenantId : String) : AgentRecord :=
  ⟨agentId, demoOwner, "sha256:00", "\x7b\x7d", "delegated_bank", demoKey, agentId, 10, 100, 0,
    none, 0, "", agentId, none, "", none, none, none, tenantId, "", ""⟩

def sharingRegistry : Registry openCurve :=
  { demoRegistry with
    agents := ⟨[sharingAgent "a" "acme", sharingAgent "b" "beta"], by decide⟩ }

theorem storedPoint_demoKey : storedPoint openCurve demoKey = some (List.replicate 32 187) := by
  have hdigits : List.replicate 64 'b' = (List.replicate 32 (187 : UInt8)).flatMap hexPair := by
    decide
  have hkey : demoKey = hexEncode (List.replicate 32 187) := congrArg String.ofList hdigits
  have hraw : hexDecode demoKey = some (List.replicate 32 187) :=
    (congrArg hexDecode hkey).trans (hexDecode_hexEncode _)
  exact Option.bind_eq_some_iff.mpr ⟨_, hraw, if_pos List.length_replicate⟩

/-- Two tenants may register one key: the first agent is none of the second tenant's. When the agent
of one of them is revoked, the ring loses the point of the other, and a restart brings it back. -/
theorem shared_key_dropped :
    (∀ field value, inUse ⟨[sharingAgent "a" "acme"], by decide⟩ "beta" field value = false) ∧
    ∃ t, run (nextRing demoHost) (restart sharingRegistry) [.revokeAdmin "acme" "a"] = some t ∧
      ¬ Mirrors t := by
  refine ⟨fun field value ↦ ?_, _, rfl, fun hfollows ↦ ?_⟩
  · simp [inUse, AgentRecord.active, sharingAgent]
  · have hinputs : InputsOwned (restart sharingRegistry) := fun i hi ↦ absurd hi List.not_mem_nil
    have hlone := (nextRing_follows_iff (H := demoHost) (e := .revokeAdmin "acme" "a") hinputs
      (fun _ ↦ Iff.rfl) rfl).mp hfollows
    exact hlone _ rfl (sharingAgent "a" "acme") List.mem_cons_self rfl _
      (parsePointHex_of_storedPoint storedPoint_demoKey) (sharingAgent "b" "beta")
      (List.mem_cons_of_mem _ List.mem_cons_self) rfl (by decide) storedPoint_demoKey

end SauronId.Agent
