import SauronId.Agent.Mandate
import SauronId.Lib.Hoare
import Mathlib.Logic.Relation

namespace SauronId.Agent

open SauronId.Action (Curve Rejection openCurve parsePointHex)
open SauronId.Action (actionAllowedByIntent)
open Lib Lib.Handler Lib.Run

variable {C : Curve} {H : Host C} {call : RegisterCall} {s t : Registry C}

/-! ### The other writers of the table of agents -/

def AgentRecord.revoke (a : AgentRecord) : AgentRecord := { a with revoked := 1 }

def AgentRecord.setChecksum (checksum : String) (a : AgentRecord) : AgentRecord :=
  { a with agentChecksum := checksum }

def dropRingMember (publicKeyHex : String) (s : Registry C) : Registry C :=
  match parsePointHex C publicKeyHex with
  | .error _ => s
  | .ok pt => { s with agentGroup := s.agentGroup.filter (fun p ↦ p ≠ pt) }

/-- `UPDATE agents SET revoked = 1 WHERE p`, and the removal of the agent from
the ring in memory. -/
def revokeWhere (p : AgentRecord → Bool) (message : String) (s : Registry C) :
    Except Rejection Unit × Registry C :=
  if s.agents.rows.any p then
    let agents := s.agents.updateWhere p .revoke (fun _ ↦ rfl)
    let pubkey := (agents.rows.find? p).map AgentRecord.publicKeyHex
    let s := { s with agents := agents }
    (.ok (), pubkey.elim s (fun hex ↦ dropRingMember hex s))
  else (.error ⟨404, message⟩, s)

structure RevokeCall where
  tenantId : String
  session : Option String
  agentId : String
  now : ℤ

def revokeAgent (H : Host C) (call : RevokeCall) (s : Registry C) :
    Except Rejection Unit × Registry C :=
  match call.session.bind (fun token ↦ verifyUserSession H call.now token call.tenantId) with
  | none => (.error ⟨401, "Valid x-sauron-session header required"⟩, s)
  | some humanKeyImage =>
    revokeWhere (fun a ↦ a.agentId = call.agentId ∧ a.humanKeyImage = humanKeyImage ∧
      a.tenantId = call.tenantId) "Agent not found or not owned by this user" s

def revokeAgentAdmin (scope agentId : String) (s : Registry C) :
    Except Rejection Unit × Registry C :=
  revokeWhere (fun a ↦ a.agentId = agentId ∧ (scope = "*" ∨ a.tenantId = scope))
    "Agent not found" s

/-- What happens to the registry. An agent that no parent delegates to is issued
under an id of its own. -/
inductive RegistryEvent
  | register (call : RegisterCall)
  | revoke (call : RevokeCall)
  | revokeAdmin (scope agentId : String)
  | setChecksum (agentId checksum : String)
  | issue (row : AgentRecord)

def nextRegistry (H : Host C) (s : Registry C) : RegistryEvent → Option (Registry C)
  | .register call => some (exec (registerAgent H call) s).2
  | .revoke call => some (revokeAgent H call s).2
  | .revokeAdmin scope agentId => some (revokeAgentAdmin scope agentId s).2
  | .setChecksum agentId checksum =>
    let agents := s.agents.updateWhere (fun a ↦ a.agentId = agentId) (.setChecksum checksum)
      (fun _ ↦ rfl)
    some { s with agents := agents }
  | .issue row =>
    if row.parentAgentId = none then
      (s.agents.insert row).map (fun agents ↦ { s with agents := agents })
    else none

/-! ### What a registration does to the agents, however it ends -/

def Stored (H : Host C) (call : RegisterCall) (s t : Registry C) : Prop :=
  t.agents = s.agents ∨ ∃ human checksum mandateHash pinned parent,
    parentOf H call human s.agents = .ok parent ∧
    s.agents.insert (newAgentRecord call human checksum mandateHash pinned parent) = some t.agents

variable {parent : Option String × ℤ}

theorem persist_stored {human checksum mandateHash : String} {pinned : Option String}
    {inputs : Option (String × String)} {u : Registry C}
    (hparent : parentOf H call human u.agents = .ok parent) (hu : u.agents = s.agents) :
    Stored H call s (persistAgent H inputs
      (newAgentRecord call human checksum mandateHash pinned parent) u).2 := by
  rcases persistAgent_agents_cases (H := H) (s := u) inputs
    (newAgentRecord call human checksum mandateHash pinned parent) with h | h
  · exact .inl (h.trans hu)
  · exact .inr ⟨human, checksum, mandateHash, pinned, parent, hu ▸ hparent, hu ▸ h⟩

theorem registerAgent_triple (H : Host C) (call : RegisterCall) (s : Registry C) :
    Triple (fun u ↦ u.agents = s.agents) (registerAgent H call) (fun _ ↦ Stored H call s)
      (fun _ ↦ Stored H call s) := by
  have hsame : ∀ (_ : Rejection) (u : Registry C), u.agents = s.agents → Stored H call s u :=
    fun _ _ ↦ .inl
  unfold registerAgent
  refine .result_bind hsame (fun human _ ↦ .query_bind hsame (fun mandateHash ↦ ?_))
  refine .service_bind hsame (fun u hu ↦ (limitRegistrations_agents H call human u).trans hu) ?_
  refine fun _ ↦ .query_bind hsame (fun nonce ↦ .result_bind hsame (fun checksum _ ↦ ?_))
  refine .result_bind hsame (fun _ _ ↦ .result_bind hsame (fun pinned _ ↦ ?_))
  refine .service_bind hsame (fun u hu ↦ (consumeChallenge_agents call u).trans hu) (fun _ ↦ ?_)
  refine .result_bind hsame (fun points _ ↦ .query_bind hsame (fun _ ↦ .query_bind hsame ?_))
  refine fun _ ↦ .read_bind hsame (fun parent ↦ ?_)
  refine .result_bind (fun e u hu ↦ hsame e u hu.1) (fun ajwt _ ↦ ?_)
  refine .bind (R := fun _ ↦ Stored H call s) ?_ (fun _ ↦ ?_)
  · exact .service (fun u _ hu _ ↦ persist_stored hu.2 hu.1)
      (fun u _ hu _ ↦ persist_stored hu.2 hu.1)
  · exact .service_bind (fun _ _ hu ↦ hu) (fun _ hu ↦ hu) (fun _ ↦ .pure (fun _ hu ↦ hu))

theorem registerAgent_stored (H : Host C) (call : RegisterCall) (s : Registry C) :
    Stored H call s (exec (registerAgent H call) s).2 :=
  (registerAgent_triple H call s).exec_snd rfl

variable {agents : Table AgentRecord.agentId}

theorem parentOf_eq_ok {human : String} (h : parentOf H call human agents = .ok parent) {p : String}
    (hp : parent.1 = some p) :
    p = call.payload.parentAgentId ∧ p ≠ "" ∧ ∃ a, agents.get p = some a ∧
      assertChildScopesSubsetOfParent H.reader a.intentJson call.payload.intentJson = .ok () := by
  unfold parentOf at h
  dsimp only at h
  split_ifs at h with hempty
  · cases h
    cases hp
  · obtain ⟨a, ha, h⟩ := bind_eq_ok.mp h
    obtain ⟨-, h⟩ := andThen_eq_ok.mp h
    obtain ⟨-, h⟩ := andThen_eq_ok.mp h
    obtain ⟨hscopes, h⟩ := andThen_eq_ok.mp h
    obtain ⟨-, h⟩ := andThen_eq_ok.mp h
    obtain rfl := Except.ok.inj h
    obtain rfl := Option.some.inj hp
    exact ⟨rfl, hempty, a, (Option.filter_eq_some_iff.mp (elim_eq_ok.mp ha)).1,
      mapError_eq_ok.mp hscopes⟩

/-! ### Chains of delegation -/

def IsParent (agents : Table AgentRecord.agentId) (a c : AgentRecord) : Prop :=
  a ∈ agents.rows ∧ c ∈ agents.rows ∧ c.parentAgentId = some a.agentId

def AgentRecord.intent (H : Host C) (a : AgentRecord) : Option Json := H.reader.intent a.intentJson

/-- Every delegated agent has its parent in the table, whose intent includes its
own. -/
def Bounded (H : Host C) (agents : Table AgentRecord.agentId) : Prop :=
  ∀ c ∈ agents.rows, ∀ p, c.parentAgentId = some p →
    ∃ a, agents.get p = some a ∧ Includes (a.intent H) (c.intent H)

def Roots (agents : Table AgentRecord.agentId) : Prop :=
  ∀ a ∈ agents.rows, a.parentAgentId = none

theorem Roots.bounded (h : Roots agents) :
    Bounded H agents := by
  intro c hc p hp
  rw [h c hc] at hp
  cases hp

namespace Bounded

variable {agents agents' : Table AgentRecord.agentId}

theorem updateWhere (h : Bounded H agents) {p : AgentRecord → Bool}
    {f : AgentRecord → AgentRecord} (hf : ∀ a, (f a).agentId = a.agentId)
    (hintent : ∀ a, (f a).intentJson = a.intentJson)
    (hparent : ∀ a, (f a).parentAgentId = a.parentAgentId) :
    Bounded H (agents.updateWhere p f hf) := by
  have hintent' : ∀ a, (if p a then f a else a).intent H = a.intent H := by
    intro a
    split_ifs
    · rw [AgentRecord.intent, hintent, AgentRecord.intent]
    · rfl
  intro c' hc' id hid'
  obtain ⟨c, hc, rfl⟩ := Table.mem_updateWhere.mp hc'
  have hid : c.parentAgentId = some id := by
    split_ifs at hid'
    · rwa [hparent] at hid'
    · exact hid'
  obtain ⟨a, ha, hincl⟩ := h c hc id hid
  refine ⟨if p a then f a else a, ?_, ?_⟩
  · rw [Table.get_updateWhere, ha, Option.map_some]
  · rwa [hintent', hintent']

theorem insert (h : Bounded H agents) {row : AgentRecord} (hrow : agents.insert row = some agents')
    (hparent : ∀ p, row.parentAgentId = some p →
      ∃ a, agents.get p = some a ∧ Includes (a.intent H) (row.intent H)) :
    Bounded H agents' := by
  obtain ⟨hfresh, hrows⟩ := Table.insert_eq_some.mp hrow
  have hkeep : ∀ p a, agents.get p = some a → agents'.get p = some a := by
    intro p a ha
    obtain ⟨hmem, hid⟩ := Table.get_eq_some.mp ha
    rw [Table.get_insert hrow, if_neg (fun he ↦ hfresh a hmem (hid.trans he)), ha]
  intro c hc p hp
  rw [hrows, List.mem_append, List.mem_singleton] at hc
  rcases hc with hc | rfl
  · obtain ⟨a, ha, hincl⟩ := h c hc p hp
    exact ⟨a, hkeep p a ha, hincl⟩
  · obtain ⟨a, ha, hincl⟩ := hparent p hp
    exact ⟨a, hkeep p a ha, hincl⟩

theorem includes (h : Bounded H agents) {a d : AgentRecord}
    (had : Relation.TransGen (IsParent agents) a d) : Includes (a.intent H) (d.intent H) := by
  have hparent : ∀ a c, IsParent agents a c → Includes (a.intent H) (c.intent H) := by
    rintro a c ⟨ha, hc, hid⟩
    obtain ⟨a', ha', hincl⟩ := h c hc _ hid
    rw [Table.get_eq_some.mpr ⟨ha, rfl⟩] at ha'
    exact Option.some.inj ha' ▸ hincl
  induction had with
  | single hac => exact hparent a _ hac
  | tail _ hcd ih => exact ih.trans (hparent _ _ hcd)

end Bounded

/-- A delegated registration names scopes the parent allows wherever the subset
test does not look. -/
def ScopesCovered (H : Host C) (s : Registry C) : RegistryEvent → Prop
  | .register call => ∀ a, s.agents.get call.payload.parentAgentId = some a →
      call.payload.parentAgentId ≠ "" → Covered H.reader a.intentJson call.payload.intentJson
  | _ => True

theorem Stored.bounded (h : Stored H call s t) (hs : Bounded H s.agents)
    (hok : ScopesCovered H s (.register call)) : Bounded H t.agents := by
  rcases h with h | ⟨human, checksum, mandateHash, pinned, parent, hparent, hinsert⟩
  · rwa [h]
  · refine hs.insert hinsert (fun p hp ↦ ?_)
    obtain ⟨rfl, hne, a, ha, hscopes⟩ := parentOf_eq_ok hparent hp
    exact ⟨a, ha, (includes_iff_covered hscopes).mpr (hok a ha hne)⟩

theorem dropRingMember_agents (hex : String) (s : Registry C) :
    (dropRingMember hex s).agents = s.agents := by
  unfold dropRingMember
  split
  · rfl
  · rfl

theorem revokeWhere_agents (p : AgentRecord → Bool) (message : String) (s : Registry C) :
    (revokeWhere p message s).2.agents = s.agents ∨
      (revokeWhere p message s).2.agents = s.agents.updateWhere p .revoke (fun _ ↦ rfl) := by
  unfold revokeWhere
  split_ifs
  · right
    generalize s.agents.updateWhere p .revoke (fun _ ↦ rfl) = agents
    cases h : (agents.rows.find? p).map AgentRecord.publicKeyHex with
    | none => simp only [h, Option.elim_none]
    | some hex => simp only [h, Option.elim_some, dropRingMember_agents]
  · exact .inl rfl

theorem Bounded.revokeWhere (hs : Bounded H s.agents) (p : AgentRecord → Bool) (message : String) :
    Bounded H (revokeWhere p message s).2.agents := by
  rcases revokeWhere_agents p message s with h | h
  · exact h ▸ hs
  · rw [h]
    exact hs.updateWhere (f := .revoke) (fun _ ↦ rfl) (fun _ ↦ rfl) (fun _ ↦ rfl)

theorem nextRegistry_bounded {e : RegistryEvent} (hs : Bounded H s.agents)
    (hok : ScopesCovered H s e) (h : nextRegistry H s e = some t) : Bounded H t.agents := by
  cases e with
  | register call =>
    obtain rfl := Option.some.inj h
    exact (registerAgent_stored H call s).bounded hs hok
  | revoke call =>
    obtain rfl := Option.some.inj h
    unfold revokeAgent
    split
    · exact hs
    · exact hs.revokeWhere _ _
  | revokeAdmin scope agentId =>
    obtain rfl := Option.some.inj h
    exact hs.revokeWhere _ _
  | setChecksum agentId checksum =>
    obtain rfl := Option.some.inj h
    exact hs.updateWhere (f := .setChecksum checksum) (fun _ ↦ rfl) (fun _ ↦ rfl) (fun _ ↦ rfl)
  | issue row =>
    simp only [nextRegistry] at h
    split_ifs at h with hroot
    obtain ⟨agents, hinsert, rfl⟩ := Option.map_eq_some_iff.mp h
    refine hs.insert hinsert (fun p hp ↦ ?_)
    rw [hroot] at hp
    cases hp

def readerIntent : String := "\x7b\"scope\":[\"read\"]\x7d"

def payerIntent : String := "\x7b\"scope\":[\"read\"],\"action\":\"payment_initiation\"\x7d"

def familyHost : Host openCurve :=
  { demoHost with
    reader.parseJson := fun text ↦
      if text = readerIntent then .ok (.obj [("scope", .arr [.str "read"])])
      else if text = payerIntent then
        .ok (.obj [("scope", .arr [.str "read"]), ("action", .str "payment_initiation")])
      else .error "expected value" }

def parentCall : RegisterCall :=
  { demoCall 3600 with payload := { demoRequest 3600 with intentJson := readerIntent } }

def childKey : String := String.ofList (List.replicate 64 'c')

def childCall (intentJson : String) : RegisterCall :=
  let request := { demoRequest 3600 with
    intentJson := intentJson
    parentAgentId := "agt_01"
    publicKeyHex := childKey
    ringKeyImageHex := childKey
    popPublicKeyB64u := "pip" }
  { demoCall 3600 with payload := request, random := "02" }

def family (intentJson : String) : List RegistryEvent :=
  [.register parentCall, .register (childCall intentJson)]

def familyRun (intentJson : String) : Option (Registry openCurve) :=
  run (nextRegistry familyHost) demoRegistry (family intentJson)

def generations (t : Registry openCurve) : Option (String × String × Option String) := do
  let parent ← t.agents.get "agt_01"
  let child ← t.agents.get "agt_02"
  return (parent.intentJson, child.intentJson, child.parentAgentId)

theorem familyRun_isParent {intentJson : String} (h : (familyRun intentJson).bind generations =
    some (readerIntent, intentJson, some "agt_01")) :
    ∃ t a c, familyRun intentJson = some t ∧ IsParent t.agents a c ∧
      a.intentJson = readerIntent ∧ c.intentJson = intentJson := by
  obtain ⟨t, ht, h⟩ := Option.bind_eq_some_iff.mp h
  obtain ⟨a, ha, h⟩ := Option.bind_eq_some_iff.mp h
  obtain ⟨c, hc, h⟩ := Option.bind_eq_some_iff.mp h
  obtain ⟨hai, hci, hid⟩ : a.intentJson = readerIntent ∧ c.intentJson = intentJson ∧
      c.parentAgentId = some "agt_01" := by simpa using h
  obtain ⟨ha, haid⟩ := Table.get_eq_some.mp ha
  exact ⟨t, a, c, ht, ⟨ha, (Table.get_eq_some.mp hc).1, haid ▸ hid⟩, hai, hci⟩

theorem familyRun_generations : ∀ intentJson ∈ [readerIntent, payerIntent],
    (familyRun intentJson).bind generations = some (readerIntent, intentJson, some "agt_01") := by
  decide +kernel

end SauronId.Agent
