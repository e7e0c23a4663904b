import SauronId.Egress.Gateway
import SauronId.Lib.Run
import SauronId.Lib.Voucher

namespace SauronId.Egress

open SauronId.Action (Rejection)
open CryptoProtocol Lib Lib.Run Lib.Text

structure IssuedFor (P : Primitives) (r : CapabilityRow) (u : Upstream) : Prop where
  token : sha256Hex P (trim u.capability) = r.tokenHash
  tenant : u.tenantId = r.tenantId
  agent : u.agentId = r.agentId
  method : u.method = r.method
  url : u.url = r.url
  body : sha256Hex P u.originalBody = r.bodyHash

/-- What the gateway ensures by itself: the capability was valid at the time that
the call read when it began. -/
def Covers (P : Primitives) (r : CapabilityRow) (u : Upstream) : Prop :=
  IssuedFor P r u ∧ u.now ≤ r.expiresAt

def Phase.AfterUpdate : Phase → Prop
  | .sending _ | .finished _ => True
  | _ => False

variable {ι : Type}

structure Backed (P : Primitives) (spent : List (ι × CapabilityRow)) (w : GatewayWorld ι) :
    Prop where
  redeemed : Redeemed (Covers P) w.issued (unusedRows w.capabilities) spent w.forwarded
  spenders : ∀ s ∈ spent, (w.phase s.1).AfterUpdate
  senders : ∀ u ∈ w.forwarded, ∃ r, w.phase u.1 = .finished r
  sending : ∀ i call, w.phase i = .sending call → ∃ r, (i, r) ∈ spent ∧ BoundTo P call r

section Rows

variable {P : Primitives} {call : ProxyCall} {t u : Capabilities} {r : CapabilityRow} {now : ℤ}

theorem unusedRows_cleanUp : (unusedRows (cleanUp now t)).Subperm (unusedRows t) :=
  (List.filter_sublist.filter _).subperm

theorem unusedRows_insert (h : t.insert r = some u) (hr : r.usedAt = none) :
    unusedRows u = unusedRows t ++ [r] := by
  rw [unusedRows, (Table.insert_eq_some.mp h).2, List.filter_append, unusedRows]
  simp [hr]

theorem unusedRows_consumeCapability :
    unusedRows (consumeCapability P call t).2 =
      (unusedRows t).filter (fun r ↦ !consumable P call r) := by
  simp only [unusedRows, consumeCapability]
  rw [Table.filter_updateWhere (fun r ↦ rfl), List.filter_filter]
  exact List.filter_congr (fun r _ ↦ Bool.and_comm _ _)

theorem exists_consumed (h : (consumeCapability P call t).1 = 1) :
    ∃ r, BoundTo P call r ∧
      (unusedRows t).Perm (r :: unusedRows (consumeCapability P call t).2) := by
  obtain ⟨r, hr⟩ := List.length_eq_one_iff.mp h
  have hmem : r ∈ t.rows.filter (consumable P call) := hr ▸ List.mem_singleton_self r
  have hc := (List.mem_filter.mp hmem).2
  refine ⟨r, of_decide_eq_true (Bool.and_eq_true_iff.mp hc).1, ?_⟩
  have hunused : ∀ s, consumable P call s = true → s.usedAt.isNone = true :=
    fun s hs ↦ (Bool.and_eq_true_iff.mp hs).2
  exact Table.perm_updateWhere (f := fun s : CapabilityRow ↦ { s with usedAt := some call.now })
    (q := fun s ↦ s.usedAt.isNone) (fun _ ↦ rfl) (fun _ ↦ rfl) hunused hr

end Rows

section Step

variable {G : Gateway} {P : Primitives} {spent : List (ι × CapabilityRow)} {w w' : GatewayWorld ι}
  {i : ι}

theorem Backed.tick (h : Backed P spent w) (now : ℤ) : Backed P spent { w with clock := now } :=
  ⟨h.redeemed, h.spenders, h.senders, h.sending⟩

def Phase.stage : Phase → Stage ProxyCall
  | .sending call => .holding call
  | .finished _ => .finished
  | _ => .before

variable {p : Phase}

theorem Phase.stage_eq_before : p.stage = .before ↔ ¬p.AfterUpdate := by
  cases p <;> simp [stage, AfterUpdate]

variable {call : ProxyCall}

theorem Phase.stage_eq_holding :
    p.stage = .holding call ↔ p = .sending call := by
  cases p <;> simp [stage]

theorem Phase.stage_eq_finished : p.stage = .finished ↔ ∃ r, p = .finished r := by
  cases p <;> simp [stage]

theorem backed_iff : Backed P spent w ↔
    Redeeming (BoundTo P) (Covers P) w.issued (unusedRows w.capabilities) spent w.forwarded
      (fun i ↦ (w.phase i).stage) := by
  constructor
  · intro h
    exact ⟨h.redeemed, fun s hs ↦ not_imp_not.mpr Phase.stage_eq_before.mp (not_not.mpr
      (h.spenders s hs)), fun u hu ↦ Phase.stage_eq_finished.mpr (h.senders u hu),
      fun i call hi ↦ h.sending i call (Phase.stage_eq_holding.mp hi)⟩
  · intro h
    exact ⟨h.redeemed, fun s hs ↦ not_not.mp (mt Phase.stage_eq_before.mpr (h.spenders s hs)),
      fun u hu ↦ Phase.stage_eq_finished.mp (h.users u hu),
      fun i call hi ↦ h.holding i call (Phase.stage_eq_holding.mpr hi)⟩

variable [DecidableEq ι]

variable {issued : List CapabilityRow}

theorem backed_move {x : Stage ProxyCall} {t : Capabilities} {forwarded : List (ι × Upstream)}
    (hp : p.stage = x)
    (h : Redeeming (BoundTo P) (Covers P) issued (unusedRows t) spent forwarded
      (Function.update (fun j ↦ (w.phase j).stage) i x)) :
    Backed P spent
      { w.move i p with capabilities := t, issued := issued, forwarded := forwarded } := by
  have hstage : (fun j ↦ ((w.move i p).phase j).stage) =
      Function.update (fun j ↦ (w.phase j).stage) i x := by
    funext j
    by_cases hj : j = i
    · subst hj
      simp [GatewayWorld.move, hp]
    · simp [GatewayWorld.move, hj]
  rw [← hstage] at h
  exact backed_iff.mpr h

theorem Backed.advance {t : Capabilities} (h : Backed P spent w) (hi : ¬(w.phase i).AfterUpdate)
    (hp : ∀ call, p ≠ .sending call)
    (hred : Redeemed (Covers P) issued (unusedRows t) spent w.forwarded) :
    Backed P spent { w.move i p with capabilities := t, issued := issued } := by
  have hbefore : (w.phase i).stage = .before := Phase.stage_eq_before.mpr hi
  have hrest := (backed_iff.mp h).rest (i := i) (x := p.stage) (fun _ ↦ hbefore)
    (fun call hc ↦ absurd (Phase.stage_eq_holding.mp hc) (hp call))
    (fun hf ↦ by cases hbefore.symm.trans hf)
  exact backed_move rfl ⟨hred, hrest.spenders, hrest.users, hrest.holding⟩

theorem Backed.move (h : Backed P spent w) (hi : ¬(w.phase i).AfterUpdate)
    (hp : ∀ call, p ≠ .sending call) : Backed P spent (w.move i p) :=
  h.advance hi hp h.redeemed

theorem ofResult_ne_sending {α : Type} {next : α → Phase} {r : Except Rejection α}
    (h : ∀ a call, next a ≠ .sending call) (call : ProxyCall) :
    Phase.ofResult next r ≠ .sending call := by
  cases r with
  | ok a => exact h a call
  | error e => exact Phase.noConfusion

variable {fault : Option String}

theorem Backed.deleteStep {grant : Grant} (h : Backed P spent w) (hi : ¬(w.phase i).AfterUpdate) :
    Backed P spent (deleteStep w i grant fault) := by
  cases fault with
  | some e => exact h.move hi (fun _ ↦ Phase.noConfusion)
  | none => exact h.advance hi (fun _ ↦ Phase.noConfusion) (h.redeemed.lose unusedRows_cleanUp)

theorem Backed.insertStep {grant : Grant} (h : Backed P spent w) (hi : ¬(w.phase i).AfterUpdate) :
    Backed P spent (insertStep w i grant fault) := by
  cases fault with
  | some e => exact h.move hi (fun _ ↦ Phase.noConfusion)
  | none =>
    unfold Egress.insertStep
    cases ht : w.capabilities.insert grant.row with
    | none => exact h.move hi (fun _ ↦ Phase.noConfusion)
    | some t =>
      refine h.advance hi (fun _ ↦ Phase.noConfusion) ?_
      rw [unusedRows_insert ht grant.unused]
      exact h.redeemed.issue grant.row

theorem Backed.consumeStep (h : Backed P spent w) (hi : ¬(w.phase i).AfterUpdate) :
    ∃ spent', Backed P spent' (consumeStep P w i call fault) := by
  cases fault with
  | some e => exact ⟨spent, h.move hi (fun _ ↦ Phase.noConfusion)⟩
  | none =>
    unfold Egress.consumeStep
    by_cases hone : (consumeCapability P call w.capabilities).1 = 1
    · obtain ⟨r, hbound, hperm⟩ := exists_consumed hone
      refine ⟨spent ++ [(i, r)], ?_⟩
      simp only [if_pos hone]
      exact backed_move rfl
        ((backed_iff.mp h).spend (Phase.stage_eq_before.mpr hi) hperm hbound)
    · refine ⟨spent, ?_⟩
      simp only [if_neg hone]
      refine h.advance hi (fun _ ↦ Phase.noConfusion) (h.redeemed.lose ?_)
      rw [unusedRows_consumeCapability]
      exact List.filter_sublist.subperm

variable {build : Option String}

omit [DecidableEq ι] in
theorem upstreamRequest_eq_ok {sentAt : ℤ} {u : Upstream}
    (h : upstreamRequest G call build sentAt = .ok u) :
    u.capability = call.req.capability ∧ u.tenantId = call.tenantId ∧ u.agentId = call.agentId ∧
      u.method = call.method ∧ u.url = call.req.url ∧ u.originalBody = call.originalBody ∧
      u.now = call.now ∧ u.sentAt = sentAt := by
  unfold upstreamRequest at h
  obtain ⟨-, h⟩ := andThen_eq_ok.mp h
  obtain ⟨-, h⟩ := andThen_eq_ok.mp h
  obtain ⟨headers, -, h⟩ := bind_eq_ok.mp h
  obtain rfl := Except.ok.inj h
  exact ⟨rfl, rfl, rfl, rfl, rfl, rfl, rfl, rfl⟩

theorem BoundTo.covers {sentAt : ℤ} {u : Upstream} {r : CapabilityRow}
    (hr : BoundTo G.primitives call r)
    (h : upstreamRequest G call build sentAt = .ok u) : Covers G.primitives r u := by
  obtain ⟨htoken, htenant, hagent, hmethod, hurl, hbody, hnow, -⟩ := upstreamRequest_eq_ok h
  refine ⟨⟨?_, ?_, ?_, ?_, ?_, ?_⟩, ?_⟩
  · rw [htoken, hr.token]
  · rw [htenant, hr.tenant]
  · rw [hagent, hr.agent]
  · rw [hmethod, hr.method]
  · rw [hurl, hr.url]
  · rw [hbody, hr.body]
  · exact hnow ▸ hr.expiry

theorem Backed.sendStep {reply : Except String UpstreamReply} (h : Backed G.primitives spent w)
    (hi : w.phase i = .sending call) :
    Backed G.primitives spent (sendStep G w i call build reply) := by
  have hstage : (w.phase i).stage = .holding call := Phase.stage_eq_holding.mpr hi
  unfold Egress.sendStep
  cases hu : upstreamRequest G call build w.clock with
  | error r =>
    exact backed_move rfl ((backed_iff.mp h).rest (fun he ↦ by cases he) (fun _ he ↦ by cases he)
      (fun _ ↦ rfl))
  | ok u => exact backed_move rfl ((backed_iff.mp h).use hstage (fun r hr ↦ hr.covers hu))

/-- What a step can do: set the clock, take a call that has spent nothing on
without forwarding, or end a call that has. -/
theorem nextGateway_cases {e : GatewayEvent ι} (hn : nextGateway G w e = some w') :
    (∃ now, w' = { w with clock := now }) ∨
    (∃ i, ¬(w.phase i).AfterUpdate ∧
      ((∃ p, (∀ call, p ≠ .sending call) ∧ w' = w.move i p) ∨
        (∃ grant fault, w' = deleteStep w i grant fault) ∨
        (∃ grant fault, w' = insertStep w i grant fault) ∨
        ∃ call fault, w' = consumeStep G.primitives w i call fault)) ∨
    ∃ i call build reply, e = .send i build reply ∧ w.phase i = .sending call ∧
      w' = sendStep G w i call build reply := by
  cases e with
  | tick now => exact .inl ⟨now, (Option.some.inj hn).symm⟩
  | issue i _ _ _ | authorize i _ _ | proxy i _ _ _ _ | resolve i _ =>
    simp only [nextGateway] at hn
    split at hn
    next hi =>
      exact .inr (.inl ⟨i, by rw [hi]; exact id, .inl
        ⟨_, ofResult_ne_sending (fun _ _ ↦ Phase.noConfusion), (Option.some.inj hn).symm⟩⟩)
    next => cases hn
  | delete i fault =>
    simp only [nextGateway] at hn
    split at hn
    next grant hi =>
      exact .inr (.inl ⟨i, by rw [hi]; exact id, .inr (.inl
        ⟨grant, fault, (Option.some.inj hn).symm⟩)⟩)
    next => cases hn
  | insert i fault =>
    simp only [nextGateway] at hn
    split at hn
    next grant hi =>
      exact .inr (.inl ⟨i, by rw [hi]; exact id, .inr (.inr (.inl
        ⟨grant, fault, (Option.some.inj hn).symm⟩))⟩)
    next => cases hn
  | consume i fault =>
    simp only [nextGateway] at hn
    split at hn
    next call hi =>
      exact .inr (.inl ⟨i, by rw [hi]; exact id, .inr (.inr (.inr
        ⟨call, fault, (Option.some.inj hn).symm⟩))⟩)
    next => cases hn
  | send i build reply =>
    simp only [nextGateway] at hn
    split at hn
    next call hi =>
      exact .inr (.inr ⟨i, call, build, reply, rfl, hi, (Option.some.inj hn).symm⟩)
    next => cases hn

theorem Backed.next {e : GatewayEvent ι} (h : Backed G.primitives spent w)
    (hn : nextGateway G w e = some w') : ∃ spent', Backed G.primitives spent' w' := by
  obtain ⟨now, rfl⟩ | ⟨i, hi, hcall⟩ | ⟨i, call, build, reply, -, hi, rfl⟩ := nextGateway_cases hn
  · exact ⟨spent, h.tick now⟩
  · obtain ⟨p, hp, rfl⟩ | ⟨grant, fault, rfl⟩ | ⟨grant, fault, rfl⟩ | ⟨call, fault, rfl⟩ := hcall
    · exact ⟨spent, h.move hi hp⟩
    · exact ⟨spent, h.deleteStep hi⟩
    · exact ⟨spent, h.insertStep hi⟩
    · exact h.consumeStep hi
  · exact ⟨spent, h.sendStep hi⟩

omit [DecidableEq ι] in
theorem Backed.init (clock : ℤ) (t : Capabilities) :
    Backed P [] (GatewayWorld.init clock t : GatewayWorld ι) where
  redeemed := Redeemed.start _
  spenders _ hs := absurd hs List.not_mem_nil
  senders _ hu := absurd hu List.not_mem_nil
  sending _ _ h := Phase.noConfusion h

end Step

section Run

variable [DecidableEq ι] {G : Gateway} {w w' : GatewayWorld ι} {clock : ℤ} {t : Capabilities}
  {es : List (GatewayEvent ι)}

/-- In every run, each forwarded request is charged to a capability of its own,
which was issued for it and valid when the call began. -/
theorem forwards_covered (h : run (nextGateway G) (.init clock t) es = some w) :
    ∃ rs, rs.Subperm w.issued ∧
      List.Forall₂ (fun u r ↦ Covers G.primitives r u) (w.forwarded.map Prod.snd) rs := by
  have hinv : ∃ spent, Backed G.primitives spent w :=
    run_invariant (I := fun w ↦ ∃ spent, Backed G.primitives spent w)
      (fun _ _ _ ⟨_, hb⟩ _ hn ↦ hb.next hn) ⟨[], Backed.init clock t⟩ (along_true _ _) h
  obtain ⟨spent, hb⟩ := hinv
  exact hb.redeemed.exists_subperm

/-- When a request is sent, the clock has not passed the second that its call
read when it began. -/
def Prompt (w : GatewayWorld ι) : GatewayEvent ι → Prop
  | .send i _ _ =>
    match w.phase i with
    | .sending call => w.clock ≤ call.now
    | _ => True
  | _ => True

instance (w : GatewayWorld ι) (e : GatewayEvent ι) : Decidable (Prompt w e) := by
  unfold Prompt
  split
  · split <;> infer_instance
  · infer_instance

theorem sentAt_le_now_next {e : GatewayEvent ι} (h : ∀ u ∈ w.forwarded, u.2.sentAt ≤ u.2.now)
    (hok : Prompt w e) (hn : nextGateway G w e = some w') :
    ∀ u ∈ w'.forwarded, u.2.sentAt ≤ u.2.now := by
  obtain ⟨now, rfl⟩ | ⟨i, hi, hcall⟩ | ⟨i, call, build, reply, rfl, hi, rfl⟩ := nextGateway_cases hn
  · exact h
  · have hsame : w'.forwarded = w.forwarded := by
      obtain ⟨p, -, rfl⟩ | ⟨grant, fault, rfl⟩ | ⟨grant, fault, rfl⟩ | ⟨call, fault, rfl⟩ := hcall
      · rfl
      · cases fault <;> rfl
      · cases fault with
        | some e => rfl
        | none =>
          unfold insertStep
          cases w.capabilities.insert grant.row <;> rfl
      · cases fault <;> rfl
    rw [hsame]
    exact h
  · simp only [Prompt, hi] at hok
    unfold sendStep
    cases hu : upstreamRequest G call build w.clock with
    | error r => exact h
    | ok u =>
      intro v hv
      rcases List.mem_append.mp hv with hv | hv
      · exact h v hv
      · obtain rfl := List.mem_singleton.mp hv
        obtain ⟨-, -, -, -, -, -, hnow, hsent⟩ := upstreamRequest_eq_ok hu
        rw [hnow, hsent]
        exact hok

theorem forwards_within_capabilities (hok : Along (nextGateway G) Prompt (.init clock t) es)
    (h : run (nextGateway G) (.init clock t) es = some w) :
    ∃ rs, rs.Subperm w.issued ∧
      List.Forall₂ (fun u r ↦ IssuedFor G.primitives r u ∧ u.sentAt ≤ r.expiresAt)
        (w.forwarded.map Prod.snd) rs := by
  have hprompt : ∀ u ∈ w.forwarded, u.2.sentAt ≤ u.2.now :=
    run_invariant (I := fun w ↦ ∀ u ∈ w.forwarded, u.2.sentAt ≤ u.2.now)
      (fun _ _ _ hs he hn ↦ sentAt_le_now_next hs he hn)
      (fun _ hu ↦ absurd hu List.not_mem_nil) hok h
  obtain ⟨rs, hsub, hall⟩ := forwards_covered h
  have hboth := (List.forall₂_and_left (p := fun u : Upstream ↦ u.sentAt ≤ u.now) _ _).mpr
    ⟨List.forall_mem_map.mpr hprompt, hall⟩
  refine ⟨rs, hsub, hboth.imp ?_⟩
  intro u r hur
  exact ⟨hur.2.1, hur.1.trans hur.2.2⟩

def openGateway : Gateway where
  enabled := true
  development := true
  respBytesSetting := none
  redactEnabled := false
  primitives := measuringPrimitives
  isMethod m := m ≠ ""
  parseUrl _ := .ok ⟨"https", "", none, some "api.example", some 443, "/", none, none⟩
  parseJson _ := none
  toUppercase := toAsciiUppercase
  fromUtf8Lossy _ := ""
  redactPii body := (body, [])
  egressCredential _ := none

def oneForward (resolved : ℤ) : List (GatewayEvent ℕ) :=
  [GatewayEvent.issue 0 "default" "a1" ⟨"a1", " get", "https://api.example/",
      String.ofList (List.replicate 64 '0'), 10⟩,
    .authorize 0 ⟨some (.obj [("agent_id", .str "a1"), ("sub", .str "h"), ("jti", .str "j"),
      ("exp", .integer 900), ("intent", .null)]), true, .ok "r1"⟩ "0",
    .delete 0 none,
    .insert 0 none,
    .tick 9,
    .proxy 1 "default" "a1" ⟨"egc_0", "get", "https://api.example/", [], none⟩
      (.ok (.obj [("egress_allowlist", .arr [.str "api.example"])])),
    .tick resolved,
    .resolve 1 (.ok ()),
    .consume 1 none,
    .send 1 none (.error "connection refused")]

theorem forwards_within_capabilities_oneForward :
    Along (nextGateway openGateway) Prompt (.init 5 Table.empty) (oneForward 9) ∧
      ∃ w, run (nextGateway openGateway) (.init 5 Table.empty) (oneForward 9) = some w ∧
        w.forwarded.length = 1 ∧ ∃ rs, rs.Subperm w.issued ∧
          List.Forall₂ (fun u r ↦ IssuedFor openGateway.primitives r u ∧ u.sentAt ≤ r.expiresAt)
            (w.forwarded.map Prod.snd) rs := by
  obtain ⟨hok, hrun⟩ :
      Along (nextGateway openGateway) Prompt (.init 5 Table.empty) (oneForward 9) ∧
      (run (nextGateway openGateway) (.init 5 Table.empty) (oneForward 9)).map
        (fun w ↦ w.forwarded.length) = some 1 := by
    decide +kernel
  obtain ⟨w, hw, hlen⟩ := Option.map_eq_some_iff.mp hrun
  exact ⟨hok, w, hw, hlen, forwards_within_capabilities hok hw⟩

/-- The name of the target takes five seconds to resolve, and the request is sent
four seconds after its capability expired. -/
theorem forwarded_after_expiry :
    ∃ w, run (nextGateway openGateway) (.init 5 Table.empty) (oneForward 14) = some w ∧
      ¬∃ rs, rs.Subperm w.issued ∧
        List.Forall₂ (fun u r ↦ IssuedFor openGateway.primitives r u ∧ u.sentAt ≤ r.expiresAt)
          (w.forwarded.map Prod.snd) rs := by
  have hrun : (run (nextGateway openGateway) (.init 5 Table.empty) (oneForward 14)).map
      (fun w ↦ ((w.forwarded.map Prod.snd).map Upstream.sentAt,
        w.issued.map CapabilityRow.expiresAt)) = some ([14], [10]) := by
    decide +kernel
  obtain ⟨w, hw, htimes⟩ := Option.map_eq_some_iff.mp hrun
  obtain ⟨hsent, hexpires⟩ := Prod.mk.inj htimes
  refine ⟨w, hw, ?_⟩
  rintro ⟨rs, hsub, hall⟩
  obtain ⟨u, hu, hsentAt⟩ := List.map_eq_singleton_iff.mp hsent
  rw [hu] at hall
  obtain ⟨r, rest, ⟨-, hle⟩, -, rfl⟩ := List.forall₂_cons_left_iff.mp hall
  have hr : r.expiresAt ∈ w.issued.map CapabilityRow.expiresAt :=
    List.mem_map_of_mem (hsub.subset List.mem_cons_self)
  rw [hexpires, List.mem_singleton] at hr
  omega

end Run

end SauronId.Egress
