import SauronId.Policy.Store

namespace SauronId.Policy.Store

open Lib Lib.Run

variable {L : Engine} {D : Documents}

def remember (log : List (String × CompiledPolicy)) : Call L D → List (String × CompiledPolicy)
  | .upsert tenantId upload _ =>
    if (D.toYaml upload.policy).isOk then (tenantId, upload.compiled) :: log else log
  | .delete tenantId id => log.filter (fun e ↦ ¬ (e.1 = tenantId ∧ e.2.policyId = id))

def mostRecent (calls : List (Call L D)) (tenantId agent : String) : Option CompiledPolicy :=
  ((calls.foldl remember []).find? (fun e ↦ e.1 = tenantId ∧ e.2.agent = agent)).map Prod.snd

/-- A deletion takes away the only stored policy of its agent, and an upsert does
not give the id of a stored policy to another agent. -/
def SolePolicy (s : PolicyStore) : Call L D → Prop
  | .upsert tenantId upload _ =>
    ∀ c, s.index.byId (tenantId, upload.compiled.policyId) = some c →
      c.agent = upload.compiled.agent
  | .delete tenantId id =>
    ∀ c, s.index.byId (tenantId, id) = some c →
      ∀ id' c', s.index.byId (tenantId, id') = some c' → c'.agent = c.agent → id' = id

/-- How the two maps follow the log: each holds the first entry for its key, and
the entries under one id are of one agent. -/
structure Follows (s : PolicyStore) (log : List (String × CompiledPolicy)) : Prop where
  byId : ∀ t id, s.index.byId (t, id) =
    (log.find? (fun e ↦ e.1 = t ∧ e.2.policyId = id)).map Prod.snd
  byAgent : ∀ t a, s.index.byAgent (t, a) =
    (log.find? (fun e ↦ e.1 = t ∧ e.2.agent = a)).map (fun e ↦ e.2.policyId)
  agent : ∀ e ∈ log, ∀ c, s.index.byId (e.1, e.2.policyId) = some c → c.agent = e.2.agent

theorem find?_of_imp {α : Type} {p q : α → Bool} {l : List α} {a : α}
    (himp : ∀ x ∈ l, q x = true → p x = true) (h : l.find? p = some a) (ha : q a = true) :
    l.find? q = some a := by
  obtain ⟨-, as, bs, rfl, has⟩ := List.find?_eq_some_iff_append.mp h
  refine List.find?_eq_some_iff_append.mpr ⟨ha, as, bs, rfl, fun x hx ↦ ?_⟩
  have hp := has x hx
  cases hq : q x with
  | false => rfl
  | true => simp [himp x (by simp [hx]) hq] at hp

theorem find?_filter_of_imp {α : Type} {p q : α → Bool} {l : List α}
    (himp : ∀ x ∈ l, q x = true → p x = true) : (l.filter p).find? q = l.find? q := by
  rw [List.find?_filter]
  refine List.find?_congr (fun x hx ↦ ?_)
  cases hq : q x with
  | false => simp
  | true => simp [himp x hx hq]

variable {s s' : PolicyStore} {log : List (String × CompiledPolicy)}

theorem Follows.stored (h : Follows s log) {e : String × CompiledPolicy} (he : e ∈ log) :
    ∃ c, s.index.byId (e.1, e.2.policyId) = some c ∧ c.agent = e.2.agent := by
  cases hc : s.index.byId (e.1, e.2.policyId) with
  | none =>
    rw [h.byId, Option.map_eq_none_iff, List.find?_eq_none] at hc
    exact absurd (by simp) (hc e he)
  | some c => exact ⟨c, rfl, h.agent e he c hc⟩

theorem Follows.getByAgentTenant (h : Follows s log) (t a : String) :
    getByAgentTenant s t a = (log.find? (fun e ↦ e.1 = t ∧ e.2.agent = a)).map Prod.snd := by
  simp only [Store.getByAgentTenant, h.byAgent]
  cases hfind : log.find? (fun e ↦ decide (e.1 = t ∧ e.2.agent = a)) with
  | none => rfl
  | some e =>
    have he : e.1 = t ∧ e.2.agent = a := by simpa using List.find?_some hfind
    have hmem := List.mem_of_find?_eq_some hfind
    -- an entry under the id of `e` is of the same agent, so `e` is the first one
    have hfirst : log.find? (fun x ↦ decide (x.1 = t ∧ x.2.policyId = e.2.policyId)) = some e := by
      refine find?_of_imp (fun x hx hid ↦ ?_) hfind (by simp [he.1])
      simp only [decide_eq_true_eq] at hid ⊢
      obtain ⟨c, hc, hagent⟩ := h.stored hmem
      have hx' : c.agent = x.2.agent :=
        h.agent x hx c (by rw [hid.1, hid.2, ← he.1]; exact hc)
      exact ⟨hid.1, by rw [← hx', hagent, he.2]⟩
    change s.index.byId (t, e.2.policyId) = some e.2
    rw [h.byId, hfirst]
    rfl

theorem Follows.upsert (h : Follows s log) {t : String} {c : CompiledPolicy} {now : ℤ}
    (hindex : s'.index = s.index.file t c.policyId c now)
    (hsole : ∀ d, s.index.byId (t, c.policyId) = some d → d.agent = c.agent) :
    Follows s' ((t, c) :: log) where
  byId := by
    intro t' id
    rw [hindex, List.find?_cons]
    by_cases hkey : t = t' ∧ c.policyId = id
    · obtain ⟨rfl, rfl⟩ := hkey
      simp [file_byId_self]
    · have hne : (t', id) ≠ (t, c.policyId) :=
        fun he ↦ hkey ⟨(Prod.mk.inj he).1.symm, (Prod.mk.inj he).2.symm⟩
      rw [file_byId_of_ne hne, h.byId, decide_eq_false hkey]
  byAgent := by
    intro t' a
    rw [hindex, List.find?_cons]
    simp only [StoreIndex.file]
    by_cases hkey : t = t' ∧ c.agent = a
    · obtain ⟨rfl, rfl⟩ := hkey
      simp
    · have hne : (t', a) ≠ (t, c.agent) :=
        fun he ↦ hkey ⟨(Prod.mk.inj he).1.symm, (Prod.mk.inj he).2.symm⟩
      rw [Function.update_of_ne hne, h.byAgent, decide_eq_false hkey]
  agent := by
    intro e he d hd
    rw [hindex] at hd
    by_cases hkey : (e.1, e.2.policyId) = (t, c.policyId)
    · have hdc : c = d := by
        rw [hkey, file_byId_self] at hd
        exact Option.some.inj hd
      rcases List.mem_cons.mp he with rfl | he
      · rw [hdc]
      · obtain ⟨old, hold, hagent⟩ := h.stored he
        rw [← hdc, ← hagent]
        exact (hsole old (hkey ▸ hold)).symm
    · rw [file_byId_of_ne hkey] at hd
      rcases List.mem_cons.mp he with rfl | he
      · exact absurd rfl hkey
      · exact h.agent e he d hd

theorem Follows.delete (h : Follows s log) {t id : String}
    (hsole : ∀ c, s.index.byId (t, id) = some c →
      ∀ id' c', s.index.byId (t, id') = some c' → c'.agent = c.agent → id' = id) :
    Follows (deleteTenant s t id) (log.filter (fun e ↦ ¬ (e.1 = t ∧ e.2.policyId = id))) where
  byId := by
    intro t' id'
    by_cases hkey : (t', id') = (t, id)
    · obtain ⟨rfl, rfl⟩ := Prod.mk.inj hkey
      rw [deleteTenant_byId_self, eq_comm, Option.map_eq_none_iff, List.find?_eq_none]
      intro e he
      have hkept := (List.mem_filter.mp he).2
      simp only [decide_eq_true_eq] at hkept ⊢
      exact hkept
    · rw [deleteTenant_byId_of_ne hkey, h.byId, find?_filter_of_imp]
      intro e _ he
      simp only [decide_eq_true_eq] at he ⊢
      exact fun h ↦ hkey (by rw [← he.1, ← he.2, h.1, h.2])
  byAgent := by
    intro t' a
    simp only [deleteTenant]
    cases hstored : s.index.byId (t, id) with
    | none =>
      -- nothing of the log stands under this id
      rw [List.filter_eq_self.mpr]
      · exact h.byAgent t' a
      intro e he
      obtain ⟨c, hc, -⟩ := h.stored he
      simp only [decide_eq_true_eq]
      rintro ⟨rfl, rfl⟩
      rw [hstored] at hc
      cases hc
    | some d =>
      by_cases hkey : (t', a) = (t, d.agent)
      · obtain ⟨rfl, rfl⟩ := Prod.mk.inj hkey
        simp only [Function.update_self]
        rw [eq_comm, Option.map_eq_none_iff, List.find?_eq_none]
        intro e he
        obtain ⟨hmem, hkept⟩ := List.mem_filter.mp he
        simp only [decide_eq_true_eq] at hkept ⊢
        rintro ⟨rfl, hagent⟩
        obtain ⟨c, hc, hca⟩ := h.stored hmem
        exact hkept ⟨rfl, hsole d hstored _ c hc (hca.trans hagent)⟩
      · simp only [Function.update_of_ne hkey]
        rw [h.byAgent, find?_filter_of_imp]
        intro e he hmatch
        simp only [decide_eq_true_eq] at hmatch ⊢
        rintro ⟨rfl, rfl⟩
        have hagent := h.agent e he d hstored
        exact hkey (by rw [← hmatch.1, ← hmatch.2, hagent])
  agent := by
    intro e he c hc
    obtain ⟨hmem, hkept⟩ := List.mem_filter.mp he
    simp only [decide_eq_true_eq] at hkept
    have hkey : (e.1, e.2.policyId) ≠ (t, id) := fun hk ↦ hkept (Prod.mk.inj hk)
    rw [deleteTenant_byId_of_ne hkey] at hc
    exact h.agent e hmem c hc

theorem Follows.step (h : Follows s log) (e : Call L D) (hok : SolePolicy s e)
    (hn : next s e = some s') : Follows s' (remember log e) := by
  cases e with
  | delete t id =>
    obtain rfl := Option.some.inj hn
    exact h.delete hok
  | upsert t u now =>
    obtain rfl := Option.some.inj hn
    have hsaved := upsertTenant_isOk s now t u
    cases hup : upsertTenant D s now t u.compiled with
    | error e =>
      rw [hup] at hsaved
      rw [remember, if_neg (by rw [← hsaved]; simp)]
      exact h
    | ok s'' =>
      rw [remember, if_pos (hsaved.mp ⟨s'', hup⟩)]
      exact h.upsert (upsertTenant_eq_ok hup).1 hok

theorem Follows.along {calls : List (Call L D)} (h : Follows s log)
    (hok : Along next SolePolicy s calls)
    (hr : run next s calls = some s') : Follows s' (calls.foldl remember log) := by
  induction calls generalizing s log with
  | nil =>
    obtain rfl := Option.some.inj hr
    exact h
  | cons e calls ih =>
    obtain ⟨u, hu, hr⟩ := run_cons.mp hr
    exact ih (h.step e hok.1 hu) (hok.2 u hu) hr

theorem follows_new : Follows .new [] where
  byId := fun _ _ ↦ rfl
  byAgent := fun _ _ ↦ rfl
  agent := fun _ he ↦ absurd he List.not_mem_nil

/-- As long as an agent's policy is deleted only when it is the last one, looking
an agent up finds the most recent policy uploaded for it and not deleted since. -/
theorem getByAgentTenant_eq_mostRecent {calls : List (Call L D)}
    (hok : Along next SolePolicy .new calls) (hr : run next .new calls = some s)
    (t a : String) : getByAgentTenant s t a = mostRecent calls t a :=
  (follows_new.along hok hr).getByAgentTenant t a

def rehearsalEngine : Engine :=
  { plainEngine with
    hashPolicy := fun p ↦
      "pol_" ++ p.agent ++ (if p.binding.dryRun = some true then "_rehearsal" else "") }

def rehearsalPolicy : Policy := { tillPolicy with binding := { dryRun := some true } }

def tillAndRehearsal : Documents where
  fromYaml text :=
    if text = "till" then .ok tillPolicy
    else if text = "rehearsal" then .ok rehearsalPolicy
    else .error "invalid type"
  fromJson _ := .error "expected value"
  toYaml p := .ok (if p.binding.dryRun = some true then "rehearsal" else "till")
  readBack := by
    rintro p ⟨doc, hdoc | hdoc⟩ text ht
    · split_ifs at hdoc
      · obtain rfl : tillPolicy = p := Except.ok.inj hdoc
        obtain rfl : "till" = text := Except.ok.inj ht
        exact ⟨by decide, rfl⟩
      · obtain rfl : rehearsalPolicy = p := Except.ok.inj hdoc
        obtain rfl : "rehearsal" = text := Except.ok.inj ht
        exact ⟨by decide, rfl⟩
    · cases hdoc

def tillUploaded : Upload rehearsalEngine tillAndRehearsal where
  raw := "till"
  policy := tillPolicy
  compiled := .ofBinding rehearsalEngine tillPolicy
  parsed := bind_eq_ok.mpr ⟨tillPolicy, rfl, validated_eq_ok.mpr ⟨rfl, by decide +kernel⟩⟩
  compiles := compile_of_valid (validate_eq_ok.mp (by decide +kernel)) rfl

def rehearsalUploaded : Upload rehearsalEngine tillAndRehearsal where
  raw := "rehearsal"
  policy := rehearsalPolicy
  compiled := .ofBinding rehearsalEngine rehearsalPolicy
  parsed := bind_eq_ok.mpr ⟨rehearsalPolicy, rfl, validated_eq_ok.mpr ⟨rfl, by decide +kernel⟩⟩
  compiles := compile_of_valid (validate_eq_ok.mp (by decide +kernel)) rfl

def replaceCalls : List (Call rehearsalEngine tillAndRehearsal) :=
  [.upsert "acme" tillUploaded 1, .delete "acme" "pol_till", .upsert "acme" rehearsalUploaded 2]

theorem getByAgentTenant_replaced :
    ∃ s, run next .new replaceCalls = some s ∧
      getByAgentTenant s "acme" "till" = some rehearsalUploaded.compiled := by
  refine ⟨_, rfl, ?_⟩
  refine Eq.trans (b := mostRecent replaceCalls "acme" "till")
    (getByAgentTenant_eq_mostRecent ?_ rfl "acme" "till") ?_
  · refine ⟨?_, fun s hs ↦ ⟨?_, fun s' hs' ↦ ⟨?_, fun _ _ ↦ trivial⟩⟩⟩
    · simp [SolePolicy, PolicyStore.new, StoreIndex.empty]
    · obtain rfl := Option.some.inj hs
      intro c _ id' c' hc' _
      by_contra hne
      have hnone : (StoreIndex.empty.file "acme" "pol_till" tillUploaded.compiled 1).byId
          ("acme", id') = none := file_byId_of_ne (fun he ↦ hne (Prod.mk.inj he).2)
      cases hnone.symm.trans hc'
    · obtain rfl := Option.some.inj hs
      obtain rfl := Option.some.inj hs'
      rintro c ⟨⟩
  · rfl

/-- The older policy of an agent is deleted, and the newer one, still stored, is
no longer found for the agent. -/
theorem newer_policy_unreachable :
    ∃ s, run next .new [.upsert "acme" tillUploaded 1, .upsert "acme" rehearsalUploaded 2,
        .delete "acme" "pol_till"] = some s ∧
      getByAgentTenant s "acme" "till" = none ∧
      getByIdTenant s "acme" "pol_till_rehearsal" = some rehearsalUploaded.compiled ∧
      mostRecent [.upsert "acme" tillUploaded 1, .upsert "acme" rehearsalUploaded 2,
        .delete "acme" "pol_till"] "acme" "till" = some rehearsalUploaded.compiled := by
  exact ⟨_, rfl, rfl, rfl, rfl⟩

end SauronId.Policy.Store
