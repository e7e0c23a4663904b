import SauronId.Spend.Ledger

namespace SauronId.Spend

open Lib Lib.Run

/-- What a tenant relies on after a sequence of records: the lifetime total is
the sum of its own records and of its own log rows, and no record of another
tenant has moved it. -/
structure TotalsExact (rs : List SpendRecord) (db : SpendDb) : Prop where
  recorded : ∀ tenantId policyId agentId,
    getSpendTotalTenant db tenantId policyId agentId 0 = recordedTotal rs tenantId policyId agentId
  logged : ∀ tenantId policyId agentId,
    getSpendTotalTenant db tenantId policyId agentId 0 = loggedTotal db tenantId policyId agentId
  isolated : ∀ before r after u v, rs = before ++ r :: after → run next .empty before = some u →
    next u r = some v → ∀ tenantId, tenantId ≠ r.tenantId → ∀ policyId agentId,
      getSpendTotalTenant v tenantId policyId agentId 0 =
        getSpendTotalTenant u tenantId policyId agentId 0

/-- Every record that moves a total comes from the tenant that was first to
record for that policy and agent. -/
def OwnersOnly (rs : List SpendRecord) : Prop :=
  ∀ r ∈ rs, r.amountUsd = 0 ∨ owner rs r.policyId r.agentId = some r.tenantId

variable {db : SpendDb} {r : SpendRecord} {rs : List SpendRecord}
  {tenantId policyId agentId : String}

theorem OwnersOnly.recordedTotal_eq (h : OwnersOnly rs) :
    recordedTotal rs tenantId policyId agentId =
      if owner rs policyId agentId = some tenantId then pairTotal rs policyId agentId else 0 := by
  split_ifs with howner
  · refine sumWhere_congr (fun r hr ↦ ?_)
    rcases h r hr with hzero | hr
    · exact .inr hzero
    · refine .inl (decide_eq_decide.mpr ⟨fun hp ↦ hp.2, fun hp ↦ ⟨?_, hp⟩⟩)
      rw [hp.1, hp.2, howner] at hr
      exact (Option.some.inj hr).symm
  · refine sumWhere_eq_zero (fun r hr hp ↦ ?_)
    obtain ⟨rfl, rfl, rfl⟩ := of_decide_eq_true hp
    exact (h r hr).resolve_right howner

theorem owner_append_left {l m : List SpendRecord} {t : String}
    (h : owner l policyId agentId = some t) : owner (l ++ m) policyId agentId = some t := by
  obtain ⟨r, hr, ht⟩ := Option.map_eq_some_iff.mp h
  rw [owner, List.find?_append, hr, Option.some_or, Option.map_some, ht]

theorem OwnersOnly.total_unmoved {before after : List SpendRecord}
    (h : OwnersOnly (before ++ r :: after)) (ht : tenantId ≠ r.tenantId) :
    (if owner (before ++ [r]) policyId agentId = some tenantId then
        pairTotal (before ++ [r]) policyId agentId else 0) =
      if owner before policyId agentId = some tenantId then pairTotal before policyId agentId
      else 0 := by
  rw [owner_concat, pairTotal_concat]
  by_cases hk : r.policyId = policyId ∧ r.agentId = agentId
  · obtain ⟨rfl, rfl⟩ := hk
    cases howner : owner before r.policyId r.agentId with
    | none => simp [Ne.symm ht]
    | some t =>
      have hfirst : owner (before ++ r :: after) r.policyId r.agentId = some t :=
        owner_append_left howner
      rcases h r (by simp) with hzero | hr
      · simp [hzero]
      · obtain rfl : t = r.tenantId := Option.some.inj (hfirst.symm.trans hr)
        simp [Ne.symm ht]
  · simp [hk]

theorem totals_exact_iff_owners_only (hrun : run next .empty rs = some db)
    (hpos : ∀ r ∈ rs, 0 ≤ r.amountUsd) : TotalsExact rs db ↔ OwnersOnly rs := by
  constructor
  · intro h r hr
    by_contra hcon
    obtain ⟨hne, howner⟩ := not_or.mp hcon
    have htotal := h.recorded r.tenantId r.policyId r.agentId
    rw [getSpendTotalTenant_of_run hrun, if_neg howner] at htotal
    have hle : r.amountUsd ≤ recordedTotal rs r.tenantId r.policyId r.agentId :=
      le_sumWhere hpos hr (by simp)
    exact hne (le_antisymm (htotal ▸ hle) (hpos r hr))
  · intro h
    have hrecorded : ∀ tenantId policyId agentId,
        getSpendTotalTenant db tenantId policyId agentId 0 =
          recordedTotal rs tenantId policyId agentId := fun t p a ↦ by
      rw [getSpendTotalTenant_of_run hrun, h.recordedTotal_eq]
    refine ⟨hrecorded, fun t p a ↦ ?_, fun before r after u v hrs hu hv t ht p a ↦ ?_⟩
    · rw [hrecorded, loggedTotal_of_run hrun]
    · have hrun' : run next .empty (before ++ [r]) = some v :=
        run_append.mpr ⟨u, hu, run_cons.mpr ⟨v, hv, rfl⟩⟩
      rw [getSpendTotalTenant_of_run hrun', getSpendTotalTenant_of_run hu]
      exact OwnersOnly.total_unmoved (hrs ▸ h) ht

def spend (tenantId policyId agentId : String) (amountUsd : ℚ) (random : String) : SpendRecord :=
  ⟨tenantId, policyId, agentId, none, amountUsd, "sdk_flush", 100, random⟩

def separateTenants : List SpendRecord :=
  [spend "acme" "p1" "a1" 10 "1", spend "globex" "p2" "a1" 5 "2", spend "acme" "p1" "a1" (5 / 2) "3"]

theorem totals_exact_separate_tenants :
    ∃ db, run next .empty separateTenants = some db ∧ TotalsExact separateTenants db := by
  have h : (run next .empty separateTenants).isSome = true := by decide +kernel
  obtain ⟨db, hdb⟩ := Option.isSome_iff_exists.mp h
  exact ⟨db, hdb, (totals_exact_iff_owners_only hdb (by decide +kernel)).mpr
    (by unfold OwnersOnly; decide +kernel)⟩

def sharedPair : List SpendRecord :=
  [spend "acme" "p1" "a1" 10 "1", spend "globex" "p1" "a1" 5 "2"]

theorem totals_mixed_shared_pair :
    ∃ db, run next .empty sharedPair = some db ∧ (∀ r ∈ sharedPair, 0 ≤ r.amountUsd) ∧
      getSpendTotalTenant db "acme" "p1" "a1" 0 = 15 ∧
      recordedTotal sharedPair "acme" "p1" "a1" = 10 ∧
      getSpendTotalTenant db "globex" "p1" "a1" 0 = 0 ∧
      recordedTotal sharedPair "globex" "p1" "a1" = 5 ∧ ¬ TotalsExact sharedPair db := by
  obtain ⟨db, hdb, hacme, hglobex⟩ : ∃ db, run next .empty sharedPair = some db ∧
      getSpendTotalTenant db "acme" "p1" "a1" 0 = 15 ∧
      getSpendTotalTenant db "globex" "p1" "a1" 0 = 0 := by decide +kernel
  have hfive : recordedTotal sharedPair "globex" "p1" "a1" = 5 := by decide +kernel
  refine ⟨db, hdb, by decide +kernel, hacme, by decide +kernel, hglobex, hfive, fun hexact ↦ ?_⟩
  have he := hexact.recorded "globex" "p1" "a1"
  rw [hglobex, hfive] at he
  exact absurd he (by decide +kernel)

end SauronId.Spend
