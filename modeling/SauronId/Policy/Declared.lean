import SauronId.Policy.Enforcement

namespace SauronId.Policy

open Lib Lib.Text

/-! ### Data tags -/

def fromScope (scope : DataScope) : DataScope where
  allow := scope.allow.map toAsciiLowercase
  deny := scope.deny.map toAsciiLowercase

section Tags

variable {E : TextEngine} {Z : ZoneDb} {p : Policy} {scope : DataScope} {ctx : EvaluationContext}

theorem scopeCheck_eq_none : scopeCheck E scope ctx = none ↔
    ∀ raw, ctx.action.dataClassification = some raw →
      toAsciiLowercase raw ∉ (fromScope scope).deny ∧
        ((fromScope scope).allow = [] ∨ toAsciiLowercase raw ∈ (fromScope scope).allow) := by
  unfold scopeCheck
  cases ctx.action.dataClassification with
  | none => simp
  | some raw =>
    simp only [Option.bind_some, Option.or_eq_none_iff, objectIf_eq_none, Option.some.injEq,
      forall_eq', not_and_or, not_not]
    rfl

theorem mem_fromScope_allow {tag : String} :
    tag ∈ (fromScope scope).allow ↔ ∃ a ∈ scope.allow, toAsciiLowercase a = tag :=
  List.mem_map

theorem mem_fromScope_deny {tag : String} :
    tag ∈ (fromScope scope).deny ↔ ∃ d ∈ scope.deny, toAsciiLowercase d = tag :=
  List.mem_map

/-- The validator compares tags as they are written, the compiled check without their case. The
compiled lists are disjoint, and what is on the allow list passes, exactly if no tag of one list
differs from a tag of the other only in case. -/
theorem compiled_tags_disjoint_iff (hv : validate E Z p = .ok ())
    (hs : p.binding.dataScope = some scope) :
    ((∀ tag ∈ (fromScope scope).allow, tag ∉ (fromScope scope).deny) ∧
      ∀ ctx : EvaluationContext, ∀ raw, ctx.action.dataClassification = some raw →
        toAsciiLowercase raw ∈ (fromScope scope).allow → scopeCheck E scope ctx = none) ↔
    ∀ a ∈ scope.allow, ∀ d ∈ scope.deny, eqIgnoreAsciiCase a d = true → a = d := by
  constructor
  · rintro ⟨hdisjoint, -⟩ a ha d hd he
    have htag : toAsciiLowercase a = toAsciiLowercase d := of_decide_eq_true he
    refine absurd ?_ (hdisjoint _ (mem_fromScope_allow.mpr ⟨a, ha, rfl⟩))
    exact mem_fromScope_deny.mpr ⟨d, hd, htag.symm⟩
  · intro h
    have hdisjoint : ∀ tag ∈ (fromScope scope).allow, tag ∉ (fromScope scope).deny := by
      intro tag hallow hdeny
      obtain ⟨a, ha, rfl⟩ := mem_fromScope_allow.mp hallow
      obtain ⟨d, hd, hda⟩ := mem_fromScope_deny.mp hdeny
      obtain rfl := h a ha d hd (decide_eq_true hda.symm)
      exact (validate_eq_ok.mp hv).dataScope scope hs a ha hd
    refine ⟨hdisjoint, fun ctx raw hraw hallow ↦ scopeCheck_eq_none.mpr ?_⟩
    intro raw' hraw'
    obtain rfl := Option.some.inj (hraw.symm.trans hraw')
    exact ⟨hdisjoint _ hallow, .inr hallow⟩

end Tags

def taggedPolicy (allow deny : List String) : Policy where
  version := "1"
  agent := "clerk"
  binding := { dataScope := some ⟨allow, deny⟩ }
  invariants := []

def readRecord (tag : String) : EvaluationContext :=
  .withDefaults { actionId := "act_1", tool := "read", dataClassification := some tag, timestamp := 0 }

theorem compiled_tags_disjoint_public :
    validate plainEngine.text plainEngine.zones (taggedPolicy ["Public"] ["pii"]) = .ok () ∧
      scopeCheck plainEngine.text ⟨["Public"], ["pii"]⟩ (readRecord "PUBLIC") = none := by
  have hv : validate plainEngine.text plainEngine.zones (taggedPolicy ["Public"] ["pii"]) =
      .ok () := by
    decide +kernel
  exact ⟨hv, ((compiled_tags_disjoint_iff hv rfl).mpr (by decide +kernel)).2 _ "PUBLIC" rfl
    (by decide +kernel)⟩

/-- An accepted policy with one tag on both lists, which denies what it allows. -/
theorem accepted_with_common_tag :
    validate plainEngine.text plainEngine.zones (taggedPolicy ["PII"] ["pii"]) = .ok () ∧
      "pii" ∈ (fromScope ⟨["PII"], ["pii"]⟩).allow ∧
      "pii" ∈ (fromScope ⟨["PII"], ["pii"]⟩).deny ∧
      scopeCheck plainEngine.text ⟨["PII"], ["pii"]⟩ (readRecord "PII") =
        some "classification 'pii' is on deny list" := by
  decide +kernel

/-! ### Counts -/

structure JsonNumber where
  negative : Bool
  whole : ℕ
  fraction : Option (List (Fin 10))
  exponent : Option ℤ

namespace JsonNumber

def value (n : JsonNumber) : ℚ :=
  (if n.negative then -1 else 1) *
    (n.whole + ((n.fraction.getD []).foldr (fun d v ↦ (d + v) / 10) 0 : ℚ)) *
    10 ^ (n.exponent.getD 0)

def Plain (n : JsonNumber) : Prop := n.fraction = none ∧ n.exponent = none

instance (n : JsonNumber) : Decidable n.Plain := inferInstanceAs (Decidable (_ ∧ _))

/-- How `serde_json` reads a number: as an integer when it is written as one and fits `u64` or,
with a sign, `i64`, and otherwise as a floating-point number. `toF64` rounds, and fails when the
number is out of range. -/
def read (toF64 : ℚ → Option ℚ) (n : JsonNumber) : Option Json :=
  if n.Plain ∧ n.negative = false ∧ n.whole < 2 ^ 64 then some (.integer n.whole)
  else if n.Plain ∧ n.negative = true ∧ 0 < n.whole ∧ n.whole ≤ 2 ^ 63 then
    some (.integer (-n.whole))
  else (toF64 n.value).map .float

theorem value_of_plain {n : JsonNumber} (h : n.Plain) :
    n.value = (if n.negative then -1 else 1) * n.whole := by
  rw [value, h.1, h.2]
  simp

theorem asU64_read {toF64 : ℚ → Option ℚ} {n : JsonNumber} {v : Json}
    (h : n.read toF64 = some v) (hpos : 0 < n.value) :
    v.asU64 = if n.Plain ∧ n.whole < 2 ^ 64 then some n.whole else none := by
  unfold read at h
  split_ifs at h with hplain hsigned
  · obtain rfl := Option.some.inj h
    rw [if_pos ⟨hplain.1, hplain.2.2⟩]
    simp [Json.asU64]
  · -- a number with a sign is not above zero
    rw [value_of_plain hsigned.1, hsigned.2.1, if_pos rfl] at hpos
    have hle : (0 : ℚ) ≤ n.whole := Nat.cast_nonneg n.whole
    linarith
  · obtain ⟨q, -, rfl⟩ := Option.map_eq_some_iff.mp h
    have hother : ¬ (n.Plain ∧ n.whole < 2 ^ 64) := ?_
    · rw [if_neg hother]
      rfl
    rintro ⟨hp, hlt⟩
    cases hneg : n.negative with
    | false => exact hplain ⟨hp, hneg, hlt⟩
    | true =>
      rw [value_of_plain hp, hneg, if_pos rfl] at hpos
      have hle : (0 : ℚ) ≤ n.whole := Nat.cast_nonneg n.whole
      linarith

end JsonNumber

def countChecks : List (String × (ℕ → Objection)) :=
  [("payload_bytes", payloadSizeCheck), ("recipient_count", recipientCountCheck),
    ("chain_depth", chainDepthCheck)]

section Counts

variable {ctx : EvaluationContext} {cap : ℕ}

theorem declaredAtMost_isSome {field : String} {message : ℕ → String} :
    (declaredAtMost field message cap ctx).isSome ↔
      ∃ n, ctx.action.count field = some n ∧ cap < n := by
  unfold declaredAtMost
  cases ctx.action.count field with
  | none => simp
  | some n => simp [objectIf]

theorem chainDepthCheck_isSome :
    (chainDepthCheck cap ctx).isSome ↔
      ∃ n, ctx.action.count "chain_depth" = some n ∧ cap < n := by
  unfold chainDepthCheck
  cases ctx.action.count "chain_depth" with
  | none => simp [objectIf]
  | some n => simp [objectIf]

theorem countChecks_isSome {field : String} {check : ℕ → Objection}
    (hc : (field, check) ∈ countChecks) :
    (check cap ctx).isSome ↔ ∃ n, ctx.action.count field = some n ∧ cap < n := by
  simp only [countChecks, List.mem_cons, Prod.mk.injEq, List.not_mem_nil, or_false] at hc
  rcases hc with ⟨rfl, rfl⟩ | ⟨rfl, rfl⟩ | ⟨rfl, rfl⟩
  · exact declaredAtMost_isSome
  · exact declaredAtMost_isSome
  · exact chainDepthCheck_isSome

/-- A declared number above the cap is denied exactly if it is written as an integer and fits
`u64`. Any other spelling counts as no number at all. -/
theorem over_cap_denied_iff {field : String} {check : ℕ → Objection}
    (hc : (field, check) ∈ countChecks) {toF64 : ℚ → Option ℚ} {n : JsonNumber} {v : Json}
    (hread : n.read toF64 = some v) (hover : (cap : ℚ) < n.value)
    (hdeclared : ctx.action.metadata.lookup field = some v) :
    (check cap ctx).isSome ↔ n.Plain ∧ n.whole < 2 ^ 64 := by
  have hpos : 0 < n.value := lt_of_le_of_lt (Nat.cast_nonneg cap) hover
  rw [countChecks_isSome hc, Action.count, hdeclared, Option.bind_some,
    JsonNumber.asU64_read hread hpos]
  split_ifs with hplain
  · simp only [hplain, and_self, iff_true]
    refine ⟨n.whole, rfl, ?_⟩
    rw [JsonNumber.value_of_plain hplain.1] at hover
    cases hneg : n.negative with
    | false =>
      rw [hneg] at hover
      simpa using hover
    | true =>
      rw [hneg, if_pos rfl] at hover
      have hle : (0 : ℚ) ≤ cap := Nat.cast_nonneg cap
      have hwhole : (0 : ℚ) ≤ n.whole := Nat.cast_nonneg n.whole
      linarith
  · simp only [hplain, iff_false, not_exists, not_and]
    intro m hm
    cases hm

end Counts

def sendTo (count : Json) : EvaluationContext :=
  .withDefaults { actionId := "act_1", tool := "send", timestamp := 0
                  metadata := [("recipient_count", count)] }

theorem over_cap_denied_eleven : (recipientCountCheck 10 (sendTo (.integer 11))).isSome = true :=
  have hcheck : ("recipient_count", recipientCountCheck) ∈ countChecks := by simp [countChecks]
  have hread : (⟨false, 11, none, none⟩ : JsonNumber).read some = some (.integer 11) := rfl
  (over_cap_denied_iff hcheck hread (by decide +kernel) rfl).mpr ⟨⟨rfl, rfl⟩, by decide⟩

def million : JsonNumber := ⟨false, 1, none, some 6⟩

/-- Under a cap of ten, a million recipients written `1e6` pass. -/
theorem million_recipients_allowed :
    10 < million.value ∧ million.read some = some (.float million.value) ∧
      recipientCountCheck 10 (sendTo (.float million.value)) = none := by
  have hplain : ¬ million.Plain := by decide
  refine ⟨by norm_num [million, JsonNumber.value], ?_, rfl⟩
  simp [JsonNumber.read, hplain]

/-! ### Signatures -/

def identityFor (role sig : String) : Option String :=
  if (role ++ ":").toList <+: sig.toList ∧ role ++ ":" ≠ sig then
    some (String.ofList (sig.toList.drop (role ++ ":").toList.length))
  else none

def identities (signatures : List String) (role : String) : List String :=
  (signatures.filterMap (identityFor role)).dedup

/-- Those who signed for `role`: every identity, and one more if the bare role is there. -/
def signers (signatures : List String) (role : String) : ℕ :=
  (identities signatures role).length + if role ∈ signatures then 1 else 0

section Signatures

variable {role sig identity : String} {signatures signatures' : List String}

theorem identityFor_eq_some :
    identityFor role sig = some identity ↔ identity ≠ "" ∧ sig = role ++ ":" ++ identity := by
  constructor
  · intro h
    obtain ⟨⟨⟨rest, hrest⟩, hne⟩, h⟩ := Option.ite_none_right_eq_some.mp h
    rw [← hrest, List.drop_left] at h
    obtain rfl := Option.some.inj h
    have hsig : sig = role ++ ":" ++ String.ofList rest := by
      rw [← String.toList_inj, ← hrest]
      simp
    refine ⟨?_, hsig⟩
    rintro hempty
    rw [hempty, String.append_empty] at hsig
    exact hne hsig.symm
  · rintro ⟨hne, rfl⟩
    rw [identityFor, if_pos]
    · simp
    · refine ⟨⟨identity.toList, by simp⟩, ?_⟩
      intro h
      apply hne
      simpa using congrArg String.toList h

theorem signatureBearsRole_iff :
    signatureBearsRole sig role = true ↔
      sig = role ∨ ∃ identity, identityFor role sig = some identity := by
  simp only [identityFor_eq_some, signatureBearsRole, decide_eq_true_eq]
  refine or_congr_right ⟨?_, ?_⟩
  · rintro ⟨⟨rest, hrest⟩, hhead, hlength⟩
    rw [← hrest, List.drop_left] at hhead hlength
    obtain ⟨tail, rfl⟩ := List.head?_eq_some_iff.mp hhead
    refine ⟨String.ofList tail, ?_, ?_⟩
    · intro h
      obtain rfl : tail = [] := by simpa using h
      simp at hlength
    · rw [← String.toList_inj, ← hrest]
      simp
  · rintro ⟨identity, hne, rfl⟩
    have hpos : 0 < identity.toList.length := by
      rw [List.length_pos_iff]
      intro h
      exact hne (String.toList_inj.mp h)
    refine ⟨⟨':' :: identity.toList, by simp⟩, ?_⟩
    simpa using hpos

theorem identityFor_qualified (h : identity ≠ "") :
    identityFor role (role ++ ":" ++ identity) = some identity :=
  identityFor_eq_some.mpr ⟨h, rfl⟩

theorem mem_identities :
    identity ∈ identities signatures role ↔
      identity ≠ "" ∧ role ++ ":" ++ identity ∈ signatures := by
  simp only [identities, List.mem_dedup, List.mem_filterMap, identityFor_eq_some]
  constructor
  · rintro ⟨_, hmem, hne, rfl⟩
    exact ⟨hne, hmem⟩
  · rintro ⟨hne, hmem⟩
    exact ⟨_, hmem, hne, rfl⟩

theorem bearing_toFinset :
    (signatures.filter (fun s ↦ signatureBearsRole s role)).toFinset =
      (identities signatures role).toFinset.image (role ++ ":" ++ ·) ∪
        if role ∈ signatures then {role} else ∅ := by
  ext sig
  simp only [List.mem_toFinset, List.mem_filter, signatureBearsRole_iff, Finset.mem_union,
    Finset.mem_image, mem_identities]
  constructor
  · rintro ⟨hmem, rfl | ⟨identity, h⟩⟩
    · simp [hmem]
    · obtain ⟨hne, rfl⟩ := identityFor_eq_some.mp h
      exact .inl ⟨identity, ⟨hne, hmem⟩, rfl⟩
  · rintro (⟨identity, ⟨hne, hmem⟩, rfl⟩ | h)
    · exact ⟨hmem, .inr ⟨identity, identityFor_qualified hne⟩⟩
    · split_ifs at h with hmem
      · obtain rfl := Finset.mem_singleton.mp h
        exact ⟨hmem, .inl rfl⟩
      · cases h

theorem bearing_length :
    (signatures.filter (fun s ↦ signatureBearsRole s role)).dedup.length =
      signers signatures role := by
  have hinj : Function.Injective (role ++ ":" ++ · : String → String) := by
    intro i j h
    simpa [← String.toList_inj] using h
  have hdisjoint : Disjoint ((identities signatures role).toFinset.image (role ++ ":" ++ ·))
      (if role ∈ signatures then {role} else ∅) := by
    split_ifs
    · rw [Finset.disjoint_singleton_right]
      intro h
      obtain ⟨i, -, h⟩ := Finset.mem_image.mp h
      simp [← String.toList_inj] at h
    · exact Finset.disjoint_empty_right _
  have hidentities : (identities signatures role).toFinset.card =
      (identities signatures role).length :=
    List.toFinset_card_of_nodup (List.nodup_dedup _)
  rw [← List.card_toFinset, bearing_toFinset, Finset.card_union_of_disjoint hdisjoint,
    Finset.card_image_of_injective _ hinj, hidentities, signers]
  congr 1
  split_ifs <;> rfl

theorem distinctRoleSignatures_eq :
    distinctRoleSignatures signatures role = signers signatures role % 2 ^ 32 :=
  congrArg (· % 2 ^ 32) bearing_length

theorem signers_mono (h : signatures ⊆ signatures') :
    signers signatures role ≤ signers signatures' role := by
  rw [← bearing_length, ← bearing_length, ← List.card_toFinset, ← List.card_toFinset]
  apply Finset.card_le_card
  intro sig hsig
  rw [List.mem_toFinset, List.mem_filter] at hsig ⊢
  exact ⟨h hsig.1, hsig.2⟩

theorem signers_congr (h : ∀ sig, sig ∈ signatures ↔ sig ∈ signatures') :
    signers signatures role = signers signatures' role :=
  le_antisymm (signers_mono fun s ↦ (h s).mp) (signers_mono fun s ↦ (h s).mpr)

theorem signatureCheck_eq_none {requirements : List SignatureRequirement}
    {ctx : EvaluationContext} :
    signatureCheck requirements ctx = none ↔
      ∀ r ∈ requirements, r.threshold ≤ signers ctx.action.signatures r.role % 2 ^ 32 := by
  simp only [signatureCheck, List.findSome?_eq_none_iff, objectIf_eq_none, not_lt,
    distinctRoleSignatures_eq]

/-- M-of-N approvals count signers. The check passes only if each role has as many of them as it
needs. Its verdict depends on which entries there are, and while a role has fewer than `2 ^ 32`
signers more entries do no harm. -/
theorem signatureCheck_counts_signers (requirements : List SignatureRequirement)
    (ctx ctx' : EvaluationContext) :
    (signatureCheck requirements ctx = none →
      ∀ r ∈ requirements, r.threshold ≤ signers ctx.action.signatures r.role) ∧
    ((∀ sig, sig ∈ ctx.action.signatures ↔ sig ∈ ctx'.action.signatures) →
      signatureCheck requirements ctx = signatureCheck requirements ctx') ∧
    (ctx.action.signatures ⊆ ctx'.action.signatures →
      (∀ r ∈ requirements, signers ctx'.action.signatures r.role < 2 ^ 32) →
      signatureCheck requirements ctx = none → signatureCheck requirements ctx' = none) := by
  refine ⟨?_, ?_, ?_⟩
  · intro h r hr
    exact (signatureCheck_eq_none.mp h r hr).trans (Nat.mod_le _ _)
  · intro h
    simp only [signatureCheck, distinctRoleSignatures_eq, signers_congr h]
  · intro hsub hfew h
    rw [signatureCheck_eq_none] at h ⊢
    intro r hr
    rw [Nat.mod_eq_of_lt (hfew r hr)]
    exact ((h r hr).trans (Nat.mod_le _ _)).trans (signers_mono hsub)

end Signatures

def signedBy (signatures : List String) : EvaluationContext :=
  .withDefaults { actionId := "act_1", tool := "prescribe", timestamp := 0, signatures }

/-- The role alone counts beside the one identity, so one person meets two of two. -/
theorem bare_role_beside_identity_allowed :
    signatureCheck [⟨"clinician", 2⟩] (signedBy ["clinician", "clinician:alice"]) = none ∧
      identities ["clinician", "clinician:alice"] "clinician" = ["alice"] := by
  decide +kernel

end SauronId.Policy
