import SauronId.Action.Envelope

namespace SauronId.Agent

open SauronId.Action (actionAllowedByIntent scopeTexts)
open Lib Lib.Text

structure TextReader where
  parseJson : String → Except String Json
  debugStr : String → String

def TextReader.intent (R : TextReader) (text : String) : Option Json := (R.parseJson text).toOption

def stringItems (items : List Json) : List String := items.filterMap Json.asStr

def scopeArray (v : Json) : Option (List Json) := (v.get "scope").bind Json.asArray

def constraintScopeArray (v : Json) : Option (List Json) :=
  ((v.get "constraints").bind (fun c ↦ c.get "scope")).bind Json.asArray

def actionText (v : Json) : Option String := (v.get "action").bind Json.asStr

def scopesFromIntent (v : Json) : List String :=
  match scopeArray v with
  | some arr => stringItems arr
  | none =>
    match constraintScopeArray v with
    | some arr => stringItems arr
    | none =>
      match actionText v with
      | some s => if s ≠ "" then [s] else []
      | none => []

def scopesFromIntentJson (R : TextReader) (intentJson : String) : List String :=
  scopesFromIntent ((R.intent intentJson).getD .null)

def assertChildScopesSubsetOfParent (R : TextReader) (parentIntentJson childIntentJson : String) :
    Except String Unit := do
  let parent := scopesFromIntentJson R parentIntentJson
  ensure (parent ≠ []) "parent agent intent defines no delegable scopes (add scope[] or action)"
  let child := scopesFromIntentJson R childIntentJson
  ensure (child ≠ [])
    "child agent intent must declare scope[] (or action) for delegated registration"
  child.forM (fun s ↦
    ensure (s ∈ parent) ("delegation scope " ++ R.debugStr s ++ " not allowed by parent intent"))

/-! ### The scopes of the run-time check -/

def normalized (s : String) : String := toAsciiLowercase (trim s)

def runtimeScopes (v : Json) : List String :=
  ((stringItems ((scopeArray v).getD []) ++ stringItems ((constraintScopeArray v).getD []) ++
    (actionText v).toList).map normalized)

def unreadScopes (v : Json) : List String :=
  match scopeArray v, constraintScopeArray v with
  | some _, constraints =>
    (stringItems (constraints.getD []) ++ (actionText v).toList).map normalized
  | none, some _ => (actionText v).toList.map normalized
  | none, none => []

theorem scopeTexts_eq (scope : Option Json) :
    scopeTexts scope = (stringItems ((scope.bind Json.asArray).getD [])).map normalized := by
  rw [scopeTexts, stringItems, List.map_filterMap]
  rfl

variable {v : Json}

theorem actionAllowedByIntent_iff {action : String} :
    actionAllowedByIntent (some v) action = true ↔
      normalized action ≠ "" ∧ normalized action ∈ runtimeScopes v := by
  have hscopes : scopeTexts (v.get "scope") ++
      scopeTexts ((v.get "constraints").bind (fun c ↦ c.get "scope")) ++
      (((v.get "action").bind Json.asStr).map (fun s ↦ toAsciiLowercase (trim s))).toList =
      runtimeScopes v := by
    rw [scopeTexts_eq, scopeTexts_eq, runtimeScopes, List.map_append, List.map_append,
      ← Option.toList_map]
    rfl
  simp only [actionAllowedByIntent, hscopes]
  change (if normalized action = "" then false else (runtimeScopes v).contains (normalized action)) =
    true ↔ _
  split_ifs with h
  · simp [h]
  · simp [h]

variable {s : String}

theorem exists_normalized_of_mem (h : s ∈ runtimeScopes v) :
    ∃ r, normalized r = s := by
  obtain ⟨r, -, hr⟩ := List.mem_map.mp h
  exact ⟨r, hr⟩

theorem normalized_mem_runtimeScopes (h : s ∈ scopesFromIntent v) :
    normalized s ∈ runtimeScopes v := by
  refine List.mem_map_of_mem ?_
  unfold scopesFromIntent at h
  cases hs : scopeArray v with
  | some arr =>
    rw [hs] at h
    simp [h]
  | none =>
    cases hc : constraintScopeArray v with
    | some arr =>
      rw [hs, hc] at h
      simp [h]
    | none =>
      cases ha : actionText v with
      | none => simp [hs, hc, ha] at h
      | some a =>
        simp only [hs, hc, ha] at h
        split_ifs at h
        · simp [List.mem_singleton.mp h]
        · cases h

theorem mem_runtimeScopes_iff (hs : s ≠ "") :
    s ∈ runtimeScopes v ↔ (∃ r ∈ scopesFromIntent v, normalized r = s) ∨ s ∈ unreadScopes v := by
  have hblank : normalized "" = "" := by decide
  unfold runtimeScopes unreadScopes scopesFromIntent
  cases scopeArray v with
  | some arr => simp
  | none =>
    cases constraintScopeArray v with
    | some arr => simp [stringItems]
    | none =>
      cases actionText v with
      | none => simp [stringItems]
      | some a =>
        by_cases ha : a = ""
        · subst ha
          simp [stringItems, hblank, hs]
        · simp [stringItems, ha, eq_comm]

/-- The texts of the child that the subset test did not read are blank or among
the scopes of the parent. -/
def UnreadCovered (parent child : Json) : Prop :=
  ∀ s ∈ unreadScopes child, s = "" ∨ s ∈ runtimeScopes parent

/-- What the run-time check allows by the second intent it allows by the first. -/
def Includes (parent child : Option Json) : Prop :=
  ∀ action, actionAllowedByIntent child action = true → actionAllowedByIntent parent action = true

theorem Includes.trans {a b c : Option Json} (hab : Includes a b) (hbc : Includes b c) :
    Includes a c :=
  fun action h ↦ hab action (hbc action h)

theorem includes_iff {parent child : Json}
    (hsub : ∀ s ∈ scopesFromIntent child, s ∈ scopesFromIntent parent) :
    Includes (some parent) (some child) ↔ UnreadCovered parent child := by
  simp only [Includes, actionAllowedByIntent_iff]
  constructor
  · intro h s hs
    by_cases hblank : s = ""
    · exact .inl hblank
    · have hmem : s ∈ runtimeScopes child := (mem_runtimeScopes_iff hblank).mpr (.inr hs)
      obtain ⟨r, rfl⟩ := exists_normalized_of_mem hmem
      exact .inr (h r ⟨hblank, hmem⟩).2
  · rintro h action ⟨hne, hmem⟩
    refine ⟨hne, ?_⟩
    rcases (mem_runtimeScopes_iff hne).mp hmem with ⟨r, hr, hrs⟩ | hunread
    · exact hrs ▸ normalized_mem_runtimeScopes (hsub r hr)
    · exact (h _ hunread).resolve_left hne

variable {R : TextReader} {parent child : String}

theorem assertChildScopes_eq_ok :
    assertChildScopesSubsetOfParent R parent child = .ok () ↔
      scopesFromIntentJson R parent ≠ [] ∧ scopesFromIntentJson R child ≠ [] ∧
        ∀ s ∈ scopesFromIntentJson R child, s ∈ scopesFromIntentJson R parent := by
  simp only [assertChildScopesSubsetOfParent, andThen_eq_ok, ensure_eq_ok, forM_eq_ok]

theorem scopesFromIntent_null : scopesFromIntent .null = [] := rfl

theorem exists_intent_of_scopes (h : scopesFromIntentJson R parent ≠ []) :
    ∃ v, R.intent parent = some v := by
  cases hv : R.intent parent with
  | none =>
    rw [scopesFromIntentJson, hv] at h
    exact absurd scopesFromIntent_null h
  | some v => exact ⟨v, rfl⟩

def Covered (R : TextReader) (parent child : String) : Prop :=
  ∀ p, R.intent parent = some p → ∀ c, R.intent child = some c → UnreadCovered p c

theorem includes_iff_covered (h : assertChildScopesSubsetOfParent R parent child = .ok ()) :
    Includes (R.intent parent) (R.intent child) ↔ Covered R parent child := by
  obtain ⟨hp, hc, hsub⟩ := assertChildScopes_eq_ok.mp h
  obtain ⟨p, hp⟩ := exists_intent_of_scopes hp
  obtain ⟨c, hc⟩ := exists_intent_of_scopes hc
  simp only [scopesFromIntentJson, hp, hc, Option.getD_some] at hsub
  simp only [Covered, hp, hc, Option.some.injEq, forall_eq']
  exact includes_iff hsub

end SauronId.Agent
