import SauronId.Egress.Policy

namespace SauronId.Egress

open Lib Lib.Text

def hostOf (entry : Json) : String := ((entry.get "host").bind Json.asStr).getD ""

def methodsOf (entry : Json) : List String :=
  (((entry.get "methods").bind Json.asArray).getD []).filterMap Json.asStr

def pathPrefixOf (entry : Json) : String := ((entry.get "path_prefix").bind Json.asStr).getD ""

/-- A path is the given one, up to slashes at its end, or continues it with a
further segment. -/
def AtOrBelow (p path : String) : Prop :=
  path = p ∨ path = trimEndSlashes p ∨ startsWith (trimEndSlashes p ++ "/") path = true

def Lists (entry : Json) (host method path : String) : Prop :=
  eqIgnoreAsciiCase (hostOf entry) host = true ∧
    (∃ m ∈ methodsOf entry, eqIgnoreAsciiCase m method = true) ∧
      AtOrBelow (pathPrefixOf entry) path

theorem startsWith_iff {s t : String} : startsWith s t = true ↔ s.toList <+: t.toList :=
  decide_eq_true_iff

theorem trimEndSlashes_append (s : String) :
    ∃ n, s = trimEndSlashes s ++ String.ofList (List.replicate n '/') := by
  refine ⟨(s.toList.reverse.takeWhile (fun c ↦ c = '/')).length, ?_⟩
  have hslashes : s.toList.reverse.takeWhile (fun c ↦ c = '/') =
      List.replicate (s.toList.reverse.takeWhile (fun c ↦ c = '/')).length '/' := by
    refine List.eq_replicate_length.mpr (fun c hc ↦ ?_)
    simpa using List.mem_takeWhile_imp hc
  have hsplit := congrArg List.reverse
    (List.takeWhile_append_dropWhile (p := fun c ↦ c = '/') (l := s.toList.reverse))
  rw [List.reverse_append, List.reverse_reverse] at hsplit
  apply String.toList_inj.mp
  rw [String.toList_append, trimEndSlashes, String.toList_ofList, String.toList_ofList]
  conv_lhs => rw [← hsplit]
  rw [hslashes, List.reverse_replicate, List.length_replicate]

theorem atOrBelow_iff {p path : String} : AtOrBelow p path ↔
    path = trimEndSlashes p ∨ startsWith (trimEndSlashes p ++ "/") path = true := by
  refine ⟨?_, fun h ↦ .inr h⟩
  rintro (rfl | h)
  · obtain ⟨n, hn⟩ := trimEndSlashes_append path
    cases n with
    | zero => exact .inl (by simpa using hn)
    | succ n =>
      refine .inr (startsWith_iff.mpr ?_)
      conv_rhs => rw [hn]
      rw [String.toList_append, String.toList_append, String.toList_ofList, List.replicate_succ]
      exact ⟨List.replicate n '/', by simp⟩
  · exact h

section Strict

variable {method path : String} {o : Fields}

theorem methodsCover_strict : methodsCover method true (items o "methods") = true ↔
    ∃ m ∈ methodsOf (.obj o), eqIgnoreAsciiCase m method = true := by
  change methodsCover method true (items o "methods") = true ↔
    ∃ m ∈ ((items o "methods").getD []).filterMap Json.asStr, eqIgnoreAsciiCase m method = true
  cases items o "methods" with
  | none => simp [methodsCover]
  | some ms =>
    cases ms with
    | nil => simp [methodsCover]
    | cons m ms =>
      change ((m :: ms).filterMap Json.asStr).any _ = true ↔ _
      exact List.any_eq_true

theorem pathCovered_strict : pathCovered path true (text o "path_prefix") = true ↔
    (trimEndSlashes (pathPrefixOf (.obj o)) ≠ "" ∧
      startsWith "/" (trimEndSlashes (pathPrefixOf (.obj o))) = true) ∧
        AtOrBelow (pathPrefixOf (.obj o)) path := by
  have hcovers : pathPrefixOf (.obj o) = (text o "path_prefix").getD "" := rfl
  rw [hcovers, atOrBelow_iff]
  cases text o "path_prefix" with
  | none => simp [pathCovered, trimEndSlashes]
  | some p => simp [pathCovered]

theorem bodyRule_strict {other : String} {value : Option String} :
    (bodyRule true other value).isSome = true ↔ value = some "allow" ∨ value = some other := by
  cases value with
  | none => simp [bodyRule]
  | some v =>
    simp only [bodyRule, Option.some.injEq]
    split_ifs <;> simp [*]

end Strict

theorem filter_isSome_iff {p : ℕ → Bool} {o : Option ℕ} :
    (o.filter p).isSome = true ↔ ∃ n, o = some n ∧ p n = true := by
  cases o with
  | none => simp
  | some n => simp [Option.filter, apply_ite]

theorem any_iff {p : ℕ → Bool} {o : Option ℕ} :
    o.any p = true ↔ ∃ n, o = some n ∧ p n = true := by
  cases o <;> simp

section Match

variable {limit : ℕ} {host method path : String} {entry : Json} {r : EgressMatch} {o : Fields}

theorem matchEntry_obj_eq_some :
    matchEntry limit host method path true (.obj o) = some r ↔
      (o.map Prod.fst).all (fun k ↦ fieldNames.contains k) = true ∧
      eqIgnoreAsciiCase (hostOf (.obj o)) host = true ∧
      methodsCover method true (items o "methods") = true ∧
      pathCovered path true (text o "path_prefix") = true ∧
      ∃ request, bodyRule true "deny" (text o "request_body") = some request ∧
      ∃ response, bodyRule true "digest_only" (text o "response_body") = some response ∧
      (((number o "max_request_bytes").filter (fun n ↦ n ≤ 4194304)).isSome = true ∧
        ((number o "max_response_bytes").filter (fun n ↦ 0 < n ∧ n ≤ limit)).isSome = true) ∧
      ((items o "allowed_headers").map normalHeaders).isSome = true ∧
      (⟨text o "inject_credential", request, response,
        ((number o "max_request_bytes").filter (fun n ↦ n ≤ 4194304)).getD 262144,
        ((number o "max_response_bytes").filter (fun n ↦ 0 < n ∧ n ≤ limit)).getD limit,
        ((items o "allowed_headers").map normalHeaders).getD []⟩ : EgressMatch) = r := by
  have hrule : ∀ {other : String} {v : Option String} {f : Bool → Option EgressMatch},
      (bodyRule true other v >>= f) = some r ↔
        ∃ a, bodyRule true other v = some a ∧ f a = some r := Option.bind_eq_some_iff
  simp only [matchEntry, guard_bind_eq_some, hrule, forall_const, pure, Option.some.injEq]
  rfl

structure TakenFrom (limit : ℕ) (host method path : String) (entry : Json) (r : EgressMatch) :
    Prop where
  lists : Lists entry host method path
  maxRequestBytes : (entry.get "max_request_bytes").bind Json.asU64 = some r.maxRequestBytes
  maxResponseBytes : (entry.get "max_response_bytes").bind Json.asU64 = some r.maxResponseBytes
  within : 0 < r.maxResponseBytes ∧ r.maxResponseBytes ≤ limit
  allowedHeaders : ∃ hs, (entry.get "allowed_headers").bind Json.asArray = some hs ∧
    r.allowedHeaders = normalHeaders hs

theorem takenFrom_of_matchEntry (h : matchEntry limit host method path true entry = some r) :
    TakenFrom limit host method path entry r := by
  cases entry with
  | null | bool | integer | float | arr => cases h
  | str s => simp [matchEntry] at h
  | obj o =>
    obtain ⟨-, hhost, hmethods, hpath, request, -, response, -, ⟨hrequest, hresponse⟩, hheaders,
      rfl⟩ := matchEntry_obj_eq_some.mp h
    obtain ⟨n, hn, hle⟩ := filter_isSome_iff.mp hrequest
    obtain ⟨m, hm, hlimit⟩ := filter_isSome_iff.mp hresponse
    obtain ⟨hs, hhs⟩ := Option.isSome_iff_exists.mp (Option.isSome_map ▸ hheaders)
    refine ⟨⟨hhost, methodsCover_strict.mp hmethods, (pathCovered_strict.mp hpath).2⟩, ?_, ?_, ?_,
      hs, hhs, ?_⟩
    · change number o "max_request_bytes" = _
      simp [hn, Option.filter, hle]
    · change number o "max_response_bytes" = _
      simp [hm, Option.filter, hlimit]
    · have hbounds := of_decide_eq_true hlimit
      simpa [hm, Option.filter, hlimit] using hbounds
    · simp [hhs]

structure Accepted (headerName : String → Bool) (o : Fields) : Prop where
  known : (o.map Prod.fst).all (fun k ↦ fieldNames.contains k) = true
  pathPrefix : startsWith "/" (pathPrefixOf (.obj o)) = true ∧
    trimEndSlashes (pathPrefixOf (.obj o)) ≠ ""
  requestBody : text o "request_body" = some "allow" ∨ text o "request_body" = some "deny"
  responseBody : text o "response_body" = some "allow" ∨
    text o "response_body" = some "digest_only"
  requestCap : ∃ n, number o "max_request_bytes" = some n ∧ n ≤ 4194304
  responseCap : ∃ n, number o "max_response_bytes" = some n ∧ 0 < n
  headers : ∃ hs, items o "allowed_headers" = some hs ∧ ∀ h ∈ hs, ∃ name, h.asStr = some name ∧
    name ≠ "" ∧ headerForbidden name = false ∧ headerName name = true

variable {headerName : String → Bool}

theorem accepted_of_validateEntry {label : String}
    (h : validateEntry headerName label entry = .ok ()) :
    ∃ o, entry = .obj o ∧ Accepted headerName o := by
  cases entry with
  | null | bool | integer | float | str | arr => cases h
  | obj o =>
    simp only [validateEntry, andThen_eq_ok] at h
    obtain ⟨hfields, -, -, hpath, hrequest, hresponse, hreq, hresp, hheaders, -⟩ := h
    refine ⟨o, rfl, ?_, ensure_eq_ok.mp hpath, ensure_eq_ok.mp hrequest, ensure_eq_ok.mp hresponse,
      ?_, ?_, ?_⟩
    · unfold validateFields at hfields
      split at hfields
      · cases hfields
      · rename_i hnone
        rw [List.find?_eq_none] at hnone
        simpa using hnone
    · have hcap := ensure_eq_ok.mp hreq
      obtain ⟨n, hn, hle⟩ := any_iff.mp hcap
      exact ⟨n, hn, by simpa using hle⟩
    · have hcap := ensure_eq_ok.mp hresp
      obtain ⟨n, hn, hle⟩ := any_iff.mp hcap
      refine ⟨n, hn, ?_⟩
      have := of_decide_eq_true hle
      omega
    · unfold validateHeaders at hheaders
      split at hheaders
      · cases hheaders
      · rename_i hs hhs
        refine ⟨hs, hhs, fun h hh ↦ ?_⟩
        have hheader := forM_eq_ok.mp hheaders h hh
        unfold validateHeader at hheader
        split at hheader
        · cases hheader
        · rename_i name hname
          exact ⟨name, hname, ensure_eq_ok.mp hheader⟩

theorem startsWith_trimEndSlashes {p : String} (hp : startsWith "/" p = true)
    (hne : trimEndSlashes p ≠ "") : startsWith "/" (trimEndSlashes p) = true := by
  obtain ⟨n, hn⟩ := trimEndSlashes_append p
  rw [startsWith_iff] at hp ⊢
  rw [hn, String.toList_append] at hp
  cases hl : (trimEndSlashes p).toList with
  | nil => exact absurd (String.toList_eq_nil_iff.mp hl) hne
  | cons c l =>
    rw [hl] at hp
    obtain ⟨t, ht⟩ := hp
    have hc : '/' = c := (List.cons.inj ht).1
    exact ⟨l, by rw [← hc]; rfl⟩

theorem Accepted.matchEntry_isSome (h : Accepted headerName o) :
    (matchEntry limit host method path true (.obj o)).isSome = true ↔
      Lists (.obj o) host method path ∧ ∃ n, number o "max_response_bytes" = some n ∧ n ≤ limit := by
  constructor
  · intro hm
    obtain ⟨r, hr⟩ := Option.isSome_iff_exists.mp hm
    have ht := takenFrom_of_matchEntry hr
    exact ⟨ht.lists, r.maxResponseBytes, ht.maxResponseBytes, ht.within.2⟩
  · rintro ⟨⟨hhost, hmethods, hpath⟩, n, hn, hle⟩
    obtain ⟨request, hrequest⟩ := Option.isSome_iff_exists.mp (bodyRule_strict.mpr h.requestBody)
    obtain ⟨response, hresponse⟩ :=
      Option.isSome_iff_exists.mp (bodyRule_strict.mpr h.responseBody)
    have hpos : 0 < n := by
      obtain ⟨m, hm, hpos⟩ := h.responseCap
      rw [hn] at hm
      exact Option.some.inj hm ▸ hpos
    have hreq : ((number o "max_request_bytes").filter (fun n ↦ n ≤ 4194304)).isSome = true := by
      obtain ⟨m, hm, hm'⟩ := h.requestCap
      exact filter_isSome_iff.mpr ⟨m, hm, decide_eq_true hm'⟩
    have hresp : ((number o "max_response_bytes").filter
        (fun n ↦ 0 < n ∧ n ≤ limit)).isSome = true :=
      filter_isSome_iff.mpr ⟨n, hn, decide_eq_true ⟨hpos, hle⟩⟩
    have hcovered := pathCovered_strict.mpr
      ⟨⟨h.pathPrefix.2, startsWith_trimEndSlashes h.pathPrefix.1 h.pathPrefix.2⟩, hpath⟩
    refine Option.isSome_iff_exists.mpr ⟨_, matchEntry_obj_eq_some.mpr ⟨h.known, hhost,
      methodsCover_strict.mpr hmethods, hcovered, request, hrequest, response, hresponse,
      ⟨hreq, hresp⟩, ?_, rfl⟩⟩
    obtain ⟨hs, hhs, -⟩ := h.headers
    rw [hhs]
    rfl

theorem headerForbidden_congr {s t : String}
    (h : toAsciiLowercase (trim s) = toAsciiLowercase (trim t)) :
    headerForbidden s = headerForbidden t := by
  simp only [headerForbidden, h]

theorem normalHeaders_eq
    (hblank : ∀ s, headerName s = true → ∀ c ∈ s.toList, isWhitespace c = false)
    {hs : List Json} (h : ∀ h ∈ hs, ∃ name, h.asStr = some name ∧
      name ≠ "" ∧ headerForbidden name = false ∧ headerName name = true) :
    normalHeaders hs = (hs.filterMap Json.asStr).map toAsciiLowercase := by
  have hnames : ∀ name ∈ hs.filterMap Json.asStr,
      name ≠ "" ∧ headerForbidden name = false ∧ ∀ c ∈ name.toList, isWhitespace c = false := by
    intro name hname
    obtain ⟨j, hj, hjn⟩ := List.mem_filterMap.mp hname
    obtain ⟨name', hname', hne, hforbidden, hok⟩ := h j hj
    obtain rfl : name = name' := Option.some.inj (hjn.symm.trans hname')
    exact ⟨hne, hforbidden, hblank name hok⟩
  have hmap : (hs.filterMap Json.asStr).map (fun v ↦ toAsciiLowercase (trim v)) =
      (hs.filterMap Json.asStr).map toAsciiLowercase :=
    List.map_congr_left (fun name hname ↦ by rw [trim_eq_self (hnames name hname).2.2])
  rw [normalHeaders, hmap, List.filter_eq_self]
  intro v hv
  obtain ⟨name, hname, rfl⟩ := List.mem_map.mp hv
  obtain ⟨hne, hforbidden, hchars⟩ := hnames name hname
  have hlower : trim (toAsciiLowercase name) = toAsciiLowercase name := by
    refine trim_eq_self (fun c hc ↦ ?_)
    rw [toAsciiLowercase, String.toList_ofList] at hc
    obtain ⟨d, hd, rfl⟩ := List.mem_map.mp hc
    rw [isWhitespace_toLower]
    exact hchars d hd
  have hsame : toAsciiLowercase (trim (toAsciiLowercase name)) = toAsciiLowercase (trim name) := by
    rw [hlower, toAsciiLowercase_idem, trim_eq_self hchars]
  have hkept : headerForbidden (toAsciiLowercase name) = false := by
    rw [← hforbidden, headerForbidden_congr hsame]
  have hne' : toAsciiLowercase name ≠ "" := by
    intro he
    refine hne (String.toList_eq_nil_iff.mp ?_)
    have hnil := congrArg String.toList he
    rw [toAsciiLowercase, String.toList_ofList] at hnil
    exact List.map_eq_nil_iff.mp hnil
  simp [hkept, hne']

end Match

def entriesOf (intent : Json) : List Json :=
  ((intent.get "egress_allowlist").bind Json.asArray).getD []

def headersOf (entry : Json) : List String :=
  (((entry.get "allowed_headers").bind Json.asArray).getD []).filterMap Json.asStr

def responseCapOf (entry : Json) : Option ℕ := (entry.get "max_response_bytes").bind Json.asU64

section Intent

variable {limit : ℕ} {host method path : String} {intent : Json}

theorem egressMatch_eq : egressMatch limit host method path true intent =
    (entriesOf intent).findSome? (matchEntry limit host method path true) := by
  unfold egressMatch entriesOf
  cases (intent.get "egress_allowlist").bind Json.asArray <;> rfl

theorem accepted_of_validate {headerName : String → Bool}
    (h : validateProductionEgressPolicy headerName intent = .ok ()) :
    ∀ e ∈ entriesOf intent, ∃ o, e = .obj o ∧ Accepted headerName o := by
  intro e he
  unfold validateProductionEgressPolicy at h
  unfold entriesOf at he
  cases hlist : intent.get "egress_allowlist" with
  | none => simp [hlist] at he
  | some list =>
    cases hentries : list.asArray with
    | none => simp [hlist, hentries] at he
    | some entries =>
      simp only [hlist, hentries, forM_eq_ok] at h
      simp only [hlist, hentries, Option.bind_some, Option.getD_some] at he
      rw [← List.zipIdx_map_fst 0 entries] at he
      obtain ⟨⟨e, i⟩, hi, rfl⟩ := List.mem_map.mp he
      exact accepted_of_validateEntry (h (e, i) hi)

/-- A request that an accepted policy lists is matched exactly when one of the
entries that list it stays within the configured limit on responses, and every
strict match is taken from one entry that lists the request. -/
theorem policy_matches_iff (setting : Option String) {headerName : String → Bool}
    (hblank : ∀ s, headerName s = true → ∀ c ∈ s.toList, isWhitespace c = false) :
    (validateProductionEgressPolicy headerName intent = .ok () →
      ∀ e ∈ entriesOf intent, ∀ m ∈ methodsOf e, ∀ path, AtOrBelow (pathPrefixOf e) path →
        ((egressMatch (maxRespBytes setting) (hostOf e) m path true intent).isSome = true ↔
          ∃ e' ∈ entriesOf intent, Lists e' (hostOf e) m path ∧
            ∃ cap, responseCapOf e' = some cap ∧ cap ≤ maxRespBytes setting)) ∧
    (∀ host method path r, egressMatch (maxRespBytes setting) host method path true intent = some r →
      ∃ e ∈ entriesOf intent, TakenFrom (maxRespBytes setting) host method path e r ∧
        (validateProductionEgressPolicy headerName intent = .ok () →
          r.allowedHeaders = (headersOf e).map toAsciiLowercase)) := by
  constructor
  · intro hv e _ m _ path _
    rw [egressMatch_eq, List.findSome?_isSome_iff]
    refine exists_congr (fun e' ↦ and_congr_right (fun he' ↦ ?_))
    obtain ⟨o, rfl, ho⟩ := accepted_of_validate hv e' he'
    exact ho.matchEntry_isSome
  · intro host method path r hr
    rw [egressMatch_eq] at hr
    obtain ⟨e, he, hr⟩ := List.exists_of_findSome?_eq_some hr
    have ht := takenFrom_of_matchEntry hr
    refine ⟨e, he, ht, fun hv ↦ ?_⟩
    obtain ⟨o, rfl, ho⟩ := accepted_of_validate hv e he
    obtain ⟨hs, hhs, hheaders⟩ := ho.headers
    obtain ⟨hs', hhs', hr'⟩ := ht.allowedHeaders
    have hsame : hs = hs' := Option.some.inj (hhs.symm.trans hhs')
    have hlist : headersOf (.obj o) = hs.filterMap Json.asStr := by
      rw [hsame]
      simp only [headersOf, hhs', Option.getD_some]
    rw [hr', hlist, ← hsame]
    exact normalHeaders_eq hblank hheaders

end Intent

section Demo

def acceptHeader (s : String) : Bool := s = "Accept"

def chargesEntry : Json := .obj
  [("host", .str "api.stripe.com"), ("methods", .arr [.str "GET", .str "post"]),
    ("path_prefix", .str "/v1/charges/"), ("request_body", .str "allow"),
    ("response_body", .str "digest_only"), ("max_request_bytes", .integer 1024),
    ("max_response_bytes", .integer 2048), ("allowed_headers", .arr [.str "Accept"])]

def chargesIntent : Json := .obj [("egress_allowlist", .arr [chargesEntry])]

theorem policy_matches_iff_charges :
    (egressMatch (maxRespBytes none) (hostOf chargesEntry) "GET" "/v1/charges/ch_1" true
      chargesIntent).isSome = true := by
  have hblank : ∀ s, acceptHeader s = true → ∀ c ∈ s.toList, isWhitespace c = false := by
    intro s hs
    obtain rfl : s = "Accept" := of_decide_eq_true hs
    simp [isWhitespace]
  have hvalid : validateProductionEgressPolicy acceptHeader chargesIntent = .ok () := by
    decide +kernel
  have hpath : AtOrBelow (pathPrefixOf chargesEntry) "/v1/charges/ch_1" :=
    .inr (.inr (by decide +kernel))
  refine ((policy_matches_iff none hblank).1 hvalid chargesEntry List.mem_cons_self "GET"
    (by decide +kernel) _ hpath).mpr ?_
  exact ⟨chargesEntry, List.mem_cons_self, ⟨by decide +kernel, ⟨"GET", by decide +kernel⟩, hpath⟩,
    2048, by decide +kernel⟩

/-- With a smaller limit on responses the accepted entry is never matched. -/
theorem accepted_policy_unmatched :
    validateProductionEgressPolicy acceptHeader chargesIntent = .ok () ∧
    "GET" ∈ methodsOf chargesEntry ∧ pathPrefixOf chargesEntry = "/v1/charges/" ∧
    egressMatch (maxRespBytes (some "1000")) (hostOf chargesEntry) "GET" "/v1/charges/" true
      chargesIntent = none := by
  refine ⟨?_, ?_, ?_, ?_⟩
  · decide +kernel
  · decide +kernel
  · decide +kernel
  · decide +kernel

end Demo

end SauronId.Egress
