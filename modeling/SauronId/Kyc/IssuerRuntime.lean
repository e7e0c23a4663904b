import SauronId.Kyc.Retrieve

namespace SauronId.Kyc.Issuer

open Lib Lib.Run Lib.Text

structure IssuerCircuitConfig where
  failureThreshold : ℕ
  openSecs : ℤ
  fits : failureThreshold < 2 ^ 32

structure IssuerCircuitState where
  consecutiveTripEvents : ℕ := 0
  openUntilEpoch : ℤ := 0

def normalizeIssuerBase (url : String) : String :=
  String.ofList ((trim url).toList.reverse.dropWhile (fun c ↦ c = '/')).reverse

/-- The gates by base URL. A gate that is not in the map reads as the default one. -/
abbrev Gates := String → IssuerCircuitState

inductive Response
  | failed (error : String)
  | answered (status : ℕ) (body : Option Json)

def isSuccess (status : ℕ) : Bool := 200 ≤ status ∧ status < 300

def isTrip (status : ℕ) : Bool := status = 429 ∨ 500 ≤ status

def verdict (val : Json) : Option Bool :=
  ((val.get "verified").or (val.get "valid")).bind Json.asBool

section Runtime

variable (cfg : IssuerCircuitConfig) (gates : Gates) (base : String) (now : ℤ)

def trips : ℕ := min ((gates (normalizeIssuerBase base)).consecutiveTripEvents + 1) (2 ^ 32 - 1)

def recordTripEvent : Gates :=
  let k := normalizeIssuerBase base
  if cfg.failureThreshold = 0 then gates
  else if cfg.failureThreshold ≤ trips gates base then
    Function.update gates k ⟨0, now + cfg.openSecs⟩
  else Function.update gates k ⟨trips gates base, (gates k).openUntilEpoch⟩

def resetTrips : Gates :=
  let k := normalizeIssuerBase base
  Function.update gates k ⟨0, (gates k).openUntilEpoch⟩

/-- The first part of `verify_proof_json`: the base that a request is sent to. -/
def checkGate (issuerUrl : String) : Except IssuerVerifyError String :=
  let base := normalizeIssuerBase issuerUrl
  if base = "" then .error (.transport "empty issuer URL")
  else if 0 < cfg.failureThreshold ∧ now < (gates base).openUntilEpoch then .error .circuitOpen
  else .ok base

/-- The second part of `verify_proof_json`: its result, by what came back. -/
def Response.result : Response → Except IssuerVerifyError Bool
  | failed error => .error (.transport error)
  | answered status body =>
    if isSuccess status then
      body.elim (.error .jsonParse) (fun val ↦ .ok ((verdict val).getD false))
    else .error (.upstream status)

def settle : Response → Gates
  | .failed _ => recordTripEvent cfg gates base now
  | .answered status body =>
    if isSuccess status then body.elim gates (fun _ ↦ resetTrips gates base)
    else if isTrip status then recordTripEvent cfg gates base now
    else gates

end Runtime

def IssuerVerifyError.retry : IssuerVerifyError → Bool
  | .circuitOpen | .transport _ | .jsonParse => true
  | .upstream status => isTrip status

/-- One call: the gates and the clock as it finds them, and the response if it sends its request. -/
structure Attempt where
  issuerUrl : String
  gates : Gates
  now : ℤ
  response : Response

def verifyProofJson (cfg : IssuerCircuitConfig) (a : Attempt) : Except IssuerVerifyError Bool :=
  match checkGate cfg a.gates a.now a.issuerUrl with
  | .error e => .error e
  | .ok _ => a.response.result

def failoverLoop (cfg : IssuerCircuitConfig) :
    Option IssuerVerifyError → List Attempt → Except IssuerVerifyError Bool
  | lastErr, [] => .error (lastErr.getD (.transport "all issuer verify-proof attempts failed"))
  | _, a :: rest =>
    match verifyProofJson cfg a with
    | .ok v => .ok v
    | .error e => if IssuerVerifyError.retry e then failoverLoop cfg (some e) rest else .error e

def bases (issuers : List Attempt) : List Attempt :=
  (issuers.map (fun a ↦ { a with issuerUrl := normalizeIssuerBase a.issuerUrl })).filter
    (fun a ↦ a.issuerUrl ≠ "")

def verifyProofFailover (cfg : IssuerCircuitConfig) (issuers : List Attempt) :
    Except IssuerVerifyError Bool :=
  if (bases issuers).isEmpty then .error (.transport
    "no issuer URLs configured (set SAURON_ISSUER_URLS or SAURON_ISSUER_URL)")
  else failoverLoop cfg none (bases issuers)

/-! ### Calls and responses of many requests -/

inductive Note
  | sent (base : String) (now : ℤ)
  | tripped (base : String)
  | opened (base : String) (until_ : ℤ)
  | succeeded (base : String)
deriving DecidableEq

structure World (ι : Type) where
  gates : Gates
  /-- The base a request has been sent to, while no response has come. -/
  waiting : ι → Option String
  trace : List Note

inductive Event (ι : Type)
  | call (i : ι) (issuerUrl : String) (now : ℤ)
  | response (i : ι) (r : Response) (now : ℤ)

def notes (cfg : IssuerCircuitConfig) (gates : Gates) (base : String) (now : ℤ) :
    Response → List Note
  | .failed _ => trip
  | .answered status body =>
    if isSuccess status then body.elim [] (fun _ ↦ [.succeeded base])
    else if isTrip status then trip else []
where
  trip : List Note := .tripped base ::
    if cfg.failureThreshold ≠ 0 ∧ cfg.failureThreshold ≤ trips gates base then
      [.opened (normalizeIssuerBase base) (now + cfg.openSecs)] else []

def next {ι : Type} [DecidableEq ι] (cfg : IssuerCircuitConfig) (w : World ι) :
    Event ι → Option (World ι)
  | .call i issuerUrl now =>
    match checkGate cfg w.gates now issuerUrl with
    | .error _ => some w
    | .ok base => some { w with
        waiting := Function.update w.waiting i (some base)
        trace := w.trace ++ [.sent base now] }
  | .response i r now => (w.waiting i).map (fun base ↦
      ⟨settle cfg w.gates base now r, Function.update w.waiting i none,
        w.trace ++ notes cfg w.gates base now r⟩)

/-! ### What the trace says of a circuit -/

def countTrip (k : String) (n : ℕ) : Note → ℕ
  | .sent _ _ => n
  | .tripped base => if base = k then n + 1 else n
  | .opened base _ | .succeeded base => if base = k then 0 else n

/-- The trip events of an issuer since its last success or opening. -/
def tripsSince (k : String) (trace : List Note) : ℕ := trace.foldl (countTrip k) 0

def lastOpened (k : String) (d : Option ℤ) : Note → Option ℤ
  | .opened base t => if base = k then some t else d
  | _ => d

/-- Until when the circuit of an issuer is open, if it was ever opened. -/
def deadline (k : String) (trace : List Note) : Option ℤ := trace.foldl (lastOpened k) none

/-- A request is sent only if the circuit is not open, and a circuit opens only after as many trip
events as the threshold says. -/
def Due (cfg : IssuerCircuitConfig) (trace : List Note) : Note → Prop
  | .sent k now => ∀ t ∈ deadline k trace, t ≤ now
  | .opened k _ => 0 < cfg.failureThreshold ∧ tripsSince k trace = cfg.failureThreshold
  | _ => True

def Kept (cfg : IssuerCircuitConfig) (trace : List Note) : Prop :=
  ∀ before note, before ++ [note] <+: trace → Due cfg before note

section Trace

variable {cfg : IssuerCircuitConfig} {trace : List Note} {n : Note} {k base : String}

theorem kept_concat (h : Kept cfg trace) (hn : Due cfg trace n) : Kept cfg (trace ++ [n]) := by
  intro before note hprefix
  rcases List.prefix_concat_iff.mp hprefix with heq | hold
  · obtain ⟨rfl, hnote⟩ := List.append_inj' heq rfl
    cases hnote
    exact hn
  · exact h before note hold

theorem tripsSince_concat : tripsSince k (trace ++ [n]) = countTrip k (tripsSince k trace) n := by
  rw [tripsSince, List.foldl_append]
  rfl

theorem deadline_concat : deadline k (trace ++ [n]) = lastOpened k (deadline k trace) n := by
  rw [deadline, List.foldl_append]
  rfl

structure Reads (cfg : IssuerCircuitConfig) (gates : Gates) (trace : List Note) : Prop where
  kept : Kept cfg trace
  counted : ∀ k, 0 < cfg.failureThreshold → (gates k).consecutiveTripEvents = tripsSince k trace ∧
    tripsSince k trace < cfg.failureThreshold
  until_eq : ∀ k, (gates k).openUntilEpoch = (deadline k trace).getD 0
  enabled : ∀ k t, t ∈ deadline k trace → 0 < cfg.failureThreshold

variable {gates : Gates} {now : ℤ}

theorem checkGate_eq_ok {url : String} (h : checkGate cfg gates now url = .ok base) :
    normalizeIssuerBase url = base ∧
      ¬ (0 < cfg.failureThreshold ∧ now < (gates base).openUntilEpoch) := by
  unfold checkGate at h
  dsimp only at h
  split_ifs at h with hempty hopen
  obtain rfl := Except.ok.inj h
  exact ⟨rfl, hopen⟩

theorem Reads.sent (h : Reads cfg gates trace) {url : String}
    (hsent : checkGate cfg gates now url = .ok base) :
    Reads cfg gates (trace ++ [.sent base now]) := by
  obtain ⟨-, hopen⟩ := checkGate_eq_ok hsent
  refine ⟨kept_concat h.kept fun t ht ↦ ?_, fun k hk ↦ ?_, fun k ↦ ?_, fun k t ht ↦ ?_⟩
  · by_contra hlt
    refine hopen ⟨h.enabled _ t ht, ?_⟩
    rw [h.until_eq, Option.mem_def.mp ht, Option.getD_some]
    omega
  · rw [tripsSince_concat]
    exact h.counted k hk
  · rw [deadline_concat]
    exact h.until_eq k
  · rw [deadline_concat] at ht
    exact h.enabled k t ht

theorem Reads.update (h : Reads cfg gates trace) {after : List Note} {g : IssuerCircuitState}
    (hkept : Kept cfg after)
    (hother : ∀ k ≠ base,
      tripsSince k after = tripsSince k trace ∧ deadline k after = deadline k trace)
    (hcount : 0 < cfg.failureThreshold → g.consecutiveTripEvents = tripsSince base after ∧
      tripsSince base after < cfg.failureThreshold)
    (huntil : g.openUntilEpoch = (deadline base after).getD 0)
    (henabled : ∀ t ∈ deadline base after, 0 < cfg.failureThreshold) :
    Reads cfg (Function.update gates base g) after := by
  refine ⟨hkept, fun k hk ↦ ?_, fun k ↦ ?_, fun k t ht ↦ ?_⟩ <;> by_cases hkb : k = base
  · rw [hkb, Function.update_self]
    exact hcount hk
  · rw [Function.update_of_ne hkb, (hother k hkb).1]
    exact h.counted k hk
  · rw [hkb, Function.update_self, huntil]
  · rw [Function.update_of_ne hkb, (hother k hkb).2, h.until_eq]
  · exact henabled t (hkb ▸ ht)
  · rw [(hother k hkb).2] at ht
    exact h.enabled k t ht

theorem Reads.succeeded (h : Reads cfg gates trace) (hbase : normalizeIssuerBase base = base) :
    Reads cfg (resetTrips gates base) (trace ++ [.succeeded base]) := by
  have hdeadline : ∀ k, deadline k (trace ++ [.succeeded base]) = deadline k trace :=
    fun k ↦ deadline_concat
  rw [resetTrips, hbase]
  refine h.update (kept_concat h.kept trivial) (fun k hk ↦ ⟨?_, hdeadline k⟩) (fun hpos ↦ ?_) ?_ ?_
  · rw [tripsSince_concat, countTrip, if_neg (Ne.symm hk)]
  · rw [tripsSince_concat, countTrip, if_pos rfl]
    exact ⟨rfl, hpos⟩
  · rw [hdeadline, h.until_eq]
  · rw [hdeadline]
    exact h.enabled base

theorem Reads.tripped (h : Reads cfg gates trace) (hbase : normalizeIssuerBase base = base) :
    Reads cfg (recordTripEvent cfg gates base now)
      (trace ++ notes.trip cfg gates base now) := by
  have hkept := kept_concat (n := .tripped base) h.kept trivial
  have hdeadline : ∀ k, deadline k (trace ++ [.tripped base]) = deadline k trace :=
    fun k ↦ deadline_concat
  have hown : tripsSince base (trace ++ [.tripped base]) = tripsSince base trace + 1 := by
    rw [tripsSince_concat, countTrip, if_pos rfl]
  have hother : ∀ k ≠ base, tripsSince k (trace ++ [.tripped base]) = tripsSince k trace := by
    intro k hk
    rw [tripsSince_concat, countTrip, if_neg (Ne.symm hk)]
  unfold recordTripEvent notes.trip
  rw [hbase]
  by_cases hzero : cfg.failureThreshold = 0
  · rw [if_pos hzero, if_neg fun ho ↦ ho.1 hzero]
    refine ⟨hkept, fun k hk ↦ absurd hzero hk.ne', fun k ↦ ?_, fun k t ht ↦ ?_⟩
    · rw [hdeadline, h.until_eq]
    · rw [hdeadline] at ht
      exact h.enabled k t ht
  · have hpos := Nat.pos_of_ne_zero hzero
    obtain ⟨hcount, hlt⟩ := h.counted base hpos
    have htrips : trips gates base = tripsSince base trace + 1 := by
      have hfits := cfg.fits
      rw [trips, hbase, hcount]
      exact Nat.min_eq_left (by omega)
    rw [if_neg hzero, htrips]
    by_cases hopens : cfg.failureThreshold ≤ tripsSince base trace + 1
    · rw [if_pos hopens, if_pos ⟨hzero, hopens⟩, List.append_cons]
      have hopened : tripsSince base ((trace ++ [.tripped base]) ++
          [.opened base (now + cfg.openSecs)]) = 0 := by
        rw [tripsSince_concat, countTrip, if_pos rfl]
      refine h.update (kept_concat hkept ⟨hpos, by omega⟩) (fun k hk ↦ ⟨?_, ?_⟩)
        (fun _ ↦ ⟨hopened.symm, hopened ▸ hpos⟩) ?_ (fun _ _ ↦ hpos)
      · rw [tripsSince_concat, countTrip, if_neg (Ne.symm hk), hother k hk]
      · rw [deadline_concat, lastOpened, if_neg (Ne.symm hk), hdeadline]
      · rw [deadline_concat, lastOpened, if_pos rfl, Option.getD_some]
    · rw [if_neg hopens, if_neg fun ho ↦ hopens ho.2]
      refine h.update hkept (fun k hk ↦ ⟨hother k hk, hdeadline k⟩) (fun _ ↦ ⟨hown.symm, ?_⟩) ?_
        (fun _ _ ↦ hpos)
      · omega
      · rw [hdeadline, h.until_eq]

theorem Reads.settle (h : Reads cfg gates trace) (hbase : normalizeIssuerBase base = base)
    (r : Response) :
    Reads cfg (settle cfg gates base now r) (trace ++ notes cfg gates base now r) := by
  cases r with
  | failed error => exact h.tripped hbase
  | answered status body =>
    unfold Issuer.settle notes
    dsimp only
    split_ifs with hsuccess htrip
    · cases body with
      | none => rwa [Option.elim_none, Option.elim_none, List.append_nil]
      | some val =>
        rw [Option.elim_some, Option.elim_some]
        exact h.succeeded hbase
    · exact h.tripped hbase
    · rwa [List.append_nil]

end Trace

section Runs

variable {ι : Type} [DecidableEq ι] {cfg : IssuerCircuitConfig}

def World.init (ι : Type) : World ι := ⟨fun _ ↦ {}, fun _ ↦ none, []⟩

/-- An issuer URL whose normal form is left alone when it is normalized again, as it is when its
trip events are recorded. -/
def Event.Stable : Event ι → Prop
  | .call _ url _ => normalizeIssuerBase (normalizeIssuerBase url) = normalizeIssuerBase url
  | .response _ _ _ => True

instance (e : Event ι) : Decidable e.Stable := by
  cases e <;> unfold Event.Stable <;> infer_instance

structure Sound (cfg : IssuerCircuitConfig) (w : World ι) : Prop where
  reads : Reads cfg w.gates w.trace
  stable : ∀ i base, w.waiting i = some base → normalizeIssuerBase base = base

theorem stable_update {waiting : ι → Option String} {o : Option String}
    (h : ∀ i base, waiting i = some base → normalizeIssuerBase base = base)
    (ho : ∀ base ∈ o, normalizeIssuerBase base = base) (i : ι) :
    ∀ j base, Function.update waiting i o j = some base → normalizeIssuerBase base = base := by
  intro j base hj
  by_cases hij : j = i
  · rw [hij, Function.update_self] at hj
    exact ho base hj
  · rw [Function.update_of_ne hij] at hj
    exact h j base hj

theorem sound_next (w : World ι) (e : Event ι) (w' : World ι) (hw : Sound cfg w) (he : e.Stable)
    (h : next cfg w e = some w') : Sound cfg w' := by
  cases e with
  | call i url now =>
    rw [next] at h
    split at h
    · obtain rfl := Option.some.inj h
      exact hw
    · next base hbase =>
      obtain rfl := Option.some.inj h
      refine ⟨hw.reads.sent hbase, stable_update hw.stable (fun b hb ↦ ?_) i⟩
      obtain rfl := (checkGate_eq_ok hbase).1.trans (Option.some.inj hb)
      exact he
  | response i r now =>
    obtain ⟨base, hbase, rfl⟩ := Option.map_eq_some_iff.mp h
    exact ⟨hw.reads.settle (hw.stable i base hbase) r,
      stable_update hw.stable (by simp) i⟩

omit [DecidableEq ι] in
theorem sound_init : Sound cfg (World.init ι) where
  reads := ⟨fun _ _ h ↦ absurd (List.prefix_nil.mp h) (List.concat_ne_nil _ _),
    fun _ hk ↦ ⟨rfl, hk⟩, fun _ ↦ rfl, nofun⟩
  stable := nofun

end Runs

/-! ### The first verdict -/

def Response.verdict : Response → Option Bool
  | .answered status (some val) => if isSuccess status then Issuer.verdict val else none
  | _ => none

section Failover

variable {cfg : IssuerCircuitConfig} {a : Attempt}

def Attempt.verdict (cfg : IssuerCircuitConfig) (a : Attempt) : Option Bool :=
  if (checkGate cfg a.gates a.now a.issuerUrl).isOk then a.response.verdict else none

theorem Response.result_eq (r : Response) :
    (∃ e, r.result = .error e ∧ r.verdict = none) ∨ r.result = .ok (r.verdict.getD false) := by
  match r with
  | .failed e => exact .inl ⟨_, rfl, rfl⟩
  | .answered status body =>
    by_cases hsuccess : isSuccess status
    · cases body with
      | none => exact .inl ⟨_, if_pos hsuccess, rfl⟩
      | some val =>
        refine .inr ((if_pos hsuccess).trans ?_)
        rw [verdict, if_pos hsuccess, Option.elim_some]
    · refine .inl ⟨_, if_neg hsuccess, ?_⟩
      cases body with
      | none => rfl
      | some val => exact if_neg hsuccess

theorem verifyProofJson_eq (cfg : IssuerCircuitConfig) (a : Attempt) :
    (∃ e, verifyProofJson cfg a = .error e ∧ a.verdict cfg = none) ∨
      verifyProofJson cfg a = .ok ((a.verdict cfg).getD false) := by
  unfold verifyProofJson Attempt.verdict
  cases checkGate cfg a.gates a.now a.issuerUrl with
  | error e => exact .inl ⟨e, rfl, rfl⟩
  | ok base => exact a.response.result_eq

theorem failoverLoop_eq_ok {lastErr : Option IssuerVerifyError} {calls : List Attempt} {v : Bool}
    (h : failoverLoop cfg lastErr calls = .ok v) :
    ∃ before a after, calls = before ++ a :: after ∧
      (∀ b ∈ before, b.verdict cfg = none) ∧ v = (a.verdict cfg).getD false := by
  induction calls generalizing lastErr with
  | nil => cases h
  | cons a rest ih =>
    rw [failoverLoop] at h
    rcases verifyProofJson_eq cfg a with ⟨e, he, hnone⟩ | hok
    · rw [he] at h
      dsimp only at h
      split_ifs at h
      obtain ⟨before, b, after, rfl, hbefore, hb⟩ := ih h
      exact ⟨a :: before, b, after, rfl, List.forall_mem_cons.mpr ⟨hnone, hbefore⟩, hb⟩
    · rw [hok] at h
      exact ⟨[], a, rest, rfl, nofun, (Except.ok.inj h).symm⟩

end Failover

def strictConfig : IssuerCircuitConfig := ⟨1, 30, by decide⟩

def refused (url : String) : List (Event Unit) :=
  [.call () url 0, .response () (.failed "connection refused") 1]

end SauronId.Kyc.Issuer
