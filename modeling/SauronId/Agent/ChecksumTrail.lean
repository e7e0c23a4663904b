import SauronId.Agent.ChecksumRotation
import SauronId.Lib.Locked

namespace SauronId.Agent

open SauronId.Action (Curve Rejection openCurve)
open CryptoProtocol Lib Lib.Run

variable {C : Curve} {ι : Type} [DecidableEq ι]

/-! ### Where the records of an agent stand -/

theorem ChecksumRecords.get_updateInputs (s : ChecksumRecords) (r : Rotation) (version : ℤ)
    (agentId : String) :
    (s.updateInputs r version).inputs.get agentId =
      if agentId = r.agentId then (s.inputs.get agentId).map (.rotate r version)
      else s.inputs.get agentId :=
  Table.get_updateWhere_key (f := ChecksumInputsRow.rotate r version) (fun _ ↦ rfl) agentId

theorem ChecksumRecords.get_updateAgent (s : ChecksumRecords) (r : Rotation) (agentId : String) :
    (s.updateAgent r).agents.get agentId =
      if agentId = r.agentId then (s.agents.get agentId).map (.setChecksum r.checksum)
      else s.agents.get agentId :=
  Table.get_updateWhere_key (f := AgentRecord.setChecksum r.checksum) (fun _ ↦ rfl) agentId

def Follows : String → List ChecksumAuditRow → String → Prop
  | first, [], last => first = last
  | first, row :: rows, last => row.fromChecksum = first ∧ Follows row.toChecksum rows last

variable {rows : List ChecksumAuditRow}

theorem follows_concat {first last : String} {row : ChecksumAuditRow} :
    Follows first (rows ++ [row]) last ↔ Follows first rows row.fromChecksum ∧
      row.toChecksum = last := by
  induction rows generalizing first with
  | nil => simp only [List.nil_append, Follows, eq_comm]
  | cons r rows ih => simp only [List.cons_append, Follows, ih, and_assoc]

theorem Follows.getLast {first last : String} (h : Follows first rows last) :
    ∀ row ∈ rows.getLast?, row.toChecksum = last := by
  intro row hrow
  obtain ⟨rows, rfl⟩ := List.getLast?_eq_some_iff.mp hrow
  exact (follows_concat.mp h).2

/-- The checksum of the agent, its inputs, where its audit trail has led from the
checksum it was registered with, and how often it was rotated. -/
structure Standing (agentId first : String) (s : ChecksumRecords) (checksum : String)
    (row : ChecksumInputsRow) (last : String) (count : ℤ) : Prop where
  agent : (s.agents.get agentId).map AgentRecord.agentChecksum = some checksum
  inputs : s.inputs.get agentId = some row
  trail : Follows first (s.trail agentId) last
  count : ((s.rotations agentId).length : ℤ) = count

namespace Standing

variable {agentId first checksum last : String} {s : ChecksumRecords} {row : ChecksumInputsRow}
  {count : ℤ} {r : Rotation}

theorem updateInputs (h : Standing agentId first s checksum row last count) (r : Rotation)
    (version : ℤ) :
    Standing agentId first (s.updateInputs r version) checksum
      (if agentId = r.agentId then row.rotate r version else row) last count where
  agent := h.agent
  inputs := by
    rw [ChecksumRecords.get_updateInputs, h.inputs]
    split_ifs <;> rfl
  trail := h.trail
  count := h.count

theorem updateAgent (h : Standing agentId first s checksum row last count) (r : Rotation) :
    Standing agentId first (s.updateAgent r)
      (if agentId = r.agentId then r.checksum else checksum) row last count where
  agent := by
    obtain ⟨agent, hget, rfl⟩ := Option.map_eq_some_iff.mp h.agent
    rw [ChecksumRecords.get_updateAgent, hget]
    split_ifs <;> rfl
  inputs := h.inputs
  trail := h.trail
  count := h.count

theorem appendAudit (h : Standing agentId first s checksum row last count)
    (entry : ChecksumAuditRow) (answer : ChecksumUpdateResponse)
    (hentry : entry.agentId = agentId) (hfrom : entry.fromChecksum = last)
    (hanswer : answer.agentId = agentId) :
    Standing agentId first (s.appendAudit entry answer) checksum row entry.toChecksum
      (count + 1) where
  agent := h.agent
  inputs := h.inputs
  trail := by
    rw [ChecksumRecords.trail, ChecksumRecords.appendAudit, List.filter_append,
      List.filter_cons_of_pos (by simpa using hentry), List.filter_nil, follows_concat, hfrom]
    exact ⟨h.trail, rfl⟩
  count := by
    rw [ChecksumRecords.rotations, ChecksumRecords.appendAudit, List.filter_append,
      List.filter_cons_of_pos (by simpa using hanswer), List.filter_nil, List.length_append]
    exact congrArg (fun n ↦ n + 1) h.count

theorem appendAudit_other (h : Standing agentId first s checksum row last count)
    {entry : ChecksumAuditRow} {answer : ChecksumUpdateResponse}
    (hentry : entry.agentId ≠ agentId) (hanswer : answer.agentId ≠ agentId) :
    Standing agentId first (s.appendAudit entry answer) checksum row last count where
  agent := h.agent
  inputs := h.inputs
  trail := by
    rw [ChecksumRecords.trail, ChecksumRecords.appendAudit, List.filter_append,
      List.filter_cons_of_neg (by simpa using hentry), List.filter_nil, List.append_nil]
    exact h.trail
  count := by
    rw [ChecksumRecords.rotations, ChecksumRecords.appendAudit, List.filter_append,
      List.filter_cons_of_neg (by simpa using hanswer), List.filter_nil, List.append_nil]
    exact h.count

end Standing

def Settled (agentId first : String) (s : ChecksumRecords) : Prop :=
  ∃ row, Standing agentId first s row.computedChecksum row row.computedChecksum (row.version - 1)

/-- What a rotating request that nobody disturbs knows about the records. -/
def RotationPhase.Knows (agentId first : String) : RotationPhase → ChecksumRecords → Prop
  | updatingInputs _ _ prev, s =>
    Standing agentId first s prev.computedChecksum prev prev.computedChecksum (prev.version - 1)
  | updatingAgent r _ prev, s =>
    Standing agentId first s prev.computedChecksum (prev.rotate r (prev.version + 1))
      prev.computedChecksum (prev.version - 1)
  | appendingAudit r _ prev, s =>
    Standing agentId first s r.checksum (prev.rotate r (prev.version + 1)) prev.computedChecksum
      (prev.version - 1)
  | idle, _ | findingOwner _, _ | readingPrevious _, _ | readingInputs _ _, _ | finished _, _ => True

variable {agentId first : String}

theorem RotationPhase.Knows.mono {s t : ChecksumRecords} {p : RotationPhase}
    (h : p.Knows agentId first s)
    (hst : ∀ {checksum row last count}, Standing agentId first s checksum row last count →
      Standing agentId first t checksum row last count) : p.Knows agentId first t := by
  cases p with
  | updatingInputs | updatingAgent | appendingAudit => exact hst h
  | idle | findingOwner | readingPrevious | readingInputs | finished => trivial

/-- The requests act as if each of them held a lock while it rotates. -/
structure Tracked (agentId first : String) (l : Locked ι RotationPhase ChecksumRecords) : Prop where
  guarded : l.Guarded (RotationPhase.Rotating agentId) (RotationPhase.Knows agentId first)
  settled : l.holder = none → Settled agentId first l.shared

/-- A request that reads the inputs of the agent finds no other one rotating, and
its second and third write do not fail. -/
def RotationPhase.Calm (agentId : String) (free : Prop) (fault : Option String) :
    RotationPhase → Prop
  | readingInputs r _ => r.agentId = agentId → free
  | updatingAgent r _ _ | appendingAudit r _ _ => r.agentId = agentId → fault = none
  | idle | findingOwner _ | readingPrevious _ | updatingInputs _ _ _ | finished _ => True

def Undisturbed (agentId : String) (w : RotationWorld ι) : RotationEvent ι → Prop
  | .arrive _ _ => True
  | .advance i fault =>
    (w.phase i).Calm agentId (∀ j, ¬ (w.phase j).Rotating agentId) fault

section Tracked

variable {P : Primitives} {agentId first : String} {l : Locked ι RotationPhase ChecksumRecords}
  {i : ι} {r : Rotation} {p : RotationPhase} {s : ChecksumRecords}

theorem Tracked.move (h : Tracked agentId first l) (hi : ¬ (l.phase i).Rotating agentId)
    (hp : ¬ p.Rotating agentId) : Tracked agentId first (l.move i p) :=
  ⟨h.guarded.move hi hp, h.settled⟩

theorem Tracked.besides (h : Tracked agentId first l) (hi : ¬ (l.phase i).Rotating agentId)
    (hp : ¬ p.Rotating agentId)
    (hother : ∀ {checksum row last count}, Standing agentId first l.shared checksum row last count →
      Standing agentId first s checksum row last count) :
    Tracked agentId first ⟨s, l.holder, Function.update l.phase i p⟩ where
  guarded := h.guarded.besides hi hp (fun _ _ hq ↦ hq.mono hother)
  settled hnone := (h.settled hnone).imp (fun _ ↦ hother)

theorem Tracked.write (h : Tracked agentId first l) (hi : (l.phase i).Rotating agentId)
    (hp : p.Rotating agentId) (hk : p.Knows agentId first s) :
    Tracked agentId first ⟨s, l.holder, Function.update l.phase i p⟩ where
  guarded := h.guarded.write hi hp hk
  settled hnone := by
    have hholder : l.holder = some i := (h.guarded.inside_iff i).mp hi
    rw [show l.holder = none from hnone] at hholder
    cases hholder

theorem Tracked.enter (h : Tracked agentId first l) {fromChecksum : String}
    {prev : ChecksumInputsRow} (hfree : ∀ j, ¬ (l.phase j).Rotating agentId)
    (hr : r.agentId = agentId) (hget : l.shared.inputs.get r.agentId = some prev) :
    Tracked agentId first ⟨l.shared, some i,
      Function.update l.phase i (.updatingInputs r fromChecksum prev)⟩ := by
  have hnone : l.holder = none := by
    cases hholder : l.holder with
    | none => rfl
    | some j => exact absurd ((h.guarded.inside_iff j).mpr hholder) (hfree j)
  obtain ⟨row, hrow⟩ := h.settled hnone
  obtain rfl : prev = row := by
    rw [hr, hrow.inputs] at hget
    exact (Option.some.inj hget).symm
  exact ⟨h.guarded.enter (Locked.enter_eq_some.mpr ⟨hnone, rfl⟩) hr hrow, nofun⟩

theorem Tracked.leave (h : Tracked agentId first l) (hi : (l.phase i).Rotating agentId)
    (hp : ¬ p.Rotating agentId) (hs : Settled agentId first s) :
    Tracked agentId first (l.leave i p s) :=
  ⟨h.guarded.leave hi hp, fun _ ↦ hs⟩

omit [DecidableEq ι] in
theorem Tracked.knows (h : Tracked agentId first l) (hi : (l.phase i).Rotating agentId) :
    (l.phase i).Knows agentId first l.shared :=
  h.guarded.knows i ((h.guarded.inside_iff i).mp hi)

variable {row : ChecksumInputsRow}

theorem Standing.updateInputs_other {checksum last : String} {count : ℤ} (hr : r.agentId ≠ agentId)
    (version : ℤ)
    (h : Standing agentId first s checksum row last count) :
    Standing agentId first (s.updateInputs r version) checksum row last count := by
  have hwritten := h.updateInputs r version
  rwa [if_neg (Ne.symm hr)] at hwritten

theorem Standing.updateAgent_other {checksum last : String} {count : ℤ} (hr : r.agentId ≠ agentId)
    (h : Standing agentId first s checksum row last count) :
    Standing agentId first (s.updateAgent r) checksum row last count := by
  have hwritten := h.updateAgent r
  rwa [if_neg (Ne.symm hr)] at hwritten

theorem Tracked.step {w v : RotationWorld ι} {holder : Option ι} {e : RotationEvent ι}
    (h : Tracked agentId first ⟨w.records, holder, w.phase⟩) (hok : Undisturbed agentId w e)
    (hs : RotationStep P w e v) :
    ∃ holder, Tracked agentId first ⟨v.records, holder, v.phase⟩ := by
  cases hs with
  | quiet _ i p hi hp => exact ⟨_, h.move (hi.not_rotating agentId) (hp.not_rotating agentId)⟩
  | begin i r fromChecksum prev hphase hget =>
    by_cases hr : r.agentId = agentId
    · simp only [Undisturbed, hphase, RotationPhase.Calm] at hok
      exact ⟨_, h.enter (hok hr) hr hget⟩
    · have hi : ¬ (w.phase i).Rotating agentId := by
        rw [hphase]
        exact id
      exact ⟨_, h.move hi hr⟩
  | abandon i r fromChecksum prev error rejection hphase =>
    have hi : (w.phase i).Rotating agentId ↔ r.agentId = agentId := iff_of_eq (congrArg _ hphase)
    by_cases hr : r.agentId = agentId
    · have hknows := h.knows (hi.mpr hr)
      simp only [hphase] at hknows
      exact ⟨_, h.leave (hi.mpr hr) id ⟨prev, hknows⟩⟩
    · exact ⟨_, h.move (mt hi.mp hr) id⟩
  | writeInputs i r fromChecksum prev hphase =>
    have hi : (w.phase i).Rotating agentId ↔ r.agentId = agentId := iff_of_eq (congrArg _ hphase)
    by_cases hr : r.agentId = agentId
    · have hknows := h.knows (hi.mpr hr)
      simp only [hphase] at hknows
      have hwritten := Standing.updateInputs hknows r (prev.version + 1)
      rw [if_pos hr.symm] at hwritten
      exact ⟨_, h.write (hi.mpr hr) hr hwritten⟩
    · exact ⟨_, h.besides (mt hi.mp hr) hr (.updateInputs_other hr _)⟩
  | breakOff i r fromChecksum prev error rejection hphase =>
    have hi : (w.phase i).Rotating agentId ↔ r.agentId = agentId :=
      hphase.elim (fun h ↦ iff_of_eq (congrArg _ h)) (fun h ↦ iff_of_eq (congrArg _ h))
    have hr : r.agentId ≠ agentId := by
      intro hr
      rcases hphase with hphase | hphase <;> simp only [Undisturbed, hphase, RotationPhase.Calm] at hok <;>
        cases hok hr
    exact ⟨_, h.move (mt hi.mp hr) id⟩
  | writeAgent i r fromChecksum prev hphase =>
    have hi : (w.phase i).Rotating agentId ↔ r.agentId = agentId := iff_of_eq (congrArg _ hphase)
    by_cases hr : r.agentId = agentId
    · have hknows := h.knows (hi.mpr hr)
      simp only [hphase] at hknows
      have hwritten := Standing.updateAgent hknows r
      rw [if_pos hr.symm] at hwritten
      exact ⟨_, h.write (hi.mpr hr) hr hwritten⟩
    · exact ⟨_, h.besides (mt hi.mp hr) hr (.updateAgent_other hr)⟩
  | writeAudit i r fromChecksum prev hphase =>
    have hi : (w.phase i).Rotating agentId ↔ r.agentId = agentId := iff_of_eq (congrArg _ hphase)
    by_cases hr : r.agentId = agentId
    · have hknows := h.knows (hi.mpr hr)
      simp only [hphase] at hknows
      have hwritten := Standing.appendAudit hknows (r.auditRow P prev)
        (r.response fromChecksum prev) hr rfl hr
      rw [show prev.version - 1 + 1 = prev.version + 1 - 1 by omega] at hwritten
      exact ⟨_, h.leave (hi.mpr hr) id ⟨prev.rotate r (prev.version + 1), hwritten⟩⟩
    · exact ⟨_, h.besides (mt hi.mp hr) id (fun hst ↦ hst.appendAudit_other hr hr)⟩

end Tracked

/-! ### Requests that are refused -/

def RotationPhase.Worked (agentId : String) : RotationPhase → Prop
  | updatingAgent r _ _ | appendingAudit r _ _ => r.agentId = agentId
  | finished (.ok _) => True
  | idle | findingOwner _ | readingPrevious _ | readingInputs _ _ | updatingInputs _ _ _
  | finished (.error _) => False

def Clean (agentId : String) (w : RotationWorld ι) : Prop :=
  ∀ i, (i, agentId) ∈ w.wrote → (w.phase i).Worked agentId

section Clean

variable {agentId : String} {w : RotationWorld ι} {i : ι} {r : Rotation} {p : RotationPhase}
  {records : ChecksumRecords}

theorem Clean.move (h : Clean agentId w) (hi : ¬ (w.phase i).Worked agentId) :
    Clean agentId (w.move i p) := by
  intro j hj
  have hne : j ≠ i := by
    rintro rfl
    exact hi (h j hj)
  simpa [RotationWorld.move, hne] using h j hj

theorem Clean.write (h : Clean agentId w)
    (hp : (w.phase i).Worked agentId ∨ r.agentId = agentId → p.Worked agentId) :
    Clean agentId (w.write i r p records) := by
  intro j hj
  simp only [RotationWorld.write, List.mem_append, List.mem_singleton, Prod.mk.injEq] at hj
  by_cases hne : j = i
  · subst hne
    simp only [RotationWorld.write, Function.update_self]
    exact hp (hj.imp (h j) (fun hj ↦ hj.2.symm))
  · simpa [RotationWorld.write, hne] using h j (hj.resolve_right (fun hj ↦ hne hj.1))

theorem RotationPhase.Early.not_worked (h : p.Early) (agentId : String) :
    ¬ p.Worked agentId := by
  cases p with
  | finished answer => cases answer <;> first | exact id | exact absurd h id
  | _ => first | exact id | exact absurd h id

theorem Clean.step {P : Primitives} {v : RotationWorld ι} {e : RotationEvent ι}
    (h : Clean agentId w) (hok : Undisturbed agentId w e) (hs : RotationStep P w e v) :
    Clean agentId v := by
  cases hs with
  | quiet _ i p hi hp => exact h.move (hi.not_worked agentId)
  | begin i r fromChecksum prev hphase _ => exact h.move (by rw [hphase]; exact id)
  | abandon i r fromChecksum prev error rejection hphase =>
    exact h.move (by rw [hphase]; exact id)
  | writeInputs i r fromChecksum prev hphase =>
    refine h.write (fun hr ↦ hr.resolve_left ?_)
    rw [hphase]
    exact id
  | breakOff i r fromChecksum prev error rejection hphase =>
    refine h.move (fun hi ↦ ?_)
    rcases hphase with hphase | hphase <;> rw [hphase] at hi <;>
      simp only [Undisturbed, hphase, RotationPhase.Calm] at hok <;> cases hok hi
  | writeAgent i r fromChecksum prev hphase =>
    refine h.write (fun hr ↦ hr.elim (fun hi ↦ ?_) id)
    rwa [hphase] at hi
  | writeAudit i r fromChecksum prev hphase => exact h.write (fun _ ↦ trivial)

end Clean

/-! ### Whole runs -/

structure Registered (agentId first : String) (w : RotationWorld ι) : Prop where
  idle : w.phase = fun _ ↦ .idle
  agent : (w.records.agents.get agentId).map AgentRecord.agentChecksum = some first
  inputs : ∃ row, w.records.inputs.get agentId = some row ∧ row.computedChecksum = first ∧
    row.version = 1
  trail : w.records.trail agentId = []
  rotations : w.records.rotations agentId = []
  wrote : w.wrote = []

def RotationWorld.start (t : Registry C) : RotationWorld ι :=
  ⟨⟨t.agents, t.checksumInputs, [], []⟩, fun _ ↦ .idle, []⟩

omit [DecidableEq ι] in
theorem registered_of_persistAgent {H : Host C} {row : AgentRecord} {kind canonical : String}
    {s t : Registry C} (h : persistAgent H (some (kind, canonical)) row s = (.ok (), t)) :
    Registered row.agentId row.agentChecksum (RotationWorld.start t : RotationWorld ι) where
  idle := rfl
  agent := by
    have hget := Table.get_insert (persistAgent_agents h) row.agentId
    rw [if_pos rfl] at hget
    exact congrArg (Option.map AgentRecord.agentChecksum) hget
  inputs := by
    unfold persistAgent at h
    cases hagents : insertAgent s.agents row with
    | error e => simp [hagents] at h
    | ok agents =>
      simp only [hagents] at h
      split at h
      · cases (Prod.mk.inj h).1
      · rename_i rows hrows
        have hget := Table.get_insert hrows row.agentId
        rw [if_pos rfl] at hget
        cases h
        exact ⟨_, hget, rfl, rfl⟩
  trail := rfl
  rotations := rfl
  wrote := rfl

omit [DecidableEq ι] in
theorem Registered.tracked {w : RotationWorld ι} (h : Registered agentId first w) :
    Tracked agentId first ⟨w.records, none, w.phase⟩ where
  guarded := by
    rw [h.idle]
    exact Locked.guarded_init id
  settled _ := by
    obtain ⟨row, hget, rfl, hversion⟩ := h.inputs
    refine ⟨row, h.agent, hget, ?_, ?_⟩
    · rw [h.trail]
      rfl
    · rw [h.rotations, hversion]
      rfl

omit [DecidableEq ι] in
/-- Between two writes of a rotation, and only there, the records may disagree. -/
theorem Tracked.settled_of_not_writing {l : Locked ι RotationPhase ChecksumRecords}
    (h : Tracked agentId first l)
    (hrest : ∀ i, ¬ (l.phase i).Writing agentId) : Settled agentId first l.shared := by
  cases hholder : l.holder with
  | none => exact h.settled hholder
  | some i =>
    have hi := (h.guarded.inside_iff i).mpr hholder
    have hknows := h.knows hi
    cases hphase : l.phase i with
    | updatingInputs r fromChecksum prev =>
      rw [hphase] at hknows
      exact ⟨prev, hknows⟩
    | updatingAgent | appendingAudit =>
      rw [hphase] at hi
      exact absurd (by rwa [hphase]) (hrest i)
    | idle | findingOwner | readingPrevious | readingInputs | finished =>
      rw [hphase] at hi
      exact absurd hi id

/-- The three checksums are the same one, the audit trail leads to it from the one
the agent was registered with, and the version counts the rotations. -/
def ChecksumRecords.Agree (s : ChecksumRecords) (agentId first : String) : Prop :=
  ∃ agent row, s.agents.get agentId = some agent ∧ s.inputs.get agentId = some row ∧
    agent.agentChecksum = row.computedChecksum ∧
    (∀ last ∈ (s.trail agentId).getLast?, last.toChecksum = row.computedChecksum) ∧
    Follows first (s.trail agentId) row.computedChecksum ∧
    row.version = (s.rotations agentId).length + 1

variable {s : ChecksumRecords}

theorem Settled.agree (h : Settled agentId first s) : s.Agree agentId first := by
  obtain ⟨row, hagent, hinputs, htrail, hcount⟩ := h
  obtain ⟨agent, hget, hchecksum⟩ := Option.map_eq_some_iff.mp hagent
  exact ⟨agent, row, hget, hinputs, hchecksum, htrail.getLast, htrail, by omega⟩

/-- In a run in which no rotation is disturbed the records of the agent agree
whenever no request is between its writes, and who is refused has written
nothing. -/
theorem undisturbed_rotations_agree {H : Host C} {agentId first : String} {w v : RotationWorld ι}
    {es : List (RotationEvent ι)} (hstart : Registered agentId first w)
    (hok : Along (nextRotation H) (Undisturbed agentId) w es)
    (hrun : run (nextRotation H) w es = some v) :
    ((∀ i, ¬ (v.phase i).Writing agentId) → v.records.Agree agentId first) ∧
      ∀ i rejection, v.phase i = .finished (.error rejection) → (i, agentId) ∉ v.wrote := by
  have hinv : (∃ holder, Tracked agentId first ⟨v.records, holder, v.phase⟩) ∧
      Clean agentId v := by
    refine run_invariant (I := fun w : RotationWorld ι ↦
      (∃ holder, Tracked agentId first ⟨w.records, holder, w.phase⟩) ∧ Clean agentId w)
      ?_ ⟨⟨none, hstart.tracked⟩, ?_⟩ hok hrun
    · rintro s e t ⟨⟨holder, htracked⟩, hclean⟩ he hst
      have hstep := step_of_nextRotation hst
      exact ⟨htracked.step he hstep, hclean.step he hstep⟩
    · intro i hi
      rw [hstart.wrote] at hi
      cases hi
  obtain ⟨⟨holder, htracked⟩, hclean⟩ := hinv
  refine ⟨fun hrest ↦ (htracked.settled_of_not_writing hrest).agree,
    fun i rejection hphase hwrote ↦ ?_⟩
  have hworked := hclean i hwrote
  rw [hphase] at hworked
  exact hworked

/-! ### A small deployment -/

instance (agentId : String) : (p : RotationPhase) → Decidable (p.Rotating agentId)
  | .updatingInputs r _ _ | .updatingAgent r _ _ | .appendingAudit r _ _ =>
    inferInstanceAs (Decidable (r.agentId = agentId))
  | .idle | .findingOwner _ | .readingPrevious _ | .readingInputs _ _ | .finished _ =>
    inferInstanceAs (Decidable False)

instance (agentId : String) : (p : RotationPhase) → Decidable (p.Writing agentId)
  | .updatingAgent r _ _ | .appendingAudit r _ _ =>
    inferInstanceAs (Decidable (r.agentId = agentId))
  | .idle | .findingOwner _ | .readingPrevious _ | .readingInputs _ _ | .updatingInputs _ _ _
  | .finished _ => inferInstanceAs (Decidable False)

instance (agentId : String) (free : Prop) [Decidable free] (fault : Option String) :
    (p : RotationPhase) → Decidable (p.Calm agentId free fault)
  | .readingInputs r _ => inferInstanceAs (Decidable (r.agentId = agentId → free))
  | .updatingAgent r _ _ | .appendingAudit r _ _ =>
    inferInstanceAs (Decidable (r.agentId = agentId → fault = none))
  | .idle | .findingOwner _ | .readingPrevious _ | .updatingInputs _ _ _ | .finished _ =>
    inferInstanceAs (Decidable True)

instance [Fintype ι] (agentId : String) (w : RotationWorld ι) :
    (e : RotationEvent ι) → Decidable (Undisturbed agentId w e)
  | .arrive _ _ => inferInstanceAs (Decidable True)
  | .advance i fault => inferInstanceAs (Decidable
      ((w.phase i).Calm agentId (∀ j, ¬ (w.phase j).Rotating agentId) fault))

def typedAgent : AgentRecord :=
  newAgentRecord (demoCall 3600) demoOwner "sha256:00" "" none (none, 0)

def typedRegistry : Registry openCurve :=
  (persistAgent demoHost (some ("custom", "")) typedAgent demoRegistry).2

def rotateCall (agentType : String) : ChecksumUpdateCall :=
  ⟨"acme", typedAgent.agentId, some demoSession,
    ⟨agentType, .obj [("image_sha", .str "1")], "upgrade"⟩, 10, 10⟩

def statements (i : ι) (agentType : String) (n : ℕ) (fault : Option String) :
    List (RotationEvent ι) :=
  .arrive i (rotateCall agentType) :: List.replicate n (.advance i none) ++
    (fault.map (fun e ↦ .advance i (some e))).toList

theorem registered_typedAgent :
    Registered typedAgent.agentId "sha256:00"
      (RotationWorld.start typedRegistry : RotationWorld Bool) :=
  registered_of_persistAgent (H := demoHost) (s := demoRegistry) (Prod.ext (by decide +kernel) rfl)

def calmEvents : List (RotationEvent Bool) :=
  statements false "rule_bot" 6 none ++ statements true "custom" 3 (some "disk full")

theorem calm_rotations_agree :
    ∃ v, run (nextRotation demoHost) (RotationWorld.start typedRegistry) calmEvents = some v ∧
      v.records.Agree typedAgent.agentId "sha256:00" ∧
      ∀ i rejection, v.phase i = .finished (.error rejection) →
        (i, typedAgent.agentId) ∉ v.wrote := by
  obtain ⟨v, hv, hrest⟩ : ∃ v, run (nextRotation demoHost) (RotationWorld.start typedRegistry)
      calmEvents = some v ∧ ∀ i, ¬ (v.phase i).Writing typedAgent.agentId := by
    decide +kernel
  have hagree := undisturbed_rotations_agree registered_typedAgent (by decide +kernel) hv
  exact ⟨v, hv, hagree.1 hrest, hagree.2⟩

theorem ChecksumRecords.Agree.checksum (h : s.Agree agentId first) :
    (s.agents.get agentId).map AgentRecord.agentChecksum =
      (s.inputs.get agentId).map ChecksumInputsRow.computedChecksum := by
  obtain ⟨agent, row, hagent, hrow, hchecksum, -⟩ := h
  rw [hagent, hrow, Option.map_some, Option.map_some, hchecksum]

theorem ChecksumRecords.Agree.version (h : s.Agree agentId first) :
    (s.inputs.get agentId).map ChecksumInputsRow.version =
      some ((s.rotations agentId).length + 1 : ℤ) := by
  obtain ⟨agent, row, -, hrow, -, -, -, hversion⟩ := h
  rw [hrow, Option.map_some, hversion]

def tornEvents : List (RotationEvent Bool) := statements false "rule_bot" 4 (some "disk full")

def racedEvents : List (RotationEvent Bool) :=
  statements false "rule_bot" 3 none ++ statements true "custom" 3 none ++
    List.replicate 3 (.advance false none) ++ List.replicate 3 (.advance true none)

/-- A rotation that is refused has changed the inputs and not the agent. Two
rotations that are both answered with success count as one. -/
theorem torn_and_raced_rotations :
    (∃ v, run (nextRotation demoHost) (RotationWorld.start typedRegistry) tornEvents = some v ∧
      v.phase false =
        .finished (.error ⟨500, "update agents.agent_checksum: disk full"⟩) ∧
      (false, typedAgent.agentId) ∈ v.wrote ∧ ¬ v.records.Agree typedAgent.agentId "sha256:00") ∧
    ∃ v, run (nextRotation demoHost) (RotationWorld.start typedRegistry) racedEvents = some v ∧
      (v.records.rotations typedAgent.agentId).length = 2 ∧
      (v.records.inputs.get typedAgent.agentId).map ChecksumInputsRow.version = some 2 ∧
      ¬ v.records.Agree typedAgent.agentId "sha256:00" := by
  obtain ⟨v, hv, hrefused, hwrote, hdiffer⟩ : ∃ v, run (nextRotation demoHost)
      (RotationWorld.start typedRegistry) tornEvents = some v ∧
      v.phase false = .finished (.error ⟨500, "update agents.agent_checksum: disk full"⟩) ∧
      (false, typedAgent.agentId) ∈ v.wrote ∧
      (v.records.agents.get typedAgent.agentId).map AgentRecord.agentChecksum ≠
        (v.records.inputs.get typedAgent.agentId).map ChecksumInputsRow.computedChecksum := by
    decide +kernel
  obtain ⟨u, hu, htwo, hversion⟩ : ∃ u, run (nextRotation demoHost)
      (RotationWorld.start typedRegistry) racedEvents = some u ∧
      (u.records.rotations typedAgent.agentId).length = 2 ∧
      (u.records.inputs.get typedAgent.agentId).map ChecksumInputsRow.version = some 2 := by
    decide +kernel
  refine ⟨⟨v, hv, hrefused, hwrote, fun h ↦ hdiffer h.checksum⟩, u, hu, htwo, hversion, fun h ↦ ?_⟩
  have hcount := h.version
  rw [hversion, htwo] at hcount
  exact absurd (Option.some.inj hcount) (by decide)

end SauronId.Agent
