import SauronId.CryptoProtocol
import SauronId.Lib.HashChain
import SauronId.Lib.Joined
import SauronId.Lib.Table
import SauronId.Lib.Text

namespace SauronId.Audit

open CryptoProtocol Lib Lib.Encoding Lib.HashChain Lib.Joined

/-- A row of `security_audit_log`. Rows written before the chain existed have no
position, and in a log created by the sink itself the two hashes may be `NULL`. -/
structure LogRow where
  (auditId tenantId eventType eventJson : String)
  timestamp : ℤ
  seq : Option ℤ
  (prevHash entryHash : Option String)
  deriving DecidableEq

abbrev LogTable := Table LogRow.auditId

structure Entry where
  seq : ℤ
  (prevHash entryHash auditId tenantId eventType eventJson : String)
  timestamp : ℤ

def Entry.toRow (e : Entry) : LogRow :=
  ⟨e.auditId, e.tenantId, e.eventType, e.eventJson, e.timestamp, some e.seq, some e.prevHash,
    some e.entryHash⟩

def column {α : Type} (index : ℕ) (name : String) : Option α → Except String α
  | some value => .ok value
  | none => .error ("Invalid column type Null at index: " ++ toString index ++ ", name: " ++ name)

def LogRow.get (r : LogRow) : Except String Entry := do
  let seq ← column 0 "seq" r.seq
  let prevHash ← column 1 "prev_hash" r.prevHash
  let entryHash ← column 2 "entry_hash" r.entryHash
  return ⟨seq, prevHash, entryHash, r.auditId, r.tenantId, r.eventType, r.eventJson, r.timestamp⟩

def auditHmacKey (env : Option String) : List UInt8 :=
  match env with
  | some v => if Text.trim v ≠ "" then bytes v else bytes "SAURON_DEV_AUDIT_HMAC_KEY_v1"
  | none => bytes "SAURON_DEV_AUDIT_HMAC_KEY_v1"

def entryMessage (seq : ℤ) (prevHash auditId tenantId eventType eventJson : String)
    (timestamp : ℤ) : String :=
  toString seq ++ "|" ++ prevHash ++ "|" ++ auditId ++ "|" ++ tenantId ++ "|" ++ eventType ++ "|" ++
    eventJson ++ "|" ++ toString timestamp

def computeEntryHash (P : Primitives) (key : List UInt8) (seq : ℤ)
    (prevHash auditId tenantId eventType eventJson : String) (timestamp : ℤ) : String :=
  hexEncode (P.hmacSha256 key
    (bytes (entryMessage seq prevHash auditId tenantId eventType eventJson timestamp)))

def Entry.computeHash (P : Primitives) (key : List UInt8) (e : Entry) : String :=
  computeEntryHash P key e.seq e.prevHash e.auditId e.tenantId e.eventType e.eventJson e.timestamp

def chainedRows (scan : Scan LogRow) (t : LogTable) : List LogRow :=
  scan.select (fun r ↦ r.seq.isSome) (fun r ↦ r.seq.getD 0) t.rows

def verifyLoop (P : Primitives) (key : List UInt8) :
    List LogRow → (expectedSeq : ℤ) → (prev : String) → (count : ℕ) → Except String ℕ
  | [], _, _, count => .ok count
  | row :: rows, expectedSeq, prev, count =>
    match row.get with
    | .error e => .error ("row: " ++ e)
    | .ok e =>
      if e.seq ≠ expectedSeq then
        .error ("seq gap: expected " ++ toString expectedSeq ++ ", got " ++ toString e.seq ++
          " (row deleted/reordered)")
      else if e.prevHash ≠ prev then
        .error ("prev_hash mismatch at seq " ++ toString e.seq ++ " (chain broken)")
      else if e.computeHash P key ≠ e.entryHash then
        .error ("entry_hash mismatch at seq " ++ toString e.seq ++ " (row tampered)")
      else verifyLoop P key rows (expectedSeq + 1) e.entryHash (count + 1)

def verifyAuditChain (P : Primitives) (key : List UInt8) (scan : Scan LogRow) (t : LogTable) :
    Except String ℕ :=
  verifyLoop P key (chainedRows scan t) 1 "genesis" 0

def links (P : Primitives) (key : List UInt8) : Links Entry String where
  seq := Entry.seq
  prev := Entry.prevHash
  hash e := if e.computeHash P key = e.entryHash then some e.entryHash else none

variable {P : Primitives} {key : List UInt8} {scan scan' : Scan LogRow} {t u : LogTable}

theorem column_eq_ok {α : Type} {index : ℕ} {name : String} {value : Option α} {a : α} :
    column index name value = .ok a ↔ value = some a := by
  cases value <;> simp [column]

variable {e : Entry}

theorem get_eq_ok {r : LogRow} : r.get = .ok e ↔ r = e.toRow := by
  rcases r with ⟨_, _, _, _, _, seq, prevHash, entryHash⟩
  simp only [LogRow.get, bind_eq_ok, column_eq_ok, pure, Except.pure, Except.ok.injEq]
  constructor
  · rintro ⟨n, rfl, p, rfl, h, rfl, rfl⟩
    rfl
  · intro hr
    simp only [Entry.toRow, LogRow.mk.injEq] at hr
    obtain ⟨rfl, rfl, rfl, rfl, rfl, rfl, rfl, rfl⟩ := hr
    exact ⟨_, rfl, _, rfl, _, rfl, rfl⟩

theorem toRow_injective : Function.Injective Entry.toRow := by
  intro d e h
  exact Except.ok.inj ((get_eq_ok.mpr rfl).symm.trans (get_eq_ok.mpr h))

theorem links_hash_eq_some {h : String} :
    (links P key).hash e = some h ↔ e.computeHash P key = e.entryHash ∧ e.entryHash = h := by
  simp [links]

theorem exists_entries_cons {row : LogRow} {rows : List LogRow} (hget : row.get = .ok e) {n : ℤ}
    {p : String} :
    (∃ es : List Entry, row :: rows = es.map Entry.toRow ∧ (links P key).Linked n p es) ↔
      (e.seq = n ∧ e.prevHash = p ∧ e.computeHash P key = e.entryHash) ∧
        ∃ es : List Entry, rows = es.map Entry.toRow ∧
          (links P key).Linked (n + 1) e.entryHash es := by
  obtain rfl := get_eq_ok.mp hget
  constructor
  · rintro ⟨_ | ⟨d, es⟩, hes, hl⟩
    · cases hes
    · obtain ⟨hd, htail⟩ := List.cons.inj hes
      obtain rfl := toRow_injective hd
      obtain ⟨hseq, hprev, h, hh, hl⟩ := hl
      obtain ⟨hcomp, rfl⟩ := links_hash_eq_some.mp hh
      exact ⟨⟨hseq, hprev, hcomp⟩, es, htail, hl⟩
  · rintro ⟨⟨hseq, hprev, hcomp⟩, es, rfl, hl⟩
    exact ⟨e :: es, rfl, hseq, hprev, e.entryHash, links_hash_eq_some.mpr ⟨hcomp, rfl⟩, hl⟩

theorem verifyLoop_eq_ok {rows : List LogRow} {n : ℤ} {p : String} {c k : ℕ} :
    verifyLoop P key rows n p c = .ok k ↔
      (∃ es : List Entry, rows = es.map Entry.toRow ∧ (links P key).Linked n p es) ∧
        k = c + rows.length := by
  induction rows generalizing n p c with
  | nil => simp [verifyLoop, Links.Linked, eq_comm]
  | cons row rows ih =>
    cases hget : row.get with
    | error msg =>
      simp only [verifyLoop, hget, reduceCtorEq, false_iff, not_and]
      rintro ⟨_ | ⟨e, es⟩, hes, -⟩
      · cases hes
      · rw [get_eq_ok.mpr (List.cons.inj hes).1] at hget
        cases hget
    | ok e =>
      have hk : k = c + (row :: rows).length ↔ k = c + 1 + rows.length := by
        rw [List.length_cons]
        omega
      rw [exists_entries_cons hget, hk]
      simp only [verifyLoop, hget]
      by_cases hseq : e.seq = n
      · by_cases hprev : e.prevHash = p
        · by_cases hcomp : e.computeHash P key = e.entryHash
          · simp [hseq, hprev, hcomp, ih]
          · simp [hseq, hprev, hcomp]
        · simp [hseq, hprev]
      · simp [hseq]

/-- What the verifier checks: every chained row can be read, the rows are linked
from position 1 and the word `genesis`, and the count is how many there are. -/
theorem verifyAuditChain_eq_ok {k : ℕ} :
    verifyAuditChain P key scan t = .ok k ↔
      ∃ es : List Entry, chainedRows scan t = es.map Entry.toRow ∧
        (links P key).Linked 1 "genesis" es ∧ k = es.length := by
  simp only [verifyAuditChain, verifyLoop_eq_ok, zero_add]
  constructor
  · rintro ⟨⟨es, hes, hl⟩, rfl⟩
    exact ⟨es, hes, hl, by rw [hes, List.length_map]⟩
  · rintro ⟨es, hes, hl, rfl⟩
    exact ⟨⟨es, hes, hl⟩, by rw [hes, List.length_map]⟩

/-! ### What the hashed message determines -/

theorem bar_notMem_int (n : ℤ) : '|' ∉ (toString n).toList := by
  intro h
  rcases mem_toString_int h with hd | hd
  · exact absurd hd (by decide)
  · exact absurd hd (by decide)

theorem bar_notMem_hexEncode (bs : List UInt8) : '|' ∉ (hexEncode bs).toList := by
  intro h
  obtain ⟨d, hd, he⟩ := mem_hexEncode h
  have hall : ∀ d < 16, '|' ≠ Nat.digitChar d := by decide
  exact hall d hd he

theorem bar_notMem_prevHash {es : List Entry} (h : (links P key).Linked 1 "genesis" es)
    (he : e ∈ es) : '|' ∉ e.prevHash.toList := by
  rcases h.prev_eq he with hfirst | ⟨d, -, hd⟩
  · rw [show e.prevHash = "genesis" from hfirst]
    decide
  · obtain ⟨hcomp, hprev⟩ := links_hash_eq_some.mp hd
    rw [show e.prevHash = d.computeHash P key from hprev.symm.trans hcomp.symm]
    exact bar_notMem_hexEncode _

def Entry.body (e : Entry) : List Char :=
  e.auditId.toList ++ '|' :: (e.tenantId.toList ++ '|' :: (e.eventType.toList ++
    '|' :: e.eventJson.toList))

theorem entryMessage_toList (e : Entry) :
    (entryMessage e.seq e.prevHash e.auditId e.tenantId e.eventType e.eventJson
        e.timestamp).toList =
      (toString e.seq).toList ++ '|' :: (e.prevHash.toList ++ '|' ::
        (e.body ++ '|' :: (toString e.timestamp).toList)) := by
  have hbar : "|".toList = ['|'] := rfl
  simp only [entryMessage, Entry.body, String.toList_append, hbar, List.append_assoc,
    List.cons_append, List.nil_append]

def Entry.sealed (e : Entry) : ℤ × String × List Char × ℤ × String :=
  (e.seq, e.prevHash, e.body, e.timestamp, e.entryHash)

theorem sealed_eq_of_hash (hmac : Function.Injective (P.hmacSha256 key)) {d e : Entry}
    (hd : '|' ∉ d.prevHash.toList) (he : '|' ∉ e.prevHash.toList) {h : String}
    (hhd : (links P key).hash d = some h) (hhe : (links P key).hash e = some h) :
    d.sealed = e.sealed := by
  obtain ⟨hcd, hed⟩ := links_hash_eq_some.mp hhd
  obtain ⟨hce, hee⟩ := links_hash_eq_some.mp hhe
  have hmsg := bytes_injective (hmac (hexEncode_injective
    ((hcd.trans (hed.trans hee.symm)).trans hce.symm)))
  replace hmsg := congrArg String.toList hmsg
  rw [entryMessage_toList, entryMessage_toList] at hmsg
  -- the position and the previous hash are split off in front, the time at the end
  obtain ⟨hseq, hmsg⟩ := append_sep_inj
    (by rw [List.count_eq_zero.mpr (bar_notMem_int _), List.count_eq_zero.mpr (bar_notMem_int _)])
    hmsg
  obtain ⟨hprev, hmsg⟩ := append_sep_inj
    (by rw [List.count_eq_zero.mpr hd, List.count_eq_zero.mpr he]) hmsg
  obtain ⟨hbody, htime⟩ := append_sep_inj_right (bar_notMem_int _) (bar_notMem_int _) hmsg
  simp only [Entry.sealed, Prod.mk.injEq]
  exact ⟨toString_int_injective (String.toList_inj.mp hseq), String.toList_inj.mp hprev, hbody,
    toString_int_injective (String.toList_inj.mp htime), hed.trans hee.symm⟩

/-- Two rows hold the separator equally often in each of the three texts that
are joined in front of another text. -/
structure SameBars (r s : LogRow) : Prop where
  auditId : occurrences '|' r.auditId = occurrences '|' s.auditId
  tenantId : occurrences '|' r.tenantId = occurrences '|' s.tenantId
  eventType : occurrences '|' r.eventType = occurrences '|' s.eventType

instance (r s : LogRow) : Decidable (SameBars r s) :=
  decidable_of_iff (occurrences '|' r.auditId = occurrences '|' s.auditId ∧
    occurrences '|' r.tenantId = occurrences '|' s.tenantId ∧
    occurrences '|' r.eventType = occurrences '|' s.eventType)
    ⟨fun h ↦ ⟨h.1, h.2.1, h.2.2⟩, fun h ↦ ⟨h.1, h.2, h.3⟩⟩

theorem eq_of_sealed {d e : Entry} (h : d.sealed = e.sealed) (hbars : SameBars d.toRow e.toRow) :
    d = e := by
  rcases d with ⟨seq, prevHash, entryHash, auditId, tenantId, eventType, eventJson, timestamp⟩
  rcases e with ⟨seq', prevHash', entryHash', auditId', tenantId', eventType', eventJson',
    timestamp'⟩
  simp only [Entry.sealed, Prod.mk.injEq, Entry.body] at h
  obtain ⟨rfl, rfl, hbody, rfl, rfl⟩ := h
  obtain ⟨hid, hbody⟩ := append_sep_inj hbars.auditId hbody
  obtain ⟨htenant, hbody⟩ := append_sep_inj hbars.tenantId hbody
  obtain ⟨htype, hjson⟩ := append_sep_inj hbars.eventType hbody
  obtain rfl : auditId = auditId' := String.toList_inj.mp hid
  obtain rfl : tenantId = tenantId' := String.toList_inj.mp htenant
  obtain rfl : eventType = eventType' := String.toList_inj.mp htype
  obtain rfl : eventJson = eventJson' := String.toList_inj.mp hjson
  rfl

theorem eq_of_map_sealed {ds es : List Entry} (h : ds.map Entry.sealed = es.map Entry.sealed)
    (hbars : List.Forall₂ SameBars (ds.map Entry.toRow) (es.map Entry.toRow)) : ds = es := by
  induction ds generalizing es with
  | nil =>
    cases es with
    | nil => rfl
    | cons e es => cases h
  | cons d ds ih =>
    cases es with
    | nil => cases h
    | cons e es =>
      obtain ⟨hd, ht⟩ := List.cons.inj h
      obtain ⟨hb, hbs⟩ := List.forall₂_cons.mp hbars
      rw [eq_of_sealed hd hb, ih ht hbs]

theorem map_sealed_of_verified (hmac : Function.Injective (P.hmacSha256 key)) {ds es : List Entry}
    (hds : (links P key).Linked 1 "genesis" ds) (hes : (links P key).Linked 1 "genesis" es)
    (hlen : ds.length = es.length)
    (hlast : (ds.map Entry.toRow).getLast?.map LogRow.entryHash =
      (es.map Entry.toRow).getLast?.map LogRow.entryHash) :
    ds.map Entry.sealed = es.map Entry.sealed := by
  refine Links.Linked.agree (fun d hd e he h ↦ ?_) (fun d e h ↦ (Prod.mk.inj (Prod.mk.inj h).2).1)
    hds hes hlen ?_
  · exact sealed_eq_of_hash hmac (bar_notMem_prevHash hds hd) (bar_notMem_prevHash hes he)
  · -- in a linked chain the stored hash of the last row is the chain's tip
    have htip : ∀ l : List Entry, (links P key).Linked 1 "genesis" l →
        (links P key).tip "genesis" l =
          ((l.map Entry.toRow).getLast?.map LogRow.entryHash).getD (some "genesis") := by
      intro l hl
      cases l using List.reverseRecOn with
      | nil => rfl
      | append_singleton l e =>
        obtain ⟨-, -, -, hsome⟩ := Links.linked_concat.mp hl
        obtain ⟨h, hh⟩ := Option.isSome_iff_exists.mp hsome
        rw [Links.tip_concat, hh, ← (links_hash_eq_some.mp hh).2]
        simp [Entry.toRow]
    rw [htip ds hds, htip es hes, hlast]

theorem forall₂_sameBars_self (rows : List LogRow) : List.Forall₂ SameBars rows rows :=
  List.forall₂_same.mpr (fun _ _ ↦ ⟨rfl, rfl, rfl⟩)

/-- The chain commits to every row up to the places where the joined texts are
cut: two verified logs with one head hold the same rows exactly when their rows
hold the separator equally often, field by field. -/
theorem verified_logs_eq_iff (hmac : Function.Injective (P.hmacSha256 key)) {n : ℕ}
    (ht : verifyAuditChain P key scan t = .ok n) (hu : verifyAuditChain P key scan' u = .ok n)
    (hlast : (chainedRows scan t).getLast?.map LogRow.entryHash =
      (chainedRows scan' u).getLast?.map LogRow.entryHash) :
    chainedRows scan t = chainedRows scan' u ↔
      List.Forall₂ SameBars (chainedRows scan t) (chainedRows scan' u) := by
  obtain ⟨ds, hds, hlt, hnt⟩ := verifyAuditChain_eq_ok.mp ht
  obtain ⟨es, hes, hlu, hnu⟩ := verifyAuditChain_eq_ok.mp hu
  constructor
  · intro h
    rw [h]
    exact forall₂_sameBars_self _
  · intro hbars
    rw [hds, hes] at hbars hlast ⊢
    rw [eq_of_map_sealed (map_sealed_of_verified hmac hlt hlu (hnt.symm.trans hnu) hlast) hbars]

def Entry.signed (P : Primitives) (key : List UInt8) (e : Entry) : Entry :=
  { e with entryHash := e.computeHash P key }

def loginEntry (tenantId eventType : String) : Entry :=
  Entry.signed countingPrimitives (auditHmacKey none)
    ⟨1, "genesis", "", "0a", tenantId, eventType, "x", 10⟩

def logoutEntry (first : Entry) : Entry :=
  Entry.signed countingPrimitives (auditHmacKey none)
    ⟨2, first.entryHash, "", "0b", "acme", "logout", "y", 11⟩

def oneEntry (e : Entry) : LogTable := ⟨[e.toRow], List.nodup_singleton _⟩

def twoEntries (d e : Entry) (h : d.auditId ≠ e.auditId) : LogTable where
  rows := [d.toRow, e.toRow]
  nodup := by simpa [Entry.toRow] using h

/-- The same two rows stored in either order. -/
theorem verified_logs_eq_iff_two :
    chainedRows .stored (twoEntries (loginEntry "acme" "login")
        (logoutEntry (loginEntry "acme" "login")) (by decide)) =
      chainedRows .stored (twoEntries (logoutEntry (loginEntry "acme" "login"))
        (loginEntry "acme" "login") (by decide)) := by
  have hmac : Function.Injective (countingPrimitives.hmacSha256 (auditHmacKey none)) :=
    fun _ _ h ↦ h
  refine (verified_logs_eq_iff hmac (n := 2) ?_ ?_ ?_).mpr ?_
  · decide +kernel
  · decide +kernel
  · decide +kernel
  · decide +kernel

/-- Moving the text behind a bar from the tenant to the event type keeps the
hashed message, and with it the verified chain and its head. -/
theorem moved_bar_unnoticed :
    Function.Injective (countingPrimitives.hmacSha256 (auditHmacKey none)) ∧
    verifyAuditChain countingPrimitives (auditHmacKey none) .stored
      (oneEntry (loginEntry "a|b" "c")) = .ok 1 ∧
    verifyAuditChain countingPrimitives (auditHmacKey none) .stored
      (oneEntry (loginEntry "a" "b|c")) = .ok 1 ∧
    (chainedRows .stored (oneEntry (loginEntry "a|b" "c"))).getLast?.map LogRow.entryHash =
      (chainedRows .stored (oneEntry (loginEntry "a" "b|c"))).getLast?.map LogRow.entryHash ∧
    chainedRows .stored (oneEntry (loginEntry "a|b" "c")) ≠
      chainedRows .stored (oneEntry (loginEntry "a" "b|c")) := by
  refine ⟨fun _ _ h ↦ h, ?_⟩
  decide +kernel

end SauronId.Audit
