import SauronId.Expression.Grammar

namespace SauronId.Expression

open Lib Lib.Descent

variable {ν : Type}

namespace Level

def rank : Level → ℕ
  | .primary => 0
  | .unary => 1
  | .add => 2
  | .cmp => 3
  | .not => 4
  | .and => 5
  | .or => 6

def inner : Level → Level
  | .or => .and
  | .and => .not
  | .add => .unary
  | l => l

theorem rank_inner_le (l : Level) : l.inner.rank ≤ l.rank := by
  cases l <;> decide

end Level

def joins : Token ν → Option ℕ
  | .lparen | .colon => some 0
  | .op .add | .op .sub => some 2
  | .op o => if isCmp o = true then some 3 else none
  | .in_ => some 3
  | .and => some 5
  | .or => some 6
  | _ => none

def starts : Token ν → Option ℕ
  | .num _ | .str _ | .true_ | .false_ | .lparen | .lbracket | .ident _ => some 0
  | .op .sub => some 1
  | .not => some 4
  | _ => none

/-- No token follows that would go on with an expression of the level. -/
def Ends (l : Level) (rest : Tokens ν) : Prop :=
  StopsAt (fun t ↦ (joins t.token).any (fun r ↦ r ≤ l.rank)) rest

theorem Ends.mono {l m : Level} {rest : Tokens ν} (h : Ends l rest) (hlm : m.rank ≤ l.rank) :
    Ends m rest := by
  intro t ht
  have hl := h t ht
  cases hj : joins t.token with
  | none => simp only [hj, Option.any_none]
  | some r =>
    simp only [hj, Option.any_some, decide_eq_false_iff_not] at hl ⊢
    omega

theorem Ends.inner {l : Level} {rest : Tokens ν} (h : Ends l rest) : Ends l.inner rest :=
  h.mono l.rank_inner_le

theorem ends_cons {l : Level} {t : Token ν} {p : ℕ} {rest : Tokens ν}
    (h : (joins t).any (fun r ↦ r ≤ l.rank) = false) : Ends l (⟨t, p⟩ :: rest) := by
  intro u hu
  obtain rfl := Option.some.inj hu
  exact h

theorem ends_nil (l : Level) : Ends l ([] : Tokens ν) := by
  intro t ht
  cases ht

theorem stopsAt_of_ends {α : Type} {op : TokenWithPos ν → Option α} {l : Level} {rest : Tokens ν}
    (h : Ends l rest)
    (hop : ∀ t : TokenWithPos ν, (op t).isSome = true → ∃ r, joins t.token = some r ∧ r ≤ l.rank) :
    StopsAt (fun t ↦ (op t).isSome) rest := by
  intro t ht
  by_contra hs
  obtain ⟨r, hr, hle⟩ := hop t (Bool.not_eq_false _ ▸ hs)
  have hl := h t ht
  simp [hr, hle] at hl

def Starts (l : Level) (ts : List (Token ν)) : Prop :=
  ∃ t us, ts = t :: us ∧ ∃ r, starts t = some r ∧ r ≤ l.rank

theorem Starts.mono {l m : Level} {ts : List (Token ν)} (h : Starts m ts)
    (hml : m.rank ≤ l.rank) : Starts l ts := by
  obtain ⟨t, us, rfl, r, hr, hle⟩ := h
  exact ⟨t, us, rfl, r, hr, hle.trans hml⟩

theorem Starts.append {l : Level} {ts us : List (Token ν)} (h : Starts l ts) :
    Starts l (ts ++ us) := by
  obtain ⟨t, vs, rfl, r, hr, hle⟩ := h
  exact ⟨t, vs ++ us, rfl, r, hr, hle⟩

theorem starts_cons {l : Level} {t : Token ν} {us : List (Token ν)} {r : ℕ}
    (hr : starts t = some r) (hle : r ≤ l.rank) : Starts l (t :: us) :=
  ⟨t, us, rfl, r, hr, hle⟩

theorem Derives.starts {b : Bool} {l : Level} {ts : List (Token ν)} {e : Expr ν} :
    Derives b l ts e → Starts l ts
  | .ofAnd h | .ofNot h | .ofCmp h | .ofAdd h | .ofUnary h | .ofPrimary h =>
    h.starts.mono (by decide)
  | .or h _ | .and h _ | .add _ h _ => h.starts.append
  | .cmp _ h _ | .in_ h _ => h.starts.append.mono (by decide)
  | .not _ | .neg _ => starts_cons rfl le_rfl
  | .num | .str | .true_ | .false_ | .group _ | .tuple _ _ | .emptyList _ | .list _ | .ident
  | .callEmpty | .call _ _ => starts_cons rfl le_rfl

section Positions

variable {ts us : List (Token ν)} {x : Token ν} {toks : Tokens ν}

theorem plain_eq_cons (h : plain toks = x :: us) :
    ∃ p toks', toks = ⟨x, p⟩ :: toks' ∧ plain toks' = us := by
  obtain ⟨⟨x', p⟩, toks', rfl, rfl, hus⟩ := List.map_eq_cons_iff.mp h
  exact ⟨p, toks', rfl, hus⟩

theorem plain_eq_append_cons (h : plain toks = ts ++ x :: us) :
    ∃ left p right, toks = left ++ ⟨x, p⟩ :: right ∧ plain left = ts ∧ plain right = us := by
  obtain ⟨left, right, rfl, hleft, hright⟩ := List.map_eq_append_iff.mp h
  obtain ⟨p, right, rfl, hus⟩ := plain_eq_cons hright
  exact ⟨left, p, right, rfl, hleft, hus⟩

end Positions

def NoKeyword (ts : List (Token ν)) : Prop := ∀ name us, ts ≠ .ident name :: .colon :: us

theorem NoKeyword.append_cons {ts us : List (Token ν)} {x : Token ν} (h : NoKeyword ts)
    (hts : ts ≠ []) (hx : x ≠ .colon) : NoKeyword (ts ++ x :: us) := by
  intro name vs he
  match ts, hts, h with
  | [t], _, _ =>
    obtain ⟨-, he⟩ := List.cons.inj he
    exact hx (List.cons.inj he).1
  | t :: t' :: ts, _, h =>
    obtain ⟨rfl, htail⟩ := List.cons.inj he
    obtain ⟨rfl, -⟩ := List.cons.inj htail
    exact h name ts rfl

theorem Derives.ne_nil {b : Bool} {l : Level} {ts : List (Token ν)} {e : Expr ν}
    (h : Derives b l ts e) : ts ≠ [] := by
  obtain ⟨t, us, rfl, -⟩ := h.starts
  exact List.cons_ne_nil t us

theorem Derives.noKeyword {b : Bool} {l : Level} {ts : List (Token ν)} {e : Expr ν} :
    Derives b l ts e → NoKeyword ts
  | .ofAnd h | .ofNot h | .ofCmp h | .ofAdd h | .ofUnary h | .ofPrimary h => h.noKeyword
  | .or h _ | .and h _ | .add _ h _ | .cmp _ h _ | .in_ h _ =>
    h.noKeyword.append_cons h.ne_nil (by simp)
  | .not _ | .neg _ | .num | .str | .true_ | .false_ | .group _ | .tuple _ _ | .emptyList _
  | .list _ | .ident | .callEmpty | .call _ _ => by
    intro name us he
    simp at he

section Complete

variable (endPos : ℕ)

/-- The parser of a level, on at most `n + 1` tokens, reads the expression and
leaves the rest. A left-associative level may still go on with its loop. -/
def ReadsAt (n : ℕ) (toks : Tokens ν) (e : Expr ν) (rest : Tokens ν) : Level → Prop
  | .or => Reaches orOp (parseAnd endPos (parseExpr endPos n)) toks e rest
  | .and => Reaches andOp (parseNot endPos (parseExpr endPos n)) toks e rest
  | .not => parseNot endPos (parseExpr endPos n) (toks ++ rest) = .ok (e, rest)
  | .cmp => parseCmp endPos (parseExpr endPos n) (toks ++ rest) = .ok (e, rest)
  | .add => Reaches addOp (parseUnary endPos (parseExpr endPos n)) toks e rest
  | .unary => parseUnary endPos (parseExpr endPos n) (toks ++ rest) = .ok (e, rest)
  | .primary => parsePrimary endPos (parseExpr endPos n) (toks ++ rest) = .ok (e, rest)

def Completes (l : Level) (ts : List (Token ν)) (e : Expr ν) : Prop :=
  ∀ n toks rest, plain toks = ts → (toks ++ rest).length ≤ n + 1 → Ends l.inner rest →
    ReadsAt endPos n toks e rest l

def CompletesItems (ts : List (Token ν)) (items : List (Expr ν)) : Prop :=
  ∀ n k toks rest, plain toks = ts → (toks ++ rest).length ≤ n → (toks ++ rest).length ≤ k →
    Ends .or rest → StopsAt isComma rest →
    sepBy isComma (fun _ : Unit ↦ parseExpr endPos n) (fun _ _ ↦ ()) k () (toks ++ rest) =
      .ok (items, rest)

def CompletesArg (ts : List (Token ν)) (arg : Arg ν) : Prop :=
  ∀ n seen toks rest, plain toks = ts → (toks ++ rest).length ≤ n → Ends .or rest →
    (seen = true → arg.1.isSome = true) →
    parseArg endPos (parseExpr endPos n) seen (toks ++ rest) = .ok (arg, rest)

def CompletesArgs (ts : List (Token ν)) (args : List (Arg ν)) : Prop :=
  ∀ n k seen toks rest, plain toks = ts → (toks ++ rest).length ≤ n →
    (toks ++ rest).length ≤ k → Ends .or rest → StopsAt isComma rest → PositionalFirst args →
    (seen = true → ∀ a ∈ args, a.1.isSome = true) →
    sepBy isComma (parseArg endPos (parseExpr endPos n)) (fun seen arg ↦ seen || arg.1.isSome) k
      seen (toks ++ rest) = .ok (args, rest)

variable {endPos} {ts us : List (Token ν)} {e l r : Expr ν} {n : ℕ} {toks rest : Tokens ν}

theorem orOp_joins (t : TokenWithPos ν) (h : (orOp t).isSome = true) :
    ∃ r, joins t.token = some r ∧ r ≤ Level.or.rank := by
  obtain ⟨f, hf⟩ := Option.isSome_iff_exists.mp h
  exact ⟨6, by rw [(orOp_eq_some hf).1]; rfl, le_rfl⟩

theorem andOp_joins (t : TokenWithPos ν) (h : (andOp t).isSome = true) :
    ∃ r, joins t.token = some r ∧ r ≤ Level.and.rank := by
  obtain ⟨f, hf⟩ := Option.isSome_iff_exists.mp h
  exact ⟨5, by rw [(andOp_eq_some hf).1]; rfl, le_rfl⟩

theorem addOp_joins (t : TokenWithPos ν) (h : (addOp t).isSome = true) :
    ∃ r, joins t.token = some r ∧ r ≤ Level.add.rank := by
  obtain ⟨f, hf⟩ := Option.isSome_iff_exists.mp h
  obtain ⟨o, rfl | rfl, ht, -⟩ := addOp_eq_some hf
  · exact ⟨2, by rw [ht]; rfl, le_rfl⟩
  · exact ⟨2, by rw [ht]; rfl, le_rfl⟩

theorem ReadsAt.or (h : ReadsAt endPos n toks e rest .or) (hend : Ends .or rest) :
    parseOr endPos (parseExpr endPos n) (toks ++ rest) = .ok (e, rest) :=
  Reaches.done h (stopsAt_of_ends hend orOp_joins)

theorem ReadsAt.and (h : ReadsAt endPos n toks e rest .and) (hend : Ends .and rest) :
    parseAnd endPos (parseExpr endPos n) (toks ++ rest) = .ok (e, rest) :=
  Reaches.done h (stopsAt_of_ends hend andOp_joins)

theorem ReadsAt.add (h : ReadsAt endPos n toks e rest .add) (hend : Ends .add rest) :
    parseAdd endPos (parseExpr endPos n) (toks ++ rest) = .ok (e, rest) :=
  Reaches.done h (stopsAt_of_ends hend addOp_joins)

theorem Completes.parseExpr (h : Completes endPos .or ts e) (hts : ts ≠ []) (htoks : plain toks = ts)
    (hn : (toks ++ rest).length ≤ n) (hend : Ends .or rest) :
    parseExpr endPos n (toks ++ rest) = .ok (e, rest) := by
  cases n with
  | zero =>
    obtain ⟨rfl, -⟩ := List.append_eq_nil_iff.mp (List.length_eq_zero_iff.mp (Nat.le_zero.mp hn))
    exact absurd htoks.symm hts
  | succ n => exact (h n toks rest htoks hn hend.inner).or hend

theorem Completes.ofAnd (h : Completes endPos .and ts e) : Completes endPos .or ts e := by
  intro n toks rest htoks hn hend
  exact .one ((h n toks rest htoks hn hend.inner).and hend)

theorem length_operands {left right rest : Tokens ν} {t : TokenWithPos ν} {n : ℕ}
    (h : (left ++ t :: right ++ rest).length ≤ n) :
    (left ++ (t :: right ++ rest)).length ≤ n ∧ (right ++ rest).length ≤ n := by
  simp only [List.length_append, List.length_cons] at h ⊢
  omega

theorem Completes.or (hl : Completes endPos .or ts l) (hr : Completes endPos .and us r) :
    Completes endPos .or (ts ++ .or :: us) (.binary .or l r) := by
  intro n toks rest htoks hn hend
  obtain ⟨left, p, right, rfl, hleft, hright⟩ := plain_eq_append_cons htoks
  obtain ⟨hnl, hnr⟩ := length_operands hn
  have hreaches := hl n left _ hleft hnl (ends_cons rfl)
  have hreads := (hr n right rest hright hnr hend.inner).and hend
  exact Reaches.more hreaches rfl hreads

theorem Completes.ofNot (h : Completes endPos .not ts e) : Completes endPos .and ts e := by
  intro n toks rest htoks hn hend
  exact .one (h n toks rest htoks hn hend)

theorem Completes.and (hl : Completes endPos .and ts l) (hr : Completes endPos .not us r) :
    Completes endPos .and (ts ++ .and :: us) (.binary .and l r) := by
  intro n toks rest htoks hn hend
  obtain ⟨left, p, right, rfl, hleft, hright⟩ := plain_eq_append_cons htoks
  obtain ⟨hnl, hnr⟩ := length_operands hn
  have hreaches := hl n left _ hleft hnl (ends_cons rfl)
  have hreads := hr n right rest hright hnr hend
  exact Reaches.more hreaches rfl hreads

theorem stopsAt_of_starts {α : Type} {op : TokenWithPos ν → Option α} {m : Level}
    (hstarts : Starts m ts) (htoks : plain toks = ts)
    (hop : ∀ t : TokenWithPos ν, (op t).isSome = true → ∀ r, starts t.token = some r → m.rank < r) :
    StopsAt (fun t ↦ (op t).isSome) (toks ++ rest) := by
  obtain ⟨x, us, rfl, r, hr, hle⟩ := hstarts
  obtain ⟨p, toks', rfl, -⟩ := plain_eq_cons htoks
  intro t ht
  obtain rfl := Option.some.inj ht
  by_contra hs
  have hlt := hop ⟨x, p⟩ (Bool.not_eq_false _ ▸ hs) r hr
  omega

theorem notOp_starts (t : TokenWithPos ν) (h : (notOp t).isSome = true) :
    ∀ r, starts t.token = some r → Level.cmp.rank < r := by
  obtain ⟨f, hf⟩ := Option.isSome_iff_exists.mp h
  rw [(notOp_eq_some hf).1]
  intro r hr
  obtain rfl := Option.some.inj hr
  decide

theorem negOp_starts (t : TokenWithPos ν) (h : (negOp t).isSome = true) :
    ∀ r, starts t.token = some r → Level.primary.rank < r := by
  obtain ⟨f, hf⟩ := Option.isSome_iff_exists.mp h
  rw [(negOp_eq_some hf).1]
  intro r hr
  obtain rfl := Option.some.inj hr
  decide

theorem Completes.ofCmp (h : Completes endPos .cmp ts e) (hs : Starts .cmp ts) :
    Completes endPos .not ts e := by
  intro n toks rest htoks hn hend
  have hreads := h n toks rest htoks hn (hend.mono (by decide))
  exact (prefixed_one (stopsAt_of_starts hs htoks notOp_starts)).trans hreads

theorem Completes.not (h : Completes endPos .not ts e) :
    Completes endPos .not (.not :: ts) (.unary .not e) := by
  intro n toks rest htoks hn hend
  obtain ⟨p, inner, rfl, hinner⟩ := plain_eq_cons htoks
  exact prefixed_more rfl (h n inner rest hinner (Nat.le_of_succ_le hn) hend)

theorem joins_of_isCmp {o : BinOp} (ho : isCmp o = true) : joins (.op o : Token ν) = some 3 := by
  cases o <;> first | rfl | cases ho

theorem parseCmpTail_of_ends (h : Ends .cmp rest) {expr : ExprParser ν} :
    parseCmpTail endPos expr e rest = .ok (e, rest) := by
  unfold parseCmpTail
  split
  next o p toks =>
    rw [if_neg]
    intro ho
    have hj := h _ rfl
    simp [joins_of_isCmp ho, Level.rank] at hj
  next p toks => cases h _ rfl
  next => rfl

theorem Completes.ofAdd (h : Completes endPos .add ts e) : Completes endPos .cmp ts e := by
  intro n toks rest htoks hn hend
  have hadd : Ends .add rest := hend.mono (by decide)
  have hreads := (h n toks rest htoks hn hadd.inner).add hadd
  simp only [ReadsAt, parseCmp, hreads]
  exact parseCmpTail_of_ends hend

theorem ends_add_of_isCmp {o : BinOp} {p : ℕ} (ho : isCmp o = true) :
    Ends .add (⟨.op o, p⟩ :: rest) := by
  refine ends_cons ?_
  rw [joins_of_isCmp ho]
  rfl

theorem Completes.cmp {o : BinOp} (ho : isCmp o = true) (hl : Completes endPos .add ts l)
    (hr : Completes endPos .add us r) :
    Completes endPos .cmp (ts ++ .op o :: us) (.binary o l r) := by
  intro n toks rest htoks hn hend
  obtain ⟨left, p, right, rfl, hleft, hright⟩ := plain_eq_append_cons htoks
  obtain ⟨hnl, hnr⟩ := length_operands hn
  have hadd : Ends .add rest := hend.mono (by decide)
  have hop : Ends .add (⟨.op o, p⟩ :: right ++ rest) := ends_add_of_isCmp ho
  have hleftReads := (hl n left _ hleft hnl hop.inner).add hop
  have hrightReads := (hr n right rest hright hnr hadd.inner).add hadd
  simp only [ReadsAt, parseCmp]
  rw [List.append_assoc, hleftReads]
  simp [bind, Except.bind, parseCmpTail, ho, hrightReads]

theorem Completes.in_ {items : List (Expr ν)} (hl : Completes endPos .add ts l)
    (hr : Completes endPos .add us (.list items)) :
    Completes endPos .cmp (ts ++ .in_ :: us) (.in_ l (.list items)) := by
  intro n toks rest htoks hn hend
  obtain ⟨left, p, right, rfl, hleft, hright⟩ := plain_eq_append_cons htoks
  obtain ⟨hnl, hnr⟩ := length_operands hn
  have hadd : Ends .add rest := hend.mono (by decide)
  have hop : Ends .add (⟨.in_, p⟩ :: right ++ rest) := ends_cons rfl
  have hleftReads := (hl n left _ hleft hnl hop.inner).add hop
  have hrightReads := (hr n right rest hright hnr hadd.inner).add hadd
  simp only [ReadsAt, parseCmp]
  rw [List.append_assoc, hleftReads]
  simp [bind, Except.bind, parseCmpTail, hrightReads]

theorem Completes.ofUnary (h : Completes endPos .unary ts e) : Completes endPos .add ts e := by
  intro n toks rest htoks hn hend
  exact .one (h n toks rest htoks hn hend)

theorem Completes.add {o : BinOp} (ho : o = .add ∨ o = .sub) (hl : Completes endPos .add ts l)
    (hr : Completes endPos .unary us r) :
    Completes endPos .add (ts ++ .op o :: us) (.binary o l r) := by
  intro n toks rest htoks hn hend
  obtain ⟨left, p, right, rfl, hleft, hright⟩ := plain_eq_append_cons htoks
  obtain ⟨hnl, hnr⟩ := length_operands hn
  have hreads := hr n right rest hright hnr hend
  obtain rfl | rfl := ho
  · exact Reaches.more (hl n left _ hleft hnl (ends_cons rfl)) rfl hreads
  · exact Reaches.more (hl n left _ hleft hnl (ends_cons rfl)) rfl hreads

theorem Completes.ofPrimary (h : Completes endPos .primary ts e) (hs : Starts .primary ts) :
    Completes endPos .unary ts e := by
  intro n toks rest htoks hn hend
  have hreads := h n toks rest htoks hn (hend.mono (by decide))
  exact (prefixed_one (stopsAt_of_starts hs htoks negOp_starts)).trans hreads

theorem Completes.neg (h : Completes endPos .unary ts e) :
    Completes endPos .unary (.op .sub :: ts) (.unary .neg e) := by
  intro n toks rest htoks hn hend
  obtain ⟨p, inner, rfl, hinner⟩ := plain_eq_cons htoks
  exact prefixed_more rfl (h n inner rest hinner (Nat.le_of_succ_le hn) hend)

theorem DerivesItems.starts {b : Bool} {items : List (Expr ν)} (h : DerivesItems b ts items) :
    Starts .or ts := by
  cases h with
  | one h => exact h.starts
  | more h _ => exact h.starts.append

theorem CompletesItems.one (h : Completes endPos .or ts e) (hts : ts ≠ []) :
    CompletesItems endPos ts [e] := by
  intro n k toks rest htoks hn hk hend hstop
  exact sepBy_one (h.parseExpr hts htoks hn hend) hstop

theorem CompletesItems.more {items : List (Expr ν)} (h : Completes endPos .or ts e) (hts : ts ≠ [])
    (hitems : CompletesItems endPos us items) :
    CompletesItems endPos (ts ++ .comma :: us) (e :: items) := by
  intro n k toks rest htoks hn hk hend hstop
  obtain ⟨left, p, right, rfl, hleft, hright⟩ := plain_eq_append_cons htoks
  obtain ⟨hnl, hnr⟩ := length_operands hn
  obtain ⟨k, rfl⟩ : ∃ m, k = m + 1 := ⟨k - 1, by simp at hk; omega⟩
  have hkr : (right ++ rest).length ≤ k := by
    simp only [List.length_append, List.length_cons] at hk ⊢
    omega
  have hfirst := h.parseExpr hts hleft hnl (ends_cons rfl)
  rw [List.append_assoc]
  exact sepBy_more hfirst rfl (hitems n k right rest hright hnr hkr hend hstop)

theorem CompletesArg.positional (h : Completes endPos .or ts e) (hts : ts ≠ [])
    (hno : NoKeyword ts) : CompletesArg endPos ts (none, e) := by
  intro n seen toks rest htoks hn hend hseen
  have hs : ¬seen = true := fun hs ↦ Bool.noConfusion (hseen hs)
  unfold parseArg
  split
  next name p q rest' he =>
    -- the colon would stand in the expression or right after it
    exfalso
    match toks with
    | [] => exact hts htoks.symm
    | [t] =>
      obtain ⟨-, rfl⟩ := List.cons.inj he
      cases hend _ rfl
    | t :: t' :: toks =>
      obtain ⟨rfl, htail⟩ := List.cons.inj he
      obtain ⟨rfl, -⟩ := List.cons.inj htail
      exact hno name (plain toks) htoks.symm
  next =>
    rw [if_neg hs, h.parseExpr hts htoks hn hend]
    rfl

theorem CompletesArg.kwarg {name : String} (h : Completes endPos .or ts e) (hts : ts ≠ []) :
    CompletesArg endPos (.ident name :: .colon :: ts) (some name, e) := by
  intro n seen toks rest htoks hn hend hseen
  obtain ⟨p, toks, rfl, htail⟩ := plain_eq_cons htoks
  obtain ⟨q, toks, rfl, htoks'⟩ := plain_eq_cons htail
  have hlen : (toks ++ rest).length ≤ n := by
    simp only [List.cons_append, List.length_cons] at hn
    omega
  simp only [List.cons_append, parseArg]
  rw [h.parseExpr hts htoks' hlen hend]
  rfl

theorem CompletesArgs.one {arg : Arg ν} (h : CompletesArg endPos ts arg) :
    CompletesArgs endPos ts [arg] := by
  intro n k seen toks rest htoks hn hk hend hstop _ hseen
  exact sepBy_one (h n seen toks rest htoks hn hend
    (fun hs ↦ hseen hs arg (List.mem_singleton_self arg))) hstop

theorem CompletesArgs.more {arg : Arg ν} {args : List (Arg ν)} (h : CompletesArg endPos ts arg)
    (hargs : CompletesArgs endPos us args) :
    CompletesArgs endPos (ts ++ .comma :: us) (arg :: args) := by
  intro n k seen toks rest htoks hn hk hend hstop hfirst hseen
  obtain ⟨left, p, right, rfl, hleft, hright⟩ := plain_eq_append_cons htoks
  obtain ⟨hnl, hnr⟩ := length_operands hn
  obtain ⟨k, rfl⟩ : ∃ m, k = m + 1 := ⟨k - 1, by simp at hk; omega⟩
  have hkr : (right ++ rest).length ≤ k := by
    simp only [List.length_append, List.length_cons] at hk ⊢
    omega
  obtain ⟨hbefore, hfirst⟩ := List.pairwise_cons.mp hfirst
  have harg := h n seen left _ hleft hnl (ends_cons rfl) (fun hs ↦ hseen hs arg List.mem_cons_self)
  rw [List.append_assoc]
  refine sepBy_more harg rfl (hargs n k _ right rest hright hnr hkr hend hstop hfirst ?_)
  intro hs a ha
  rcases Bool.or_eq_true_iff.mp hs with hs | hs
  · exact hseen hs a (List.mem_cons_of_mem arg ha)
  · exact hbefore a ha hs

theorem Starts.ne_cons {m : Level} {more toks' : Tokens ν} {x : Token ν} {p : ℕ}
    (hs : Starts m ts) (htoks : plain toks = ts) (hx : starts x = none) :
    toks ++ more ≠ ⟨x, p⟩ :: toks' := by
  obtain ⟨t, us, rfl, r, hr, -⟩ := hs
  obtain ⟨q, tail, rfl, -⟩ := plain_eq_cons htoks
  intro he
  obtain ⟨rfl, -⟩ := TokenWithPos.mk.inj (List.cons.inj he).1
  rw [hx] at hr
  cases hr

theorem length_inside {inner rest : Tokens ν} {t t' : TokenWithPos ν} {n : ℕ}
    (h : (t :: (inner ++ [t']) ++ rest).length ≤ n + 1) : (inner ++ t' :: rest).length ≤ n := by
  simp only [List.length_append, List.length_cons, List.length_nil] at h ⊢
  omega

theorem CompletesItems.parseItems {items : List (Expr ν)} {inner rest : Tokens ν} {x : Token ν}
    {p : ℕ} (h : CompletesItems endPos ts items) (hinner : plain inner = ts)
    (hn : (inner ++ ⟨x, p⟩ :: rest).length ≤ n) (hx : x = .rparen ∨ x = .rbracket) :
    parseItems (parseExpr endPos n) (inner ++ ⟨x, p⟩ :: rest) = .ok (items, ⟨x, p⟩ :: rest) := by
  obtain rfl | rfl := hx
  · exact h n _ inner _ hinner hn le_rfl (ends_cons rfl) (by intro t ht; cases ht; rfl)
  · exact h n _ inner _ hinner hn le_rfl (ends_cons rfl) (by intro t ht; cases ht; rfl)

theorem CompletesItems.tuple {items : List (Expr ν)} (h : CompletesItems endPos ts items) :
    Completes endPos .primary (.lparen :: (ts ++ [.rparen])) (ofTuple items) := by
  intro n toks rest htoks hn hend
  obtain ⟨p, toks, rfl, htail⟩ := plain_eq_cons htoks
  obtain ⟨inner, q, right, rfl, hinner, hright⟩ := plain_eq_append_cons htail
  obtain rfl := List.map_eq_nil_iff.mp hright
  have hreads := h.parseItems hinner (length_inside hn) (.inl rfl)
  simp only [ReadsAt, List.cons_append, List.append_assoc, List.nil_append, parsePrimary]
  rw [hreads]
  rfl

theorem CompletesItems.list {items : List (Expr ν)} (h : CompletesItems endPos ts items)
    (hs : Starts .or ts) :
    Completes endPos .primary (.lbracket :: (ts ++ [.rbracket])) (.list items) := by
  intro n toks rest htoks hn hend
  obtain ⟨p, toks, rfl, htail⟩ := plain_eq_cons htoks
  obtain ⟨inner, q, right, rfl, hinner, hright⟩ := plain_eq_append_cons htail
  obtain rfl := List.map_eq_nil_iff.mp hright
  have hreads := h.parseItems hinner (length_inside hn) (.inr rfl)
  simp only [ReadsAt, List.cons_append, List.append_assoc, List.nil_append]
  -- the brackets are not empty, since no item starts with a bracket that closes
  rw [parsePrimary]
  · rw [hreads]
    rfl
  · intro p' toks'
    exact hs.ne_cons hinner rfl

theorem CompletesArgs.call {name : String} {args : List (Arg ν)}
    (h : CompletesArgs endPos ts args) (hfirst : PositionalFirst args) (hs : Starts .or ts) :
    Completes endPos .primary (.ident name :: .lparen :: (ts ++ [.rparen])) (.call name args) := by
  intro n toks rest htoks hn hend
  obtain ⟨p, toks, rfl, hcall⟩ := plain_eq_cons htoks
  obtain ⟨p', toks, rfl, htail⟩ := plain_eq_cons hcall
  obtain ⟨inner, q, right, rfl, hinner, hright⟩ := plain_eq_append_cons htail
  obtain rfl := List.map_eq_nil_iff.mp hright
  have hlen := length_inside (Nat.le_of_succ_le hn)
  have hreads := h n _ false inner (⟨.rparen, q⟩ :: rest) hinner hlen le_rfl (ends_cons rfl)
    (by intro t ht; cases ht; rfl) hfirst (by simp)
  simp only [ReadsAt, List.cons_append, List.append_assoc, List.nil_append, parsePrimary]
  rw [parseCallArgs]
  · rw [hreads]
    rfl
  · intro p' toks'
    exact hs.ne_cons hinner rfl

theorem DerivesArgs.starts {b : Bool} {args : List (Arg ν)} (h : DerivesArgs b ts args) :
    Starts .or ts := by
  have harg : ∀ {us : List (Token ν)} {arg}, DerivesArg b us arg → Starts .or us := by
    intro us arg h
    cases h with
    | positional h => exact h.starts
    | kwarg _ => exact starts_cons rfl (Nat.zero_le _)
  cases h with
  | one h => exact harg h
  | more h _ => exact (harg h).append

theorem completes_token {x : Token ν} (h : ∀ expr p rest, Ends .primary rest →
      parsePrimary endPos expr (⟨x, p⟩ :: rest) = .ok (e, rest)) :
    Completes endPos .primary [x] e := by
  intro n toks rest htoks _ hend
  obtain ⟨p, tail, rfl, htail⟩ := plain_eq_cons htoks
  obtain rfl := List.map_eq_nil_iff.mp htail
  exact h _ p rest hend

theorem completes_ident {name : String} :
    Completes endPos .primary [.ident name] (.ident name : Expr ν) := by
  refine completes_token (fun expr p rest hend ↦ ?_)
  rw [parsePrimary]
  rintro q toks rfl
  cases hend _ rfl

theorem completes_emptyList :
    Completes endPos .primary [.lbracket, .rbracket] (.list [] : Expr ν) := by
  intro n toks rest htoks _ _
  obtain ⟨p, toks, rfl, htail⟩ := plain_eq_cons htoks
  obtain ⟨q, toks, rfl, hnil⟩ := plain_eq_cons htail
  obtain rfl := List.map_eq_nil_iff.mp hnil
  rfl

theorem completes_callEmpty {name : String} :
    Completes endPos .primary [.ident name, .lparen, .rparen] (.call name [] : Expr ν) := by
  intro n toks rest htoks _ _
  obtain ⟨p, toks, rfl, hcall⟩ := plain_eq_cons htoks
  obtain ⟨q, toks, rfl, htail⟩ := plain_eq_cons hcall
  obtain ⟨r, toks, rfl, hnil⟩ := plain_eq_cons htail
  obtain rfl := List.map_eq_nil_iff.mp hnil
  rfl

theorem ofTuple_of_two_le {items : List (Expr ν)} (h : 2 ≤ items.length) :
    ofTuple items = .list items := by
  match items, h with
  | _ :: _ :: _, _ => rfl

mutual

theorem Derives.completes {m : Level} {ts : List (Token ν)} {e : Expr ν} :
    Derives true m ts e → Completes endPos m ts e
  | .ofAnd h => h.completes.ofAnd
  | .or h h' => h.completes.or h'.completes
  | .ofNot h => h.completes.ofNot
  | .and h h' => h.completes.and h'.completes
  | .ofCmp h => h.completes.ofCmp h.starts
  | .not h => h.completes.not
  | .ofAdd h => h.completes.ofAdd
  | .cmp ho h h' => h.completes.cmp ho h'.completes
  | .in_ h h' => h.completes.in_ h'.completes
  | .ofUnary h => h.completes.ofUnary
  | .add ho h h' => h.completes.add ho h'.completes
  | .ofPrimary h => h.completes.ofPrimary h.starts
  | .neg h => h.completes.neg
  | .num | .str | .true_ | .false_ => completes_token (fun _ _ _ _ ↦ rfl)
  | .group h => (CompletesItems.one h.completes h.ne_nil).tuple
  | .tuple h hlen => ofTuple_of_two_le hlen ▸ h.completes.tuple
  | .emptyList _ => completes_emptyList
  | .list h => h.completes.list h.starts
  | .ident => completes_ident
  | .callEmpty => completes_callEmpty
  | .call h hfirst => h.completes.call hfirst h.starts

theorem DerivesItems.completes {ts : List (Token ν)} {items : List (Expr ν)} :
    DerivesItems true ts items → CompletesItems endPos ts items
  | .one h => .one h.completes h.ne_nil
  | .more h hitems => .more h.completes h.ne_nil hitems.completes

theorem DerivesArg.completes {ts : List (Token ν)} {arg : Arg ν} :
    DerivesArg true ts arg → CompletesArg endPos ts arg
  | .positional h => .positional h.completes h.ne_nil h.noKeyword
  | .kwarg h => .kwarg h.completes h.ne_nil

theorem DerivesArgs.completes {ts : List (Token ν)} {args : List (Arg ν)} :
    DerivesArgs true ts args → CompletesArgs endPos ts args
  | .one h => .one h.completes
  | .more h hargs => .more h.completes hargs.completes

end

theorem parse_complete (h : Derives true .or (plain toks) e) : parse endPos toks = .ok e := by
  have hreads : parseExpr endPos toks.length (toks ++ []) = .ok (e, []) :=
    h.completes.parseExpr h.ne_nil rfl (by rw [List.append_nil]) (ends_nil _)
  rw [List.append_nil] at hreads
  rw [parse, hreads]
  rfl

/-- The parser accepts what the grammar derives, and returns its tree. -/
theorem parse_eq_ok : parse endPos toks = .ok e ↔ Derives true .or (plain toks) e :=
  ⟨parse_sound, parse_complete⟩

end Complete

end SauronId.Expression
