import SauronId.Lib.Fallible
import Mathlib.Algebra.Order.Group.Nat
import Mathlib.Data.List.Basic

namespace SauronId.Lib.Descent

variable {τ ε α σ : Type}

/-- A step of a recursive-descent parser: what it reads from the front of the
tokens, and the tokens that are left. -/
abbrev Parser (τ ε α : Type) := List τ → Except ε (α × List τ)

def chainLoop (op : τ → Option (α → α → α)) (sub : Parser τ ε α) : ℕ → α → Parser τ ε α
  | n + 1, left, t :: ts =>
    match op t with
    | some f => do
      let (right, rest) ← sub ts
      chainLoop op sub n (f left right) rest
    | none => .ok (left, t :: ts)
  | _, left, ts => .ok (left, ts)

def chain (op : τ → Option (α → α → α)) (sub : Parser τ ε α) : Parser τ ε α := fun ts ↦ do
  let (left, rest) ← sub ts
  chainLoop op sub rest.length left rest

def prefixed (op : τ → Option (α → α)) (sub : Parser τ ε α) : Parser τ ε α
  | [] => sub []
  | t :: ts =>
    match op t with
    | some f => do
      let (a, rest) ← prefixed op sub ts
      .ok (f a, rest)
    | none => sub (t :: ts)

/-- `item (sep item)*`, where an item may depend on the items before it. The
bound is as for `chainLoop`. -/
def sepBy (sep : τ → Bool) (item : σ → Parser τ ε α) (next : σ → α → σ) :
    ℕ → σ → Parser τ ε (List α)
  | 0, s, ts => do
    let (a, rest) ← item s ts
    .ok ([a], rest)
  | n + 1, s, ts => do
    let (a, rest) ← item s ts
    match rest with
    | [] => .ok ([a], [])
    | t :: rest =>
      if sep t = true then do
        let (as, left) ← sepBy sep item next n (next s a) rest
        .ok (a :: as, left)
      else .ok ([a], t :: rest)

section Scan

/-- The tokens of the front that go on, each judged with what follows it, and the
tokens that are left. -/
def scan (p : τ → List τ → Bool) : List τ → List τ × List τ
  | [] => ([], [])
  | t :: ts => if p t ts = true then (t :: (scan p ts).1, (scan p ts).2) else ([], t :: ts)

variable {p : τ → List τ → Bool}

theorem scan_append_scan (ts : List τ) : (scan p ts).1 ++ (scan p ts).2 = ts := by
  induction ts with
  | nil => rfl
  | cons t ts ih =>
    unfold scan
    split_ifs
    · exact congrArg (t :: ·) ih
    · rfl

theorem stops_of_scan {ts us : List τ} {t : τ} (h : (scan p ts).2 = t :: us) : p t us = false := by
  induction ts with
  | nil => cases h
  | cons u ts ih =>
    rw [scan] at h
    split_ifs at h with hu
    · exact ih h
    · obtain ⟨rfl, rfl⟩ := List.cons.inj h
      exact Bool.eq_false_iff.mpr hu

end Scan

section Sound

/-- What a parser takes for a value is in a language of texts for values. -/
def Sound (p : Parser τ ε α) (L : List τ → α → Prop) : Prop :=
  ∀ ts a rest, p ts = .ok (a, rest) → ∃ us, ts = us ++ rest ∧ L us a

variable {op : τ → Option (α → α → α)} {sub : Parser τ ε α} {L M : List τ → α → Prop}

theorem Sound.chainLoop (hsub : Sound sub M)
    (hmore : ∀ us a t f vs b, L us a → op t = some f → M vs b → L (us ++ t :: vs) (f a b))
    {n : ℕ} {left a : α} {seen ts rest : List τ} (hleft : L seen left)
    (h : Descent.chainLoop op sub n left ts = .ok (a, rest)) :
    ∃ us, ts = us ++ rest ∧ L (seen ++ us) a := by
  induction n generalizing left seen ts with
  | zero =>
    obtain ⟨rfl, rfl⟩ := Prod.mk.inj (Except.ok.inj h)
    exact ⟨[], rfl, by simpa using hleft⟩
  | succ n ih =>
    cases ts with
    | nil =>
      obtain ⟨rfl, rfl⟩ := Prod.mk.inj (Except.ok.inj h)
      exact ⟨[], rfl, by simpa using hleft⟩
    | cons t ts =>
      simp only [Descent.chainLoop] at h
      cases hop : op t with
      | none =>
        rw [hop] at h
        obtain ⟨rfl, rfl⟩ := Prod.mk.inj (Except.ok.inj h)
        exact ⟨[], rfl, by simpa using hleft⟩
      | some f =>
        rw [hop] at h
        obtain ⟨⟨right, mid⟩, hright, hloop⟩ := bind_eq_ok.mp h
        obtain ⟨vs, rfl, hvs⟩ := hsub ts right mid hright
        obtain ⟨us, rfl, hus⟩ := ih (hmore seen left t f vs right hleft hop hvs) hloop
        exact ⟨t :: vs ++ us, by simp, by simpa using hus⟩

theorem Sound.chain (hsub : Sound sub M) (hone : ∀ us a, M us a → L us a)
    (hmore : ∀ us a t f vs b, L us a → op t = some f → M vs b → L (us ++ t :: vs) (f a b)) :
    Sound (chain op sub) L := by
  intro ts a rest h
  obtain ⟨⟨left, mid⟩, hleft, hloop⟩ := bind_eq_ok.mp h
  obtain ⟨us, rfl, hus⟩ := hsub ts left mid hleft
  obtain ⟨vs, rfl, hvs⟩ := hsub.chainLoop hmore (hone us left hus) hloop
  exact ⟨us ++ vs, (List.append_assoc us vs rest).symm, hvs⟩

theorem Sound.prefixed {op : τ → Option (α → α)} (hsub : Sound sub M)
    (hone : ∀ us a, M us a → L us a)
    (hmore : ∀ t f us a, op t = some f → L us a → L (t :: us) (f a)) :
    Sound (prefixed op sub) L := by
  intro ts
  induction ts with
  | nil =>
    intro a rest h
    obtain ⟨us, he, hus⟩ := hsub [] a rest h
    exact ⟨us, he, hone us a hus⟩
  | cons t ts ih =>
    intro a rest h
    simp only [Descent.prefixed] at h
    cases hop : op t with
    | none =>
      rw [hop] at h
      obtain ⟨us, he, hus⟩ := hsub (t :: ts) a rest h
      exact ⟨us, he, hone us a hus⟩
    | some f =>
      rw [hop] at h
      obtain ⟨⟨b, mid⟩, hb, hret⟩ := bind_eq_ok.mp h
      obtain ⟨rfl, rfl⟩ := Prod.mk.inj (Except.ok.inj hret)
      obtain ⟨us, rfl, hus⟩ := ih b mid hb
      exact ⟨t :: us, rfl, hmore t f us b hop hus⟩

theorem Sound.sepBy {sep : τ → Bool} {item : σ → Parser τ ε α} {next : σ → α → σ}
    {I : σ → List τ → α → Prop} {J : σ → List τ → List α → Prop} (hitem : ∀ s, Sound (item s) (I s))
    (hone : ∀ s us a, I s us a → J s us [a])
    (hmore : ∀ s us a t vs as, I s us a → sep t = true → J (next s a) vs as →
      J s (us ++ t :: vs) (a :: as))
    (n : ℕ) (s : σ) : Sound (sepBy sep item next n s) (J s) := by
  induction n generalizing s with
  | zero =>
    intro ts as rest h
    obtain ⟨⟨a, mid⟩, ha, hret⟩ := bind_eq_ok.mp h
    obtain ⟨us, rfl, hus⟩ := hitem s ts a mid ha
    obtain ⟨rfl, rfl⟩ := Prod.mk.inj (Except.ok.inj hret)
    exact ⟨us, rfl, hone s us a hus⟩
  | succ n ih =>
    intro ts as rest h
    obtain ⟨⟨a, mid⟩, ha, hret⟩ := bind_eq_ok.mp h
    obtain ⟨us, rfl, hus⟩ := hitem s ts a mid ha
    cases mid with
    | nil =>
      obtain ⟨rfl, rfl⟩ := Prod.mk.inj (Except.ok.inj hret)
      exact ⟨us, rfl, hone s us a hus⟩
    | cons t mid =>
      by_cases ht : sep t = true
      · simp only [if_pos ht] at hret
        obtain ⟨⟨bs, left⟩, hbs, hret⟩ := bind_eq_ok.mp hret
        obtain ⟨rfl, rfl⟩ := Prod.mk.inj (Except.ok.inj hret)
        obtain ⟨vs, rfl, hvs⟩ := ih (next s a) mid bs left hbs
        exact ⟨us ++ t :: vs, by simp, hmore s us a t vs bs hus ht hvs⟩
      · simp only [if_neg ht] at hret
        obtain ⟨rfl, rfl⟩ := Prod.mk.inj (Except.ok.inj hret)
        exact ⟨us, rfl, hone s us a hus⟩

end Sound

section Complete

variable {op : τ → Option (α → α → α)} {sub : Parser τ ε α} {us vs rest : List τ} {a b : α} {t : τ}

/-- No token that the predicate asks for comes next. -/
def StopsAt (p : τ → Bool) (rest : List τ) : Prop := ∀ t ∈ rest.head?, p t = false

/-- A left-associative level has read a value and goes on with its loop. -/
def Reaches (op : τ → Option (α → α → α)) (sub : Parser τ ε α) (us : List τ) (a : α)
    (rest : List τ) : Prop :=
  ∃ n, rest.length ≤ n ∧ chain op sub (us ++ rest) = chainLoop op sub n a rest

theorem Reaches.one (h : sub (us ++ rest) = .ok (a, rest)) : Reaches op sub us a rest :=
  ⟨rest.length, le_rfl, by rw [chain, h]; rfl⟩

theorem Reaches.more {f : α → α → α} (h : Reaches op sub us a (t :: vs ++ rest))
    (ht : op t = some f) (hb : sub (vs ++ rest) = .ok (b, rest)) :
    Reaches op sub (us ++ t :: vs) (f a b) rest := by
  obtain ⟨n, hn, he⟩ := h
  rw [List.cons_append, List.length_cons, List.length_append] at hn
  obtain ⟨m, rfl⟩ : ∃ m, n = m + 1 := ⟨n - 1, by omega⟩
  refine ⟨m, by omega, ?_⟩
  rw [List.append_assoc, he]
  simp only [List.cons_append, chainLoop, ht, hb]
  rfl

theorem chainLoop_of_stopsAt {n : ℕ} (h : StopsAt (fun t ↦ (op t).isSome) rest) :
    chainLoop op sub n a rest = .ok (a, rest) := by
  cases n with
  | zero => rfl
  | succ n =>
    cases rest with
    | nil => rfl
    | cons t rest =>
      have ht : op t = none := by simpa using h t rfl
      simp only [chainLoop, ht]

theorem Reaches.done (h : Reaches op sub us a rest)
    (hstop : StopsAt (fun t ↦ (op t).isSome) rest) : chain op sub (us ++ rest) = .ok (a, rest) := by
  obtain ⟨n, -, he⟩ := h
  rw [he, chainLoop_of_stopsAt hstop]

variable {op : τ → Option (α → α)}

theorem prefixed_one (hstart : StopsAt (fun t ↦ (op t).isSome) us) :
    prefixed op sub us = sub us := by
  cases us with
  | nil => rfl
  | cons t us =>
    have ht : op t = none := by simpa using hstart t rfl
    simp only [prefixed, ht]

theorem prefixed_more {f : α → α} (ht : op t = some f) (h : prefixed op sub us = .ok (a, rest)) :
    prefixed op sub (t :: us) = .ok (f a, rest) := by
  simp only [prefixed, ht, h]
  rfl

variable {sep : τ → Bool} {item : σ → Parser τ ε α} {next : σ → α → σ} {n : ℕ} {s : σ}

theorem sepBy_one (h : item s us = .ok (a, rest)) (hstop : StopsAt sep rest) :
    sepBy sep item next n s us = .ok ([a], rest) := by
  cases n with
  | zero =>
    simp only [sepBy, h]
    rfl
  | succ n =>
    simp only [sepBy, h]
    cases rest with
    | nil => rfl
    | cons t rest =>
      have ht : sep t = false := hstop t rfl
      simp [bind, Except.bind, ht]

theorem sepBy_more {as : List α} (h : item s us = .ok (a, t :: vs)) (ht : sep t = true)
    (hmore : sepBy sep item next n (next s a) vs = .ok (as, rest)) :
    sepBy sep item next (n + 1) s us = .ok (a :: as, rest) := by
  simp only [sepBy, h]
  simp [bind, Except.bind, ht, hmore]

end Complete

end SauronId.Lib.Descent
