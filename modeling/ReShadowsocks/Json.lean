/-
JSON texts, as RFC 8259 has them, over UTF-16 code units.

`parse` is a recursive descent parser.  `value` takes a bound on the nesting and on
the number of items; `parse` gives it the length of the text, and `parse_eq_some`
says that this is enough.  An object is the list of its members: what to do with members of the
same name is left to the reader.

* `stringTail_unescaped` — a string without special characters is read as it is;
* `stringTail_outcome` — what is read if a text stands between two quotes;
* `number_decimal` — integers are read as they are written;
* `value_mono`, `parse_eq_some` — the bound does not matter.
-/
import Mathlib.Data.Nat.Digits.Lemmas
import Mathlib.Tactic.Common

namespace Json

abbrev Text := List UInt16

/-- `num m e` is the number `m * 10 ^ e`. -/
inductive Value
  | null
  | bool (b : Bool)
  | num (mantissa exponent : Int)
  | str (s : Text)
  | arr (values : List Value)
  | obj (members : List (Text × Value))

def quote : UInt16 := 0x22

def backslash : UInt16 := 0x5C

def comma : UInt16 := 0x2C

def colon : UInt16 := 0x3A

def space : UInt16 := 0x20

def newline : UInt16 := 0x0A

def isWs (c : UInt16) : Bool := c == 0x20 || c == 0x09 || c == 0x0A || c == 0x0D

def skipWs (t : Text) : Text := t.dropWhile isWs

/-! ### Strings -/

/-- A unit that stands for itself in a string. -/
def Unescaped (c : UInt16) : Prop := c ≠ quote ∧ c ≠ backslash ∧ 0x20 ≤ c

instance (c : UInt16) : Decidable (Unescaped c) := inferInstanceAs (Decidable (_ ∧ _ ∧ _))

/-- The characters that may stand behind a backslash, but for `u`. -/
def escape (c : UInt16) : Option UInt16 :=
  if c = quote ∨ c = backslash ∨ c = 0x2F then some c
  else if c = 0x62 then some 0x08
  else if c = 0x66 then some 0x0C
  else if c = 0x6E then some 0x0A
  else if c = 0x72 then some 0x0D
  else if c = 0x74 then some 0x09
  else none

def hexDigit (c : UInt16) : Option Nat :=
  if 0x30 ≤ c ∧ c ≤ 0x39 then some (c.toNat - 0x30)
  else if 0x41 ≤ c ∧ c ≤ 0x46 then some (c.toNat - 0x41 + 10)
  else if 0x61 ≤ c ∧ c ≤ 0x66 then some (c.toNat - 0x61 + 10)
  else none

def hex4 (a b c d : UInt16) : Option UInt16 := do
  let a ← hexDigit a
  let b ← hexDigit b
  let c ← hexDigit c
  let d ← hexDigit d
  return UInt16.ofNat (((a * 16 + b) * 16 + c) * 16 + d)

/-- Put a unit in front of the string that was read. -/
def cons (c : UInt16) (res : Text × Text) : Text × Text := (c :: res.1, res.2)

/-- The rest of a string and what is behind its closing quote. -/
def stringTail : Text → Option (Text × Text)
  | [] => none
  | c :: t =>
    if c = quote then some ([], t)
    else if c = backslash then
      match t with
      | [] => none
      | e :: t =>
        if e = 0x75 then
          match t with
          | h1 :: h2 :: h3 :: h4 :: t =>
            (hex4 h1 h2 h3 h4).bind fun u => (stringTail t).map (cons u)
          | _ => none
        else (escape e).bind fun u => (stringTail t).map (cons u)
    else if c < 0x20 then none
    else (stringTail t).map (cons c)

theorem stringTail_quote (t : Text) : stringTail (quote :: t) = some ([], t) := by
  rw [stringTail.eq_def]
  exact if_pos rfl

theorem stringTail_cons {c : UInt16} (h : Unescaped c) (t : Text) :
    stringTail (c :: t) = (stringTail t).map (cons c) := by
  obtain ⟨hquote, hback, hctrl⟩ := h
  rw [stringTail.eq_def]
  simp only [if_neg hquote, if_neg hback, if_neg (UInt16.not_lt.mpr hctrl)]

theorem stringTail_control {c : UInt16} (hquote : c ≠ quote) (hback : c ≠ backslash)
    (h : c < 0x20) (t : Text) : stringTail (c :: t) = none := by
  rw [stringTail.eq_def]
  simp only [if_neg hquote, if_neg hback, if_pos h]

theorem stringTail_escape {e : UInt16} (h : e ≠ 0x75) (t : Text) :
    stringTail (backslash :: e :: t) =
      (escape e).bind fun u => (stringTail t).map (cons u) := by
  have hback : backslash ≠ quote := by decide
  rw [stringTail.eq_def]
  simp only [if_neg hback, if_true, if_neg h]

theorem stringTail_hex (h1 h2 h3 h4 : UInt16) (t : Text) :
    stringTail (backslash :: 0x75 :: h1 :: h2 :: h3 :: h4 :: t) =
      (hex4 h1 h2 h3 h4).bind fun u => (stringTail t).map (cons u) := by
  have hback : backslash ≠ quote := by decide
  rw [stringTail.eq_def]
  simp only [if_neg hback, if_true]

theorem hexDigit_quote : hexDigit quote = none := by decide

theorem hex4_quote {a b c d : UInt16} (h : a = quote ∨ b = quote ∨ c = quote ∨ d = quote) :
    hex4 a b c d = none := by
  unfold hex4
  rcases h with rfl | rfl | rfl | rfl
  · rw [hexDigit_quote]
    rfl
  · rw [hexDigit_quote]
    cases hexDigit a <;> rfl
  · rw [hexDigit_quote]
    cases hexDigit a <;> cases hexDigit b <;> rfl
  · rw [hexDigit_quote]
    cases hexDigit a <;> cases hexDigit b <;> cases hexDigit c <;> rfl

/-- Four hexadecimal digits do not reach across a quote. -/
theorem stringTail_hex_short {t : Text} (h : t.length < 4) (after : Text) :
    stringTail (backslash :: 0x75 :: (t ++ quote :: after)) = none := by
  have hback : backslash ≠ quote := by decide
  rw [stringTail.eq_def]
  simp only [if_neg hback, if_true]
  split
  · rename_i h1 h2 h3 h4 rest heq
    have hmem : h1 = quote ∨ h2 = quote ∨ h3 = quote ∨ h4 = quote := by
      match t with
      | [] => exact .inl (List.cons.inj heq).1.symm
      | [_] => simp_all
      | [_, _] => simp_all
      | [_, _, _] => simp_all
      | _ :: _ :: _ :: _ :: _ =>
        simp only [List.length_cons] at h
        omega
    rw [hex4_quote hmem]
    rfl
  · rfl

/-! ### Numbers -/

def isDigit (c : UInt16) : Bool := 0x30 ≤ c && c ≤ 0x39

/-- The number that digits stand for. -/
def natOf (ds : Text) : Nat := ds.foldl (fun n c => 10 * n + (c.toNat - 0x30)) 0

/-- At least one digit. -/
def digits (t : Text) : Option (Text × Text) :=
  if (t.takeWhile isDigit).isEmpty then none else some (t.takeWhile isDigit, t.dropWhile isDigit)

/-- A zero, or digits of which the first is not zero. -/
def intPart : Text → Option (Text × Text)
  | [] => none
  | c :: t => if c = 0x30 then some ([c], t) else digits (c :: t)

def fracPart : Text → Option (Text × Text)
  | [] => some ([], [])
  | c :: t => if c = 0x2E then digits t else some ([], c :: t)

def expPart : Text → Option (Int × Text)
  | [] => some (0, [])
  | c :: t =>
    if c = 0x65 ∨ c = 0x45 then
      match t with
      | [] => none
      | sign :: t =>
        if sign = 0x2D then (digits t).map fun (ds, t) => (-(natOf ds : Int), t)
        else if sign = 0x2B then (digits t).map fun (ds, t) => ((natOf ds : Int), t)
        else (digits (sign :: t)).map fun (ds, t) => ((natOf ds : Int), t)
    else some (0, c :: t)

/-- A number without its sign. -/
def magnitude (t : Text) : Option ((Nat × Int) × Text) := do
  let (int, t) ← intPart t
  let (frac, t) ← fracPart t
  let (exp, t) ← expPart t
  return ((natOf (int ++ frac), exp - frac.length), t)

def number : Text → Option (Value × Text)
  | [] => none
  | c :: t =>
    if c = 0x2D then (magnitude t).map fun ((m, e), t) => (.num (-m) e, t)
    else (magnitude (c :: t)).map fun ((m, e), t) => (.num m e, t)

/-! ### Values -/

def literal (word t : Text) : Option Text :=
  if t.take word.length = word then some (t.drop word.length) else none

section Sequence

variable {α : Type*} (item : Text → Option (α × Text)) (close : UInt16)

/-- Items with commas between them, and the closing character. -/
def sequence : Nat → Text → Option (List α × Text)
  | 0, _ => none
  | n + 1, t =>
    match item t with
    | none => none
    | some (a, t) =>
      match skipWs t with
      | [] => none
      | c :: t =>
        if c = close then some ([a], t)
        else if c = comma then (sequence n t).map fun (as, t) => (a :: as, t)
        else none

/-- The same, if there may be no item at all. -/
def enclosed (n : Nat) (t : Text) : Option (List α × Text) :=
  match skipWs t with
  | [] => none
  | c :: t' => if c = close then some ([], t') else sequence item close n t

end Sequence

/-- A name, a colon, a value. -/
def member (value : Text → Option (Value × Text)) (t : Text) : Option ((Text × Value) × Text) :=
  match skipWs t with
  | [] => none
  | c :: t =>
    if c ≠ quote then none
    else
      match stringTail t with
      | none => none
      | some (name, t) =>
        match skipWs t with
        | [] => none
        | c :: t => if c ≠ colon then none else (value t).map fun (v, t) => ((name, v), t)

/-- A value, and what is behind it; `n` bounds the nesting and the number of items. -/
def value : Nat → Text → Option (Value × Text)
  | 0, _ => none
  | n + 1, t =>
    match skipWs t with
    | [] => none
    | c :: t =>
      if c = 0x7B then (enclosed (member (value n)) 0x7D n t).map fun (ms, t) => (.obj ms, t)
      else if c = 0x5B then (enclosed (value n) 0x5D n t).map fun (vs, t) => (.arr vs, t)
      else if c = quote then (stringTail t).map fun (s, t) => (.str s, t)
      else if c = 0x74 then (literal [0x72, 0x75, 0x65] t).map fun t => (.bool true, t)
      else if c = 0x66 then (literal [0x61, 0x6C, 0x73, 0x65] t).map fun t => (.bool false, t)
      else if c = 0x6E then (literal [0x75, 0x6C, 0x6C] t).map fun t => (.null, t)
      else number (c :: t)

/-- The value of a whole text. -/
def parse (t : Text) : Option Value :=
  match value t.length t with
  | none => none
  | some (v, rest) => if skipWs rest = [] then some v else none

/-! ### Progress

Every part of the parser leaves less than it was given. -/

/-- What is left is shorter than what was given. -/
def Shrinks {α : Type*} (p : Text → Option (α × Text)) : Prop :=
  ∀ {t : Text} {a : α} {rest : Text}, p t = some (a, rest) → rest.length < t.length

theorem length_skipWs_le (t : Text) : (skipWs t).length ≤ t.length :=
  (List.dropWhile_sublist _).length_le

theorem length_lt_of_skipWs {t rest : Text} {c : UInt16} (h : skipWs t = c :: rest) :
    rest.length < t.length := by
  have hle := length_skipWs_le t
  rw [h, List.length_cons] at hle
  omega

theorem map_cons_eq_some {c : UInt16} {res : Option (Text × Text)} {s rest : Text}
    (h : res.map (cons c) = some (s, rest)) : ∃ s', s = c :: s' ∧ res = some (s', rest) := by
  obtain ⟨⟨s', rest'⟩, hres, heq⟩ := Option.map_eq_some_iff.mp h
  obtain ⟨rfl, rfl⟩ := Prod.mk.inj heq
  exact ⟨s', rfl, hres⟩

theorem stringTail_shrinks : Shrinks stringTail := by
  intro t s rest h
  fun_induction stringTail t generalizing s rest with
  | case1 => exact absurd h (by simp)
  | case2 t =>
    obtain ⟨rfl, rfl⟩ := Prod.mk.inj (Option.some.inj h)
    simp
  | case3 => exact absurd h (by simp)
  | case4 h1 h2 h3 h4 t _ ih =>
    obtain ⟨u, -, hu⟩ := Option.bind_eq_some_iff.mp h
    obtain ⟨s', -, hs⟩ := map_cons_eq_some hu
    have := ih hs
    simp only [List.length_cons]
    omega
  | case5 => exact absurd h (by simp)
  | case6 e t _ _ ih =>
    obtain ⟨u, -, hu⟩ := Option.bind_eq_some_iff.mp h
    obtain ⟨s', -, hs⟩ := map_cons_eq_some hu
    have := ih hs
    simp only [List.length_cons]
    omega
  | case7 => exact absurd h (by simp)
  | case8 c t _ _ _ ih =>
    obtain ⟨s', -, hs⟩ := map_cons_eq_some h
    have := ih hs
    simp only [List.length_cons]
    omega

theorem digits_shrinks : Shrinks digits := by
  intro t ds rest h
  unfold digits at h
  split at h
  · exact absurd h (by simp)
  · rename_i hne
    obtain ⟨rfl, rfl⟩ := Prod.mk.inj (Option.some.inj h)
    have hlen : (t.takeWhile isDigit).length + (t.dropWhile isDigit).length = t.length := by
      rw [← List.length_append, List.takeWhile_append_dropWhile]
    have hpos : 0 < (t.takeWhile isDigit).length :=
      List.length_pos_iff.mpr fun h => hne (List.isEmpty_iff.mpr h)
    omega

theorem intPart_shrinks : Shrinks intPart := by
  intro t ds rest h
  cases t with
  | nil => exact absurd h (by simp [intPart])
  | cons c t =>
    rw [intPart] at h
    split at h
    · obtain ⟨-, rfl⟩ := Prod.mk.inj (Option.some.inj h)
      simp
    · exact digits_shrinks h

theorem fracPart_length {t ds rest : Text} (h : fracPart t = some (ds, rest)) :
    rest.length ≤ t.length := by
  cases t with
  | nil =>
    obtain ⟨-, rfl⟩ := Prod.mk.inj (Option.some.inj h)
    exact Nat.le_refl _
  | cons c t =>
    rw [fracPart] at h
    split at h
    · have := digits_shrinks h
      simp only [List.length_cons]
      omega
    · obtain ⟨-, rfl⟩ := Prod.mk.inj (Option.some.inj h)
      exact Nat.le_refl _

theorem expPart_length {t rest : Text} {e : Int} (h : expPart t = some (e, rest)) :
    rest.length ≤ t.length := by
  have hdigits : ∀ {t rest : Text} {f : Nat → Int},
      ((digits t).map fun (ds, t) => (f (natOf ds), t)) = some (e, rest) →
        rest.length < t.length := by
    intro t rest f h
    obtain ⟨⟨ds, rest'⟩, hds, heq⟩ := Option.map_eq_some_iff.mp h
    obtain ⟨-, rfl⟩ := Prod.mk.inj heq
    exact digits_shrinks hds
  unfold expPart at h
  split at h
  · obtain ⟨-, rfl⟩ := Prod.mk.inj (Option.some.inj h)
    exact Nat.le_refl _
  · split at h
    · split at h
      · exact absurd h (by simp)
      · split at h
        · have := hdigits (f := fun n => -(n : Int)) h
          simp only [List.length_cons]
          omega
        · split at h
          · have := hdigits (f := fun n => (n : Int)) h
            simp only [List.length_cons]
            omega
          · have := hdigits (f := fun n => (n : Int)) h
            simp only [List.length_cons] at this ⊢
            omega
    · obtain ⟨-, rfl⟩ := Prod.mk.inj (Option.some.inj h)
      exact Nat.le_refl _

theorem magnitude_shrinks : Shrinks magnitude := by
  intro t m rest h
  obtain ⟨⟨int, t1⟩, hint, h⟩ := Option.bind_eq_some_iff.mp h
  obtain ⟨⟨frac, t2⟩, hfrac, h⟩ := Option.bind_eq_some_iff.mp h
  obtain ⟨⟨exp, t3⟩, hexp, h⟩ := Option.bind_eq_some_iff.mp h
  obtain ⟨-, rfl⟩ := Prod.mk.inj (Option.some.inj h)
  have h1 := intPart_shrinks hint
  have h2 := fracPart_length hfrac
  have h3 := expPart_length hexp
  omega

theorem number_shrinks : Shrinks number := by
  intro t v rest h
  unfold number at h
  split at h
  · exact absurd h (by simp)
  · split at h
    · obtain ⟨⟨_, _⟩, hm, heq⟩ := Option.map_eq_some_iff.mp h
      obtain ⟨-, rfl⟩ := Prod.mk.inj heq
      have := magnitude_shrinks hm
      simp only [List.length_cons]
      omega
    · obtain ⟨⟨_, _⟩, hm, heq⟩ := Option.map_eq_some_iff.mp h
      obtain ⟨-, rfl⟩ := Prod.mk.inj heq
      exact magnitude_shrinks hm

theorem literal_length {word t rest : Text} (h : literal word t = some rest) :
    rest.length ≤ t.length := by
  unfold literal at h
  split at h
  · rw [← Option.some.inj h, List.length_drop]
    exact Nat.sub_le _ _
  · exact absurd h (by simp)

section Sequence

variable {α : Type*} {item item' : Text → Option (α × Text)} {close : UInt16}

/-- How a sequence is read: an item, then the end or a comma. -/
theorem sequence_cases {n : Nat} {t rest : Text} {as : List α}
    (h : sequence item close n t = some (as, rest)) :
    ∃ m a t' c t'', n = m + 1 ∧ item t = some (a, t') ∧ skipWs t' = c :: t'' ∧
      ((c = close ∧ as = [a] ∧ rest = t'') ∨
        (c ≠ close ∧ c = comma ∧
          ∃ as', as = a :: as' ∧ sequence item close m t'' = some (as', rest))) := by
  cases n with
  | zero => exact absurd h (by simp [sequence])
  | succ m =>
    rw [sequence] at h
    cases hitem : item t with
    | none => simp [hitem] at h
    | some res =>
      obtain ⟨a, t'⟩ := res
      simp only [hitem] at h
      cases hws : skipWs t' with
      | nil => simp [hws] at h
      | cons c t'' =>
        simp only [hws] at h
        refine ⟨m, a, t', c, t'', rfl, rfl, hws, ?_⟩
        split at h
        · rename_i hc
          obtain ⟨rfl, rfl⟩ := Prod.mk.inj (Option.some.inj h)
          exact .inl ⟨hc, rfl, rfl⟩
        · rename_i hc
          split at h
          · rename_i hcomma
            obtain ⟨⟨as', rest'⟩, hrest, heq⟩ := Option.map_eq_some_iff.mp h
            obtain ⟨rfl, rfl⟩ := Prod.mk.inj heq
            exact .inr ⟨hc, hcomma, as', rfl, hrest⟩
          · exact absurd h (by simp)

theorem sequence_last {n : Nat} {t t' rest : Text} {a : α} (h : item t = some (a, t'))
    (hws : skipWs t' = close :: rest) : sequence item close (n + 1) t = some ([a], rest) := by
  simp only [sequence, h, hws, if_true]

theorem sequence_more {n : Nat} {t t' rest : Text} {a : α} (h : item t = some (a, t'))
    (hws : skipWs t' = comma :: rest) (hclose : comma ≠ close) :
    sequence item close (n + 1) t =
      (sequence item close n rest).map fun (as, t) => (a :: as, t) := by
  simp only [sequence, h, hws, if_neg hclose, if_true]

theorem sequence_shrinks (hi : Shrinks item) (n : Nat) : Shrinks (sequence item close n) := by
  induction n with
  | zero =>
    intro t as rest h
    exact absurd h (by simp [sequence])
  | succ n ih =>
    intro t as rest h
    obtain ⟨m, a, t', c, t'', hn, hitem, hws, hc⟩ := sequence_cases h
    have h1 := hi hitem
    have h2 := length_lt_of_skipWs hws
    obtain rfl : n = m := Nat.succ.inj hn
    rcases hc with ⟨-, -, rfl⟩ | ⟨-, -, as', -, hrest⟩
    · omega
    · have h3 := ih hrest
      omega

theorem enclosed_cases {n : Nat} {t rest : Text} {as : List α}
    (h : enclosed item close n t = some (as, rest)) :
    ∃ c t', skipWs t = c :: t' ∧ ((c = close ∧ as = [] ∧ rest = t') ∨
      (c ≠ close ∧ sequence item close n t = some (as, rest))) := by
  unfold enclosed at h
  cases hws : skipWs t with
  | nil => simp [hws] at h
  | cons c t' =>
    simp only [hws] at h
    refine ⟨c, t', rfl, ?_⟩
    split at h
    · rename_i hc
      obtain ⟨rfl, rfl⟩ := Prod.mk.inj (Option.some.inj h)
      exact .inl ⟨hc, rfl, rfl⟩
    · rename_i hc
      exact .inr ⟨hc, h⟩

theorem enclosed_shrinks (hi : Shrinks item) (n : Nat) : Shrinks (enclosed item close n) := by
  intro t as rest h
  obtain ⟨c, t', hws, ⟨-, -, rfl⟩ | ⟨-, hseq⟩⟩ := enclosed_cases h
  · exact length_lt_of_skipWs hws
  · exact sequence_shrinks hi n hseq

/-- As many steps as there are characters are enough. -/
theorem sequence_mono {l : Nat} (hi : Shrinks item)
    (hext : ∀ t res, t.length ≤ l → item t = some res → item' t = some res) :
    ∀ {m n : Nat} {t : Text} {res : List α × Text}, sequence item close m t = some res →
      t.length ≤ l → t.length ≤ n → sequence item' close n t = some res := by
  intro m
  induction m with
  | zero =>
    intro n t res h
    exact absurd h (by simp [sequence])
  | succ m ih =>
    rintro n t ⟨as, rest⟩ h hl hn
    obtain ⟨m', a, t', c, t'', hm, hitem, hws, hc⟩ := sequence_cases h
    obtain rfl : m = m' := Nat.succ.inj hm
    have h1 := hi hitem
    have h2 := length_lt_of_skipWs hws
    obtain ⟨n', rfl⟩ : ∃ n', n = n' + 1 := ⟨n - 1, by omega⟩
    rw [sequence, hext t _ hl hitem]
    rcases hc with ⟨rfl, rfl, rfl⟩ | ⟨hc, rfl, as', rfl, hrest⟩
    · simp only [hws, if_true]
    · have hrest' := ih (n := n') hrest (by omega) (by omega)
      simp only [hws, if_neg hc, if_true, hrest', Option.map_some]

theorem enclosed_mono {l m n : Nat} {t : Text} {res : List α × Text} (hi : Shrinks item)
    (hext : ∀ t res, t.length ≤ l → item t = some res → item' t = some res)
    (h : enclosed item close m t = some res) (hl : t.length ≤ l) (hn : t.length ≤ n) :
    enclosed item' close n t = some res := by
  obtain ⟨as, rest⟩ := res
  unfold enclosed
  obtain ⟨c, t', hws, ⟨rfl, rfl, rfl⟩ | ⟨hc, hseq⟩⟩ := enclosed_cases h
  · simp only [hws, if_true]
  · simp only [hws, if_neg hc]
    exact sequence_mono hi hext hseq hl hn

end Sequence

theorem member_cases {v : Text → Option (Value × Text)} {t rest : Text} {m : Text × Value}
    (h : member v t = some (m, rest)) :
    ∃ t1 t2 t3, skipWs t = quote :: t1 ∧ stringTail t1 = some (m.1, t2) ∧
      skipWs t2 = colon :: t3 ∧ v t3 = some (m.2, rest) := by
  unfold member at h
  cases hws : skipWs t with
  | nil => simp [hws] at h
  | cons c t1 =>
    simp only [hws] at h
    split at h
    · exact absurd h (by simp)
    · rename_i hc
      cases hname : stringTail t1 with
      | none => simp [hname] at h
      | some res =>
        obtain ⟨name, t2⟩ := res
        simp only [hname] at h
        cases hws2 : skipWs t2 with
        | nil => simp [hws2] at h
        | cons c2 t3 =>
          simp only [hws2] at h
          split at h
          · exact absurd h (by simp)
          · rename_i hc2
            obtain ⟨⟨val, rest'⟩, hval, heq⟩ := Option.map_eq_some_iff.mp h
            obtain ⟨rfl, rfl⟩ := Prod.mk.inj heq
            rw [not_not.mp hc2] at hws2
            rw [not_not.mp hc]
            exact ⟨t1, t2, t3, rfl, hname, hws2, hval⟩

theorem member_of {v : Text → Option (Value × Text)} {t t1 t2 t3 rest name : Text} {val : Value}
    (h1 : skipWs t = quote :: t1) (h2 : stringTail t1 = some (name, t2))
    (h3 : skipWs t2 = colon :: t3) (h4 : v t3 = some (val, rest)) :
    member v t = some ((name, val), rest) := by
  simp [member, h1, h2, h3, h4]

theorem member_shrinks {v : Text → Option (Value × Text)} (hv : Shrinks v) :
    Shrinks (member v) := by
  intro t m rest h
  obtain ⟨t1, t2, t3, h1, h2, h3, h4⟩ := member_cases h
  have := length_lt_of_skipWs h1
  have := stringTail_shrinks h2
  have := length_lt_of_skipWs h3
  have := hv h4
  omega

theorem value_shrinks (n : Nat) : Shrinks (value n) := by
  induction n with
  | zero =>
    intro t v rest h
    exact absurd h (by simp [value])
  | succ n ih =>
    intro t v rest h
    rw [value] at h
    cases hws : skipWs t with
    | nil => simp [hws] at h
    | cons c t' =>
      have hlt := length_lt_of_skipWs hws
      have hle := length_skipWs_le t
      rw [hws] at hle
      simp only [hws] at h
      split_ifs at h
      · obtain ⟨⟨ms, _⟩, hms, heq⟩ := Option.map_eq_some_iff.mp h
        obtain ⟨-, rfl⟩ := Prod.mk.inj heq
        exact (enclosed_shrinks (member_shrinks ih) n hms).trans hlt
      · obtain ⟨⟨vs, _⟩, hvs, heq⟩ := Option.map_eq_some_iff.mp h
        obtain ⟨-, rfl⟩ := Prod.mk.inj heq
        exact (enclosed_shrinks ih n hvs).trans hlt
      · obtain ⟨⟨s, _⟩, hs, heq⟩ := Option.map_eq_some_iff.mp h
        obtain ⟨-, rfl⟩ := Prod.mk.inj heq
        exact (stringTail_shrinks hs).trans hlt
      iterate 3
        · obtain ⟨_, hl, heq⟩ := Option.map_eq_some_iff.mp h
          obtain ⟨-, rfl⟩ := Prod.mk.inj heq
          exact Nat.lt_of_le_of_lt (literal_length hl) hlt
      · exact Nat.lt_of_lt_of_le (number_shrinks h) hle

/-- **The bound does not matter** once it is as large as the text. -/
theorem value_mono {m : Nat} : ∀ {n : Nat} {t : Text} {res : Value × Text}, value m t = some res →
    t.length ≤ n → value n t = some res := by
  induction m with
  | zero =>
    intro n t res h
    exact absurd h (by simp [value])
  | succ m ih =>
    intro n t res h hn
    rw [value] at h
    cases hws : skipWs t with
    | nil => simp [hws] at h
    | cons c t' =>
      have hlt := length_lt_of_skipWs hws
      obtain ⟨n', rfl⟩ : ∃ n', n = n' + 1 := ⟨n - 1, by omega⟩
      have hn' : t'.length ≤ n' := by omega
      have hmember : ∀ t res, t.length ≤ n' → member (value m) t = some res →
          member (value n') t = some res := by
        rintro t ⟨⟨name, v⟩, rest⟩ ht h
        obtain ⟨t1, t2, t3, h1, h2, h3, h4⟩ := member_cases h
        have := length_lt_of_skipWs h1
        have := stringTail_shrinks h2
        have := length_lt_of_skipWs h3
        exact member_of h1 h2 h3 (ih h4 (by omega))
      rw [value]
      simp only [hws] at h ⊢
      split_ifs at h ⊢
      · obtain ⟨a, hms, heq⟩ := Option.map_eq_some_iff.mp h
        rw [enclosed_mono (member_shrinks (value_shrinks m)) hmember hms hn' hn', ← heq]
        rfl
      · obtain ⟨a, hvs, heq⟩ := Option.map_eq_some_iff.mp h
        rw [enclosed_mono (value_shrinks m) (fun t res ht h => ih h ht) hvs hn' hn', ← heq]
        rfl
      all_goals exact h

/-- **What `parse` finds** is what is found under any bound. -/
theorem parse_eq_some {t : Text} {v : Value} :
    parse t = some v ↔ ∃ n rest, value n t = some (v, rest) ∧ skipWs rest = [] := by
  constructor
  · intro h
    unfold parse at h
    cases hv : value t.length t with
    | none => simp [hv] at h
    | some res =>
      obtain ⟨v', rest⟩ := res
      simp only [hv] at h
      split at h
      · rename_i hend
        rw [← Option.some.inj h]
        exact ⟨t.length, rest, hv, hend⟩
      · exact absurd h (by simp)
  · rintro ⟨n, rest, hv, hend⟩
    rw [parse, value_mono hv (Nat.le_refl _)]
    exact if_pos hend

/-! ### Reading what was written -/

/-- A string without special characters is read as it is. -/
theorem stringTail_unescaped {s : Text} (rest : Text) (h : ∀ c ∈ s, Unescaped c) :
    stringTail (s ++ quote :: rest) = some (s, rest) := by
  induction s with
  | nil => exact stringTail_quote rest
  | cons c s ih =>
    rw [List.cons_append, stringTail_cons (h c List.mem_cons_self),
      ih fun c hc => h c (List.mem_cons_of_mem _ hc)]
    rfl

/-- What can be read if the text `t` and a quote stand behind an opening quote:
the text itself, or something shorter, or, if `t` ends with a backslash, something
that goes on behind the quote. -/
inductive Outcome (t after : Text) : Text → Text → Prop
  | whole : (∀ c ∈ t, Unescaped c) → Outcome t after t after
  | short {s rest : Text} : s.length < t.length → Outcome t after s rest
  | beyond {s s' rest : Text} : t.getLast? = some backslash → stringTail after = some (s', rest) →
      Outcome t after (s ++ quote :: s') rest

/-- An escape is longer than what it stands for. -/
theorem Outcome.escaped {t after s rest p : Text} (h : Outcome t after s rest) (u : UInt16)
    (hp : 2 ≤ p.length) : Outcome (p ++ t) after (u :: s) rest := by
  cases h with
  | whole _ =>
    refine .short ?_
    rw [List.length_append, List.length_cons]
    omega
  | short hlt =>
    refine .short ?_
    rw [List.length_append, List.length_cons]
    omega
  | @beyond s s' _ hlast hafter =>
    rw [← List.cons_append]
    refine .beyond ?_ hafter
    rw [List.getLast?_append, hlast]
    rfl

theorem Outcome.unescaped {t after s rest : Text} {c : UInt16} (h : Outcome t after s rest)
    (hc : Unescaped c) : Outcome (c :: t) after (c :: s) rest := by
  cases h with
  | whole hall =>
    refine .whole fun c' hc' => ?_
    rcases List.mem_cons.mp hc' with rfl | hc'
    · exact hc
    · exact hall c' hc'
  | short hlt => exact .short (Nat.succ_lt_succ hlt)
  | @beyond s s' _ hlast hafter =>
    rw [← List.cons_append]
    refine .beyond ?_ hafter
    rw [List.getLast?_cons, hlast]
    rfl

mutual

/-- **What is read between two quotes.** -/
theorem stringTail_outcome {after : Text} : ∀ {t s rest : Text},
    stringTail (t ++ quote :: after) = some (s, rest) → Outcome t after s rest
  | [], s, rest, h => by
    rw [List.nil_append, stringTail_quote] at h
    obtain ⟨rfl, rfl⟩ := Prod.mk.inj (Option.some.inj h)
    exact .whole fun c hc => absurd hc List.not_mem_nil
  | c :: t, s, rest, h => by
    rw [List.cons_append] at h
    by_cases hquote : c = quote
    · subst hquote
      rw [stringTail_quote] at h
      obtain ⟨rfl, rfl⟩ := Prod.mk.inj (Option.some.inj h)
      exact .short (Nat.succ_pos _)
    · by_cases hback : c = backslash
      · subst hback
        exact stringTail_outcome_backslash h
      · by_cases hctrl : c < 0x20
        · rw [stringTail_control hquote hback hctrl] at h
          exact absurd h (by simp)
        · have hc : Unescaped c := ⟨hquote, hback, UInt16.not_lt.mp hctrl⟩
          rw [stringTail_cons hc] at h
          obtain ⟨s', rfl, hs'⟩ := map_cons_eq_some h
          exact (stringTail_outcome hs').unescaped hc

/-- Behind a backslash. -/
theorem stringTail_outcome_backslash {after : Text} : ∀ {t s rest : Text},
    stringTail (backslash :: (t ++ quote :: after)) = some (s, rest) →
      Outcome (backslash :: t) after s rest
  | [], s, rest, h => by
    -- the backslash escapes the closing quote
    rw [List.nil_append, stringTail_escape (by decide)] at h
    obtain ⟨u, hu, hs⟩ := Option.bind_eq_some_iff.mp h
    obtain ⟨s', rfl, hs'⟩ := map_cons_eq_some hs
    have hq : escape quote = some quote := by decide
    obtain rfl : quote = u := Option.some.inj (hq.symm.trans hu)
    exact @Outcome.beyond [backslash] after [] s' rest rfl hs'
  | e :: t, s, rest, h => by
    rw [List.cons_append] at h
    by_cases he : e = 0x75
    · subst he
      by_cases hlen : t.length < 4
      · rw [stringTail_hex_short hlen] at h
        exact absurd h (by simp)
      · match t with
        | [] | [_] | [_, _] | [_, _, _] => simp at hlen
        | h1 :: h2 :: h3 :: h4 :: t =>
          simp only [List.cons_append] at h
          rw [stringTail_hex] at h
          obtain ⟨u, -, hs⟩ := Option.bind_eq_some_iff.mp h
          obtain ⟨s', rfl, hs'⟩ := map_cons_eq_some hs
          exact @Outcome.escaped t after s' rest [backslash, 0x75, h1, h2, h3, h4]
            (stringTail_outcome hs') u (by simp)
    · rw [stringTail_escape he] at h
      obtain ⟨u, -, hs⟩ := Option.bind_eq_some_iff.mp h
      obtain ⟨s', rfl, hs'⟩ := map_cons_eq_some hs
      exact @Outcome.escaped t after s' rest [backslash, e] (stringTail_outcome hs') u (by simp)

end

/-- The decimal digits of a number, as `%d` writes them. -/
def decimalNat (n : Nat) : Text :=
  if n = 0 then [0x30] else (Nat.digits 10 n).reverse.map fun d => UInt16.ofNat (0x30 + d)

def decimal (i : Int) : Text :=
  if i < 0 then 0x2D :: decimalNat i.natAbs else decimalNat i.natAbs

theorem toNat_digit {d : Nat} (hd : d < 10) : (UInt16.ofNat (0x30 + d)).toNat = 0x30 + d := by
  rw [UInt16.toNat_ofNat']
  omega

theorem isDigit_digit {d : Nat} (hd : d < 10) : isDigit (UInt16.ofNat (0x30 + d)) = true := by
  have hd' := toNat_digit hd
  rw [isDigit, Bool.and_eq_true, decide_eq_true_iff, decide_eq_true_iff, UInt16.le_iff_toNat_le,
    UInt16.le_iff_toNat_le, hd']
  exact ⟨Nat.le_add_right _ _, by show 0x30 + d ≤ 0x39; omega⟩

theorem natOf_digits : ∀ {ds : List Nat}, (∀ d ∈ ds, d < 10) →
    natOf (ds.reverse.map fun d => UInt16.ofNat (0x30 + d)) = Nat.ofDigits 10 ds := by
  intro ds
  induction ds with
  | nil => intro _; rfl
  | cons d ds ih =>
    intro h
    have hd := toNat_digit (h d List.mem_cons_self)
    have hih := ih fun d hd => h d (List.mem_cons_of_mem _ hd)
    rw [natOf] at hih ⊢
    rw [List.reverse_cons, List.map_append, List.foldl_append, hih, Nat.ofDigits_cons]
    simp only [List.map_cons, List.map_nil, List.foldl_cons, List.foldl_nil, hd]
    omega

/-- The first digit that is written is not zero. -/
theorem digits_reverse {n : Nat} (hn : n ≠ 0) :
    ∃ d ds, (Nat.digits 10 n).reverse = d :: ds ∧ d ≠ 0 ∧ d < 10 := by
  obtain ⟨ds, d, hds⟩ := (List.eq_nil_or_concat (Nat.digits 10 n)).resolve_left
    (Nat.digits_ne_nil_iff_ne_zero.mpr hn)
  have hlast := Nat.getLast_digit_ne_zero 10 hn
  have hmem : d ∈ Nat.digits 10 n := by simp [hds]
  refine ⟨d, ds.reverse, by simp [hds], by simpa [hds] using hlast, ?_⟩
  exact Nat.digits_lt_base (by decide) hmem

/-- The text does not go on with a number. -/
def EndsNumber (rest : Text) : Prop :=
  ∀ c ∈ rest.head?, isDigit c = false ∧ c ≠ 0x2E ∧ c ≠ 0x65 ∧ c ≠ 0x45

theorem digits_append {ds rest : Text} (hne : ds ≠ []) (hds : ∀ c ∈ ds, isDigit c = true)
    (hrest : EndsNumber rest) : digits (ds ++ rest) = some (ds, rest) := by
  have htake : (ds ++ rest).takeWhile isDigit = ds := by
    rw [List.takeWhile_append_of_pos hds]
    cases rest with
    | nil => simp
    | cons c rest => simp [(hrest c rfl).1]
  have hdrop : (ds ++ rest).dropWhile isDigit = rest := by
    rw [List.dropWhile_append_of_pos hds]
    cases rest with
    | nil => rfl
    | cons c rest => simp [(hrest c rfl).1]
  rw [digits, htake, hdrop, if_neg (by simpa using hne)]

theorem isDigit_of_mem_decimalNat {n : Nat} {c : UInt16} (hc : c ∈ decimalNat n) :
    isDigit c = true := by
  unfold decimalNat at hc
  split at hc
  · rw [List.mem_singleton.mp hc]
    decide
  · obtain ⟨d, hd, rfl⟩ := List.mem_map.mp hc
    exact isDigit_digit (Nat.digits_lt_base (by decide) (List.mem_reverse.mp hd))

theorem ne_of_isDigit {c d : UInt16} (hc : isDigit c = true) (hd : isDigit d = false) : c ≠ d := by
  rintro rfl
  rw [hc] at hd
  exact nomatch hd

theorem not_mem_decimalNat {c : UInt16} (h : isDigit c = false) (n : Nat) : c ∉ decimalNat n :=
  fun hc => ne_of_isDigit (isDigit_of_mem_decimalNat hc) h rfl

/-- A number is written with digits and a minus sign. -/
theorem not_mem_decimal {c : UInt16} (hdigit : isDigit c = false) (hminus : c ≠ 0x2D) (i : Int) :
    c ∉ decimal i := by
  have hnat := not_mem_decimalNat hdigit i.natAbs
  unfold decimal
  split
  · exact fun h => (List.mem_cons.mp h).elim hminus hnat
  · exact hnat

theorem natOf_decimalNat (n : Nat) : natOf (decimalNat n) = n := by
  unfold decimalNat
  split
  · rename_i hn
    rw [hn]
    rfl
  · rw [natOf_digits fun d hd => Nat.digits_lt_base (by decide) hd, Nat.ofDigits_digits]

theorem intPart_decimalNat {rest : Text} (n : Nat) (hrest : EndsNumber rest) :
    intPart (decimalNat n ++ rest) = some (decimalNat n, rest) := by
  by_cases hn : n = 0
  · subst hn
    rfl
  · obtain ⟨d, ds, hds, hd, hd10⟩ := digits_reverse hn
    have hne : UInt16.ofNat (0x30 + d) ≠ 0x30 := by
      intro heq
      have hnat := congrArg UInt16.toNat heq
      rw [toNat_digit hd10] at hnat
      exact hd (Nat.add_left_cancel hnat)
    have heq : decimalNat n =
        UInt16.ofNat (0x30 + d) :: ds.map fun d => UInt16.ofNat (0x30 + d) := by
      rw [decimalNat, if_neg hn, hds, List.map_cons]
    have hdigits := digits_append (by simp [heq])
      (fun c => isDigit_of_mem_decimalNat (n := n)) hrest
    rw [heq, List.cons_append] at hdigits ⊢
    rw [intPart, if_neg hne]
    exact hdigits

theorem magnitude_decimalNat {rest : Text} (n : Nat) (hrest : EndsNumber rest) :
    magnitude (decimalNat n ++ rest) = some ((n, 0), rest) := by
  have hint := intPart_decimalNat n hrest
  have hnat := natOf_decimalNat n
  have hfrac : fracPart rest = some ([], rest) := by
    cases rest with
    | nil => rfl
    | cons c rest => rw [fracPart, if_neg (hrest c rfl).2.1]
  have hexp : expPart rest = some (0, rest) := by
    cases rest with
    | nil => rfl
    | cons c rest =>
      rw [expPart.eq_def]
      exact if_neg fun h => h.elim (hrest c rfl).2.2.1 (hrest c rfl).2.2.2
  simp [magnitude, hint, hfrac, hexp, hnat]

/-- The digits of a number start with a digit. -/
theorem decimalNat_head (n : Nat) : ∃ c ds, decimalNat n = c :: ds ∧ isDigit c = true := by
  cases h : decimalNat n with
  | nil =>
    have hint := @intPart_decimalNat [] n fun c hc => absurd hc (by simp)
    rw [h] at hint
    exact absurd hint (by simp [intPart])
  | cons c ds => exact ⟨c, ds, rfl, isDigit_of_mem_decimalNat (n := n) (h ▸ List.mem_cons_self)⟩

theorem decimalNat_ne_nil (n : Nat) : decimalNat n ≠ [] := by
  obtain ⟨c, ds, hds, -⟩ := decimalNat_head n
  rw [hds]
  exact List.cons_ne_nil c ds

/-- Integers are read as they are written. -/
theorem number_decimal {rest : Text} (i : Int) (hrest : EndsNumber rest) :
    number (decimal i ++ rest) = some (.num i 0, rest) := by
  unfold decimal
  split
  · rw [List.cons_append, number, if_pos rfl, magnitude_decimalNat _ hrest]
    simp only [Option.map_some, Option.some.injEq, Prod.mk.injEq, Value.num.injEq, and_true]
    omega
  · obtain ⟨c, ds, heq, hc⟩ := decimalNat_head i.natAbs
    have hne : c ≠ 0x2D := ne_of_isDigit hc (by decide)
    have hm := magnitude_decimalNat i.natAbs hrest
    rw [heq, List.cons_append] at hm ⊢
    rw [number, if_neg hne, hm]
    simp only [Option.map_some, Option.some.injEq, Prod.mk.injEq, Value.num.injEq, and_true]
    omega

end Json
