/-
`urlSafeEscape` and `urlSafeUnescape` of `Tools`.

Escaping writes a character that is not a letter or a digit as its ASCII byte between two
underscores.  Unescaping looks for digits between two underscores; the character it finds is
handed to `appendReplacement`, which throws if it is `$` or a backslash.

* `isSafe_of_mem_urlSafeEscape` — only letters, digits and underscores are written;
* `escape_lossless_iff` — ASCII text is read back exactly if it has none of the two characters;
* `dollar_not_unescaped` — a text that is not.
-/
import ReShadowsocks.Config
import ReShadowsocks.JavaString
import ReShadowsocks.Utf8

namespace Escape

open Json JavaString

/-! ### Escaping -/

def underscore : UInt16 := 0x5F

/-- The class `[a-zA-Z0-9]`. -/
def isAlnum (c : UInt16) : Bool :=
  (0x61 ≤ c && c ≤ 0x7A) || (0x41 ≤ c && c ≤ 0x5A) || (0x30 ≤ c && c ≤ 0x39)

/-- What the escaped text may hold. -/
def isSafe (c : UInt16) : Bool := isAlnum c || c == underscore

/-- `"_" + b + "_"`. -/
def underscored (b : Nat) : JString := underscore :: decimalNat b ++ [underscore]

/-- The first byte of a match in US-ASCII: a question mark if the character has none. -/
def asciiByte (c : UInt16) : Nat := if c < 0x80 then c.toNat else 0x3F

def urlSafeEscape : JString → JString
  | [] => []
  | c :: t =>
    if isAlnum c then c :: urlSafeEscape t
    else
      match t with
      | [] => underscored (asciiByte c)
      | d :: t =>
        -- a surrogate pair is one match
        if Utf8.High c ∧ Utf8.Low d then underscored (asciiByte c) ++ urlSafeEscape t
        else underscored (asciiByte c) ++ urlSafeEscape (d :: t)

/-! ### Unescaping -/

/-- The digits of the group, if `_(\d+)_` matches here. -/
def escapeAt : JString → Option JString
  | [] => none
  | c :: t =>
    let ds := t.takeWhile isDigit
    if c = underscore ∧ ds ≠ [] ∧ (t.dropWhile isDigit).head? = some underscore then some ds
    else none

/-- What `appendReplacement` writes for one character. -/
def replacement (c : UInt16) : Option JString :=
  if c = 0x24 ∨ c = 0x5C then none else some [c]

/-- The text from here on, once `skip` units of a match are passed over.  `none` is an
exception of `parseInt` or of `appendReplacement`. -/
def unescapeFrom : Nat → JString → Option JString
  | _, [] => some []
  | skip + 1, _ :: t => unescapeFrom skip t
  | 0, c :: t =>
    match escapeAt (c :: t) with
    | none => (unescapeFrom 0 t).map (c :: ·)
    | some ds => do
      let n ← parseInt ds
      let r ← replacement (UInt16.ofNat n.toInt.toNat)
      (unescapeFrom (ds.length + 1) t).map (r ++ ·)

def urlSafeUnescape (s : JString) : Option JString := unescapeFrom 0 s

/-! ### What escaping writes -/

theorem isDigit_isAlnum {c : UInt16} (h : isDigit c = true) : isAlnum c = true := by
  rw [isAlnum, Bool.or_eq_true]
  exact .inr h

theorem isSafe_of_mem_underscored {b : Nat} {c : UInt16} (h : c ∈ underscored b) :
    isSafe c = true := by
  rw [isSafe, Bool.or_eq_true, beq_iff_eq]
  rw [underscored, List.cons_append, List.mem_cons, List.mem_append, List.mem_singleton] at h
  rcases h with rfl | hd | rfl
  · exact .inr rfl
  · exact .inl (isDigit_isAlnum (isDigit_of_mem_decimalNat hd))
  · exact .inr rfl

/-- **Only letters, digits and underscores are written.** -/
theorem isSafe_of_mem_urlSafeEscape {s : JString} :
    ∀ {c : UInt16}, c ∈ urlSafeEscape s → isSafe c = true := by
  fun_induction urlSafeEscape s with
  | case1 => exact fun h => absurd h List.not_mem_nil
  | case2 d t hd ih =>
    intro c h
    rcases List.mem_cons.mp h with rfl | ht
    · rw [isSafe, hd, Bool.true_or]
    · exact ih ht
  | case3 d hd => exact isSafe_of_mem_underscored
  | case4 d hd e t hpair ih =>
    intro c h
    exact (List.mem_append.mp h).elim isSafe_of_mem_underscored fun ht => ih ht
  | case5 d hd e t hpair ih =>
    intro c h
    exact (List.mem_append.mp h).elim isSafe_of_mem_underscored fun ht => ih ht

/-- How one ASCII character is written. -/
def escapeOne (c : UInt16) : JString := if isAlnum c then [c] else underscored c.toNat

theorem urlSafeEscape_cons {c : UInt16} (h : c < 0x80) (t : JString) :
    urlSafeEscape (c :: t) = escapeOne c ++ urlSafeEscape t := by
  have hbyte : asciiByte c = c.toNat := if_pos h
  have hhigh := (Utf8.not_surrogate h).1
  rw [urlSafeEscape.eq_def]
  simp only [escapeOne, hbyte]
  split
  · rfl
  · cases t with
    | nil => exact (List.append_nil _).symm
    | cons d t => exact if_neg fun hpair => hhigh hpair.1

/-! ### Reading back -/

theorem unescapeFrom_length_append (x rest : JString) :
    unescapeFrom x.length (x ++ rest) = urlSafeUnescape rest := by
  induction x with
  | nil => rfl
  | cons c x ih =>
    rw [List.length_cons, List.cons_append, unescapeFrom]
    exact ih

theorem parseInt_decimalNat {n : Nat} (h : n < 2 ^ 31) :
    ∃ i : Int32, parseInt (decimalNat n) = some i ∧ i.toInt = n := by
  have hn : (Int32.ofNat n).toInt = n := Int32.toInt_ofNat_of_lt h
  have hdecimal : decimal (Int32.ofNat n).toInt = decimalNat n := by
    rw [hn, decimal, if_neg (by omega), Int.natAbs_natCast]
  exact ⟨_, hdecimal ▸ parseInt_decimal (Int32.ofNat n), hn⟩

theorem escapeAt_underscored (n : Nat) (rest : JString) :
    escapeAt (underscored n ++ rest) = some (decimalNat n) := by
  have hall : ∀ c ∈ decimalNat n, isDigit c = true := fun c => isDigit_of_mem_decimalNat
  have hend : isDigit underscore = false := by decide
  have htake : (decimalNat n ++ underscore :: rest).takeWhile isDigit = decimalNat n := by
    rw [List.takeWhile_append_of_pos hall, List.takeWhile_cons_of_neg (by simp [hend]),
      List.append_nil]
  have hdrop : (decimalNat n ++ underscore :: rest).dropWhile isDigit = underscore :: rest := by
    rw [List.dropWhile_append_of_pos hall, List.dropWhile_cons_of_neg (by simp [hend])]
  rw [underscored, List.cons_append, List.cons_append, List.append_assoc, List.singleton_append,
    escapeAt, htake, hdrop]
  exact if_pos ⟨rfl, decimalNat_ne_nil n, rfl⟩

/-- The characters that are read back. -/
def Readable (c : UInt16) : Prop := c < 0x80 ∧ c ≠ 0x24 ∧ c ≠ 0x5C

theorem replacement_of_readable {c : UInt16} (h : Readable c) : replacement c = some [c] :=
  if_neg fun hc => hc.elim h.2.1 h.2.2

/-- Letters and digits mean nothing to `appendReplacement`. -/
theorem replacement_of_isAlnum {c : UInt16} (h : isAlnum c = true) :
    replacement c = some [c] := by
  refine if_neg ?_
  rintro (rfl | rfl)
  · exact absurd h (by decide)
  · exact absurd h (by decide)

/-- An ASCII character is read back as `appendReplacement` writes it. -/
theorem urlSafeUnescape_escapeOne {c : UInt16} (h : c < 0x80) (rest : JString) :
    urlSafeUnescape (escapeOne c ++ rest) =
      (replacement c).bind fun r => (urlSafeUnescape rest).map (r ++ ·) := by
  unfold escapeOne
  split
  · -- a letter or a digit does not start a match
    rename_i hc
    have hne : c ≠ underscore := by
      rintro rfl
      exact absurd hc (by decide)
    have hat : escapeAt (c :: rest) = none := if_neg fun h => hne h.1
    rw [List.singleton_append, urlSafeUnescape, unescapeFrom, hat, replacement_of_isAlnum hc]
    rfl
  · have hlt : c.toNat < 0x80 := UInt16.lt_iff_toNat_lt.mp h
    obtain ⟨i, hi, hci⟩ := @parseInt_decimalNat c.toNat (by omega)
    have hchar : UInt16.ofNat i.toInt.toNat = c := by
      rw [hci, Int.toNat_natCast, UInt16.ofNat_toNat]
    have hat := escapeAt_underscored c.toNat rest
    have hlen : (decimalNat c.toNat).length + 1 = (decimalNat c.toNat ++ [underscore]).length := by
      simp
    rw [underscored, List.cons_append, List.cons_append] at hat ⊢
    rw [urlSafeUnescape, unescapeFrom, hat]
    simp only [hi, Option.bind_eq_bind, Option.bind_some, hchar, hlen,
      unescapeFrom_length_append]

/-- **ASCII text is read back**, if it has no dollar sign and no backslash. -/
theorem urlSafeUnescape_escape {s : JString} (h : ∀ c ∈ s, Readable c) :
    urlSafeUnescape (urlSafeEscape s) = some s := by
  induction s with
  | nil => rfl
  | cons c s ih =>
    have hc := h c List.mem_cons_self
    rw [urlSafeEscape_cons hc.1, urlSafeUnescape_escapeOne hc.1, replacement_of_readable hc,
      ih fun d hd => h d (List.mem_cons_of_mem c hd)]
    rfl

/-- A dollar sign or a backslash makes `appendReplacement` throw, wherever it stands. -/
theorem urlSafeUnescape_eq_none {s : JString} (hascii : ∀ c ∈ s, c < 0x80) {d : UInt16}
    (hd : d ∈ s) (hspecial : d = 0x24 ∨ d = 0x5C) : urlSafeUnescape (urlSafeEscape s) = none := by
  induction s with
  | nil => exact absurd hd List.not_mem_nil
  | cons c s ih =>
    have hc := hascii c List.mem_cons_self
    rw [urlSafeEscape_cons hc, urlSafeUnescape_escapeOne hc]
    rcases List.mem_cons.mp hd with rfl | hd
    · rw [show replacement d = none from if_pos hspecial]
      rfl
    · rw [ih (fun e he => hascii e (List.mem_cons_of_mem c he)) hd]
      cases replacement c with
      | none => rfl
      | some r => rfl

/-- **When escaping is lossless**: an ASCII text is read back exactly if it has no dollar sign and
no backslash. -/
theorem escape_lossless_iff {s : JString} (hascii : ∀ c ∈ s, c < 0x80) :
    urlSafeUnescape (urlSafeEscape s) = some s ↔ ∀ c ∈ s, c ≠ 0x24 ∧ c ≠ 0x5C := by
  constructor
  · intro hback c hc
    rw [← not_or]
    intro hspecial
    exact absurd (hback.symm.trans (urlSafeUnescape_eq_none hascii hc hspecial)) (by simp)
  · intro hplain
    exact urlSafeUnescape_escape fun c hc => ⟨hascii c hc, hplain c hc⟩

theorem escape_lossless_mail :
    urlSafeUnescape (urlSafeEscape (lit "bob_1@example.com")) = some (lit "bob_1@example.com") := by
  have hall : (lit "bob_1@example.com").all fun c => c < 0x80 ∧ c ≠ 0x24 ∧ c ≠ 0x5C := by
    rw [lit_ofList]
    decide
  have hchars := fun c hc => of_decide_eq_true (List.all_eq_true.mp hall c hc)
  exact (escape_lossless_iff fun c hc => (hchars c hc).1).mpr fun c hc => (hchars c hc).2

/-- **A dollar sign is lost**: `_36_` is read as a reference to a group. -/
theorem dollar_not_unescaped :
    urlSafeEscape (lit "a$b") = lit "a_36_b" ∧
      urlSafeUnescape (urlSafeEscape (lit "a$b")) = none := by
  repeat rw [lit_ofList]
  decide

end Escape
