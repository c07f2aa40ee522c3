/-
Base 64: bytes as symbols of six bits each.

`encodeToString` and `decode` are those of `android.util.Base64` with the flag `NO_PADDING`:
lines of 76 symbols, each ended by a line feed, and a reader that passes over whatever is not
a symbol.

* `octets_sextets` — bytes are put together again from their symbols' values;
* `decode_encodeToString` — bytes are read back from their text.
-/
import Mathlib.Data.List.TakeWhile
import ReShadowsocks.Json

namespace Rfc4648

open Json (Text newline)

/-! ### Symbols -/

/-- The symbol for six bits, as a character code. -/
def symbol (n : Nat) : Nat :=
  if n < 26 then 0x41 + n
  else if n < 52 then 0x61 + (n - 26)
  else if n < 62 then 0x30 + (n - 52)
  else if n = 62 then 0x2B
  else 0x2F

def value (c : Nat) : Option Nat :=
  if 0x41 ≤ c ∧ c ≤ 0x5A then some (c - 0x41)
  else if 0x61 ≤ c ∧ c ≤ 0x7A then some (c - 0x61 + 26)
  else if 0x30 ≤ c ∧ c ≤ 0x39 then some (c - 0x30 + 52)
  else if c = 0x2B then some 62
  else if c = 0x2F then some 63
  else none

theorem symbol_spec : ∀ n < 64, value (symbol n) = some n ∧ symbol n < 0x80 := by decide

theorem value_symbol {n : Nat} (h : n < 64) : value (symbol n) = some n := (symbol_spec n h).1

theorem symbol_lt {n : Nat} (h : n < 64) : symbol n < 0x80 := (symbol_spec n h).2

theorem symbol_of_value {c n : Nat} (h : value c = some n) : n < 64 ∧ symbol n = c := by
  unfold value at h
  split_ifs at h <;>
    · obtain rfl := Option.some.inj h
      refine ⟨by omega, ?_⟩
      unfold symbol
      split_ifs <;> omega

/-! ### Six bits and eight bits -/

/-- The first symbol of a group of three bytes; the others follow. -/
def sextet1 (a : UInt8) : Nat := a.toNat / 4

def sextet2 (a b : UInt8) : Nat := a.toNat % 4 * 16 + b.toNat / 16

def sextet3 (b c : UInt8) : Nat := b.toNat % 16 * 4 + c.toNat / 64

def sextet4 (c : UInt8) : Nat := c.toNat % 64

def octet1 (p q : Nat) : UInt8 := UInt8.ofNat (p * 4 + q / 16)

def octet2 (q r : Nat) : UInt8 := UInt8.ofNat (q % 16 * 16 + r / 4)

def octet3 (r s : Nat) : UInt8 := UInt8.ofNat (r % 4 * 64 + s)

theorem sextet1_lt (a : UInt8) : sextet1 a < 64 := by
  have ha := a.toNat_lt
  rw [sextet1]
  omega

theorem sextet2_lt (a b : UInt8) : sextet2 a b < 64 := by
  have hb := b.toNat_lt
  rw [sextet2]
  omega

theorem sextet3_lt (b c : UInt8) : sextet3 b c < 64 := by
  have hc := c.toNat_lt
  rw [sextet3]
  omega

theorem sextet4_lt (c : UInt8) : sextet4 c < 64 := Nat.mod_lt _ (by decide)

theorem octet1_sextets (a b : UInt8) : octet1 (sextet1 a) (sextet2 a b) = a := by
  have hb := b.toNat_lt
  have h : sextet1 a * 4 + sextet2 a b / 16 = a.toNat := by
    rw [sextet1, sextet2]
    omega
  rw [octet1, h, UInt8.ofNat_toNat]

theorem octet2_sextets (a b c : UInt8) : octet2 (sextet2 a b) (sextet3 b c) = b := by
  have hb := b.toNat_lt
  have hc := c.toNat_lt
  have h : sextet2 a b % 16 * 16 + sextet3 b c / 4 = b.toNat := by
    rw [sextet2, sextet3]
    omega
  rw [octet2, h, UInt8.ofNat_toNat]

theorem octet3_sextets (b c : UInt8) : octet3 (sextet3 b c) (sextet4 c) = c := by
  have hc := c.toNat_lt
  have h : sextet3 b c % 4 * 64 + sextet4 c = c.toNat := by
    rw [sextet3, sextet4]
    omega
  rw [octet3, h, UInt8.ofNat_toNat]

/-- The values of the symbols, without padding. -/
def sextets : List UInt8 → List Nat
  | [] => []
  | [a] => [sextet1 a, sextet2 a 0]
  | [a, b] => [sextet1 a, sextet2 a b, sextet3 b 0]
  | a :: b :: c :: t => sextet1 a :: sextet2 a b :: sextet3 b c :: sextet4 c :: sextets t

/-- One symbol alone has not enough bits for a byte. -/
def octets : List Nat → Option (List UInt8)
  | [] => some []
  | [_] => none
  | [p, q] => some [octet1 p q]
  | [p, q, r] => some [octet1 p q, octet2 q r]
  | p :: q :: r :: s :: t =>
    (octets t).map fun bs => octet1 p q :: octet2 q r :: octet3 r s :: bs

theorem sextets_lt (bs : List UInt8) : ∀ n ∈ sextets bs, n < 64 := by
  fun_induction sextets bs with
  | case1 => exact fun n h => absurd h List.not_mem_nil
  | case2 a => simp [sextet1_lt, sextet2_lt]
  | case3 a b => simp [sextet1_lt, sextet2_lt, sextet3_lt]
  | case4 a b c t ih =>
    simp only [List.forall_mem_cons, sextet1_lt, sextet2_lt, sextet3_lt, sextet4_lt, true_and]
    exact ih

/-- **Bytes are put together again.** -/
theorem octets_sextets (bs : List UInt8) : octets (sextets bs) = some bs := by
  fun_induction sextets bs with
  | case1 => rfl
  | case2 a => rw [octets, octet1_sextets]
  | case3 a b => rw [octets, octet1_sextets, octet2_sextets]
  | case4 a b c t ih =>
    rw [octets, ih, octet1_sextets, octet2_sextets, octet3_sextets]
    rfl

/-! ### Lines -/

/-- Lines of 76 units, with room for `room` more in the first; every line is ended. -/
def wrapFrom : Nat → Text → Text
  | room, [] => if room = 76 then [] else [newline]
  | room, c :: t =>
    if room = 1 then c :: newline :: wrapFrom 76 t else c :: wrapFrom (room - 1) t

theorem filter_wrapFrom {p : UInt16 → Bool} (hp : p newline = false) (room : Nat) (s : Text) :
    (wrapFrom room s).filter p = s.filter p := by
  have hskip (t : Text) : (newline :: t).filter p = t.filter p :=
    List.filter_cons_of_neg (by simp [hp])
  induction s generalizing room with
  | nil =>
    unfold wrapFrom
    split
    · rfl
    · exact hskip []
  | cons c s ih =>
    unfold wrapFrom
    split
    · rw [List.filter_cons, hskip, ih, ← List.filter_cons]
    · rw [List.filter_cons, ih, ← List.filter_cons]

theorem mem_of_mem_wrapFrom {c : UInt16} (room : Nat) (s : Text) (h : c ∈ wrapFrom room s) :
    c ∈ s ∨ c = newline := by
  by_cases hc : c = newline
  · exact .inr hc
  · have hp : (fun d => d == c) newline = false := by
      rw [beq_eq_false_iff_ne]
      exact fun heq => hc heq.symm
    have hmem : c ∈ (wrapFrom room s).filter fun d => d == c :=
      List.mem_filter.mpr ⟨h, beq_self_eq_true c⟩
    rw [filter_wrapFrom hp] at hmem
    exact .inl (List.mem_of_mem_filter hmem)

/-! ### Texts -/

def padding : UInt16 := 0x3D

/-- The symbols of the bytes. -/
def symbols (bs : List UInt8) : Text := (sextets bs).map fun n => UInt16.ofNat (symbol n)

/-- `Base64.encodeToString(bytes, NO_PADDING)`. -/
def encodeToString (bs : List UInt8) : Text := wrapFrom 76 (symbols bs)

/-- What the reader looks at: a symbol, or the padding. -/
def isMark (c : UInt16) : Bool := (value c.toNat).isSome || c == padding

/-- `Base64.decode(s, NO_PADDING)`; `none` is an `IllegalArgumentException`. -/
def decode (s : Text) : Option (List UInt8) :=
  let marks := s.filter isMark
  let data := marks.takeWhile (· != padding)
  let pad := marks.dropWhile (· != padding)
  -- padding is not asked for, but what is there must fill the last group
  if pad = [] ∨ pad.all (· == padding) ∧ 2 ≤ data.length % 4 ∧ data.length % 4 + pad.length = 4 then
    octets (data.filterMap fun c => value c.toNat)
  else none

theorem toNat_symbol {n : Nat} (h : n < 64) : (UInt16.ofNat (symbol n)).toNat = symbol n := by
  have hlt := symbol_lt h
  rw [UInt16.toNat_ofNat']
  omega

theorem value_of_mem_symbols {bs : List UInt8} {c : UInt16} (h : c ∈ symbols bs) :
    ∃ n < 64, c.toNat = symbol n ∧ value c.toNat = some n := by
  obtain ⟨n, hn, rfl⟩ := List.mem_map.mp h
  have hlt := sextets_lt bs n hn
  exact ⟨n, hlt, toNat_symbol hlt, by rw [toNat_symbol hlt, value_symbol hlt]⟩

theorem ne_of_mem_symbols {bs : List UInt8} {c d : UInt16} (h : c ∈ symbols bs)
    (hd : value d.toNat = none) : c ≠ d := by
  rintro rfl
  obtain ⟨n, -, -, hn⟩ := value_of_mem_symbols h
  rw [hd] at hn
  exact nomatch hn

theorem values_symbols (bs : List UInt8) :
    (symbols bs).filterMap (fun c => value c.toNat) = sextets bs := by
  have hvalue : ∀ n ∈ sextets bs, value (UInt16.ofNat (symbol n)).toNat = some n := by
    intro n hn
    have hlt := sextets_lt bs n hn
    rw [toNat_symbol hlt, value_symbol hlt]
  rw [symbols, List.filterMap_map]
  exact (List.filterMap_congr hvalue).trans List.filterMap_some

/-- Only symbols and line feeds are written. -/
theorem not_mem_encodeToString {d : UInt16} (bs : List UInt8) (hd : value d.toNat = none)
    (hline : d ≠ newline) : d ∉ encodeToString bs := fun h =>
  (mem_of_mem_wrapFrom 76 _ h).elim (fun hmem => ne_of_mem_symbols hmem hd rfl) hline

/-- **Bytes are read back from their text.** -/
theorem decode_encodeToString (bs : List UInt8) : decode (encodeToString bs) = some bs := by
  have hmark : ∀ c ∈ symbols bs, isMark c = true := by
    intro c hc
    obtain ⟨n, -, -, hn⟩ := value_of_mem_symbols hc
    rw [isMark, hn, Option.isSome_some, Bool.true_or]
  have hmarks : (encodeToString bs).filter isMark = symbols bs := by
    rw [encodeToString, filter_wrapFrom (by decide), List.filter_eq_self.mpr hmark]
  have hdata : ∀ c ∈ symbols bs, (c != padding) = true :=
    fun c hc => bne_iff_ne.mpr (ne_of_mem_symbols hc (by decide))
  have htake : (symbols bs).takeWhile (· != padding) = symbols bs :=
    List.takeWhile_eq_self_iff.mpr hdata
  have hdrop : (symbols bs).dropWhile (· != padding) = [] :=
    List.dropWhile_eq_nil_iff.mpr hdata
  rw [decode, hmarks, htake, hdrop, if_pos (.inl rfl), values_symbols, octets_sextets]

end Rfc4648
