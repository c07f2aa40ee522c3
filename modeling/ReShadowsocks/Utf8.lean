/-
UTF-8 between texts of UTF-16 code units and bytes.

`encode` writes a question mark for a unit that belongs to no character; `decode` writes
U+FFFD for each byte at which no well-formed sequence starts.  Both are total, as
`String.getBytes` and `new String` are.

* `codePoints_append` — characters do not reach across the end of a well-formed text;
* `decode_encodePoint` — one character is read back, and what follows it is left alone;
* `decode_encode` — a well-formed text is read back from its bytes.
-/
import ReShadowsocks.Json

namespace Utf8

open Json (Text)

/-! ### Characters -/

def High (c : UInt16) : Prop := 0xD800 ≤ c.toNat ∧ c.toNat < 0xDC00

def Low (c : UInt16) : Prop := 0xDC00 ≤ c.toNat ∧ c.toNat < 0xE000

instance (c : UInt16) : Decidable (High c) := inferInstanceAs (Decidable (_ ∧ _))

instance (c : UInt16) : Decidable (Low c) := inferInstanceAs (Decidable (_ ∧ _))

/-- The character of a surrogate pair. -/
def pairPoint (c d : UInt16) : Nat := 0x10000 + (c.toNat - 0xD800) * 0x400 + (d.toNat - 0xDC00)

/-- The characters of a text; `none` is a surrogate without its partner. -/
def codePoints : Text → List (Option Nat)
  | [] => []
  | c :: t =>
    if High c then
      match t with
      | [] => [none]
      | d :: t =>
        if Low d then some (pairPoint c d) :: codePoints t
        else none :: codePoints (d :: t)
    else if Low c then none :: codePoints t
    else some c.toNat :: codePoints t

/-- Every surrogate has its partner. -/
def WellFormed (s : Text) : Prop := none ∉ codePoints s

instance (s : Text) : Decidable (WellFormed s) := inferInstanceAs (Decidable (_ ∉ _))

/-- A character of Unicode. -/
def Scalar (n : Nat) : Prop := n < 0xD800 ∨ 0xE000 ≤ n ∧ n < 0x110000

instance (n : Nat) : Decidable (Scalar n) := inferInstanceAs (Decidable (_ ∨ _))

/-- The code units of a character. -/
def units (n : Nat) : Text :=
  if n < 0x10000 then [UInt16.ofNat n]
  else [UInt16.ofNat (0xD800 + (n - 0x10000) / 0x400), UInt16.ofNat (0xDC00 + n % 0x400)]

/-! ### Bytes -/

/-- A byte that goes on with a sequence: the two bits 10, and six bits. -/
def tail (n : Nat) : UInt8 := UInt8.ofNat (0x80 + n % 0x40)

def encodePoint (n : Nat) : List UInt8 :=
  if n < 0x80 then [UInt8.ofNat n]
  else if n < 0x800 then [UInt8.ofNat (0xC0 + n / 0x40), tail n]
  else if n < 0x10000 then [UInt8.ofNat (0xE0 + n / 0x1000), tail (n / 0x40), tail n]
  else [UInt8.ofNat (0xF0 + n / 0x40000), tail (n / 0x1000), tail (n / 0x40), tail n]

/-- `s.getBytes("UTF-8")`. -/
def encode (s : Text) : List UInt8 :=
  (codePoints s).flatMap fun c => c.elim [0x3F] encodePoint

/-- The six bits of a byte that goes on with a sequence. -/
def sextet (b : UInt8) : Option Nat :=
  if 0x80 ≤ b.toNat ∧ b.toNat < 0xC0 then some (b.toNat - 0x80) else none

/-- `n`, if it is a character that needs this many bytes. -/
def shortest (least n : Nat) : Option Nat := if least ≤ n ∧ Scalar n then some n else none

/-- The character whose sequence starts here, with the number of bytes after the first. -/
def firstPoint : List UInt8 → Option (Nat × Nat)
  | [] => none
  | b :: t =>
    if b.toNat < 0x80 then some (b.toNat, 0)
    else if b.toNat < 0xC0 then none
    else if b.toNat < 0xE0 then do
      let x ← t[0]? >>= sextet
      let n ← shortest 0x80 ((b.toNat - 0xC0) * 0x40 + x)
      return (n, 1)
    else if b.toNat < 0xF0 then do
      let x ← t[0]? >>= sextet
      let y ← t[1]? >>= sextet
      let n ← shortest 0x800 (((b.toNat - 0xE0) * 0x40 + x) * 0x40 + y)
      return (n, 2)
    else do
      let x ← t[0]? >>= sextet
      let y ← t[1]? >>= sextet
      let z ← t[2]? >>= sextet
      let n ← shortest 0x10000 ((((b.toNat - 0xF0) * 0x40 + x) * 0x40 + y) * 0x40 + z)
      return (n, 3)

/-- The text of the bytes, once `skip` of them are passed over. -/
def decodeFrom : Nat → List UInt8 → Text
  | _, [] => []
  | skip + 1, _ :: t => decodeFrom skip t
  | 0, b :: t =>
    match firstPoint (b :: t) with
    | some (n, skip) => units n ++ decodeFrom skip t
    | none => 0xFFFD :: decodeFrom 0 t

/-- `new String(bytes, "UTF-8")`. -/
def decode (bytes : List UInt8) : Text := decodeFrom 0 bytes

/-! ### Well-formed texts -/

theorem codePoints_cons {c : UInt16} (hhigh : ¬ High c) (hlow : ¬ Low c) (t : Text) :
    codePoints (c :: t) = some c.toNat :: codePoints t := by
  rw [codePoints.eq_def]
  simp only [if_neg hhigh, if_neg hlow]

theorem codePoints_pair {c d : UInt16} (hc : High c) (hd : Low d) (t : Text) :
    codePoints (c :: d :: t) = some (pairPoint c d) :: codePoints t := by
  rw [codePoints.eq_def]
  simp only [if_pos hc, if_pos hd]

/-- The texts without unpaired surrogates, built from the front. -/
@[elab_as_elim]
theorem WellFormed.rec_on {P : Text → Prop} (nil : P [])
    (cons : ∀ c t, ¬ High c → ¬ Low c → WellFormed t → P t → P (c :: t))
    (pair : ∀ c d t, High c → Low d → WellFormed t → P t → P (c :: d :: t))
    {s : Text} (hs : WellFormed s) : P s := by
  revert hs
  fun_induction codePoints s with
  | case1 => exact fun _ => nil
  | case2 c hc =>
    intro h
    rw [WellFormed, codePoints.eq_def] at h
    simp [hc] at h
  | case3 c hc d t hd ih =>
    intro h
    have ht : WellFormed t := fun hmem => h (by
      rw [codePoints_pair hc hd]
      exact List.mem_cons_of_mem _ hmem)
    exact pair c d t hc hd ht (ih ht)
  | case4 c hc d t hd ih =>
    intro h
    rw [WellFormed, codePoints.eq_def] at h
    simp [hc, hd] at h
  | case5 c t hc hd ih =>
    intro h
    rw [WellFormed, codePoints.eq_def] at h
    simp [hc, hd] at h
  | case6 c t hc hd ih =>
    intro h
    have ht : WellFormed t := fun hmem => h (by
      rw [codePoints_cons hc hd]
      exact List.mem_cons_of_mem _ hmem)
    exact cons c t hc hd ht (ih ht)

/-- **Characters do not reach across the end of a well-formed text.** -/
theorem codePoints_append {s : Text} (hs : WellFormed s) (t : Text) :
    codePoints (s ++ t) = codePoints s ++ codePoints t := by
  refine WellFormed.rec_on ?_ ?_ ?_ hs
  · rfl
  · intro c s hhigh hlow _ ih
    rw [List.cons_append, codePoints_cons hhigh hlow, codePoints_cons hhigh hlow, ih]
    rfl
  · intro c d s hc hd _ ih
    rw [List.cons_append, List.cons_append, codePoints_pair hc hd, codePoints_pair hc hd, ih]
    rfl

theorem WellFormed.append {s t : Text} (hs : WellFormed s) (ht : WellFormed t) :
    WellFormed (s ++ t) := by
  rw [WellFormed, codePoints_append hs, List.mem_append]
  exact fun h => h.elim hs ht

theorem not_surrogate {c : UInt16} (h : c < 0x80) : ¬ High c ∧ ¬ Low c := by
  have hlt : c.toNat < 0x80 := UInt16.lt_iff_toNat_lt.mp h
  refine ⟨fun hh => ?_, fun hl => ?_⟩
  · have := hh.1
    omega
  · have := hl.1
    omega

theorem wellFormed_ascii {s : Text} (h : ∀ c ∈ s, c < 0x80) : WellFormed s := by
  induction s with
  | nil => exact List.not_mem_nil
  | cons c s ih =>
    obtain ⟨hhigh, hlow⟩ := not_surrogate (h c List.mem_cons_self)
    rw [WellFormed, codePoints_cons hhigh hlow, List.mem_cons]
    exact fun hmem => hmem.elim nofun (ih fun c hc => h c (List.mem_cons_of_mem _ hc))

/-! ### Reading back -/

theorem toNat_ofNat {n : Nat} (h : n < 0x100) : (UInt8.ofNat n).toNat = n := by
  rw [UInt8.toNat_ofNat', Nat.mod_eq_of_lt h]

theorem sextet_tail (n : Nat) : sextet (tail n) = some (n % 0x40) := by
  have hn : (tail n).toNat = 0x80 + n % 0x40 := toNat_ofNat (by omega)
  rw [sextet, hn, if_pos (by omega), Nat.add_sub_cancel_left]

theorem decodeFrom_length_append (x bs : List UInt8) :
    decodeFrom x.length (x ++ bs) = decode bs := by
  induction x with
  | nil => rfl
  | cons b x ih =>
    rw [List.length_cons, List.cons_append, decodeFrom]
    exact ih

theorem decode_of_firstPoint {b : UInt8} {x bs : List UInt8} {n : Nat}
    (h : firstPoint (b :: (x ++ bs)) = some (n, x.length)) :
    decode (b :: (x ++ bs)) = units n ++ decode bs := by
  rw [decode, decodeFrom, h]
  exact congrArg _ (decodeFrom_length_append x bs)

/-- **One character is read back**, whatever follows it. -/
theorem decode_encodePoint {n : Nat} (h : Scalar n) (bs : List UInt8) :
    decode (encodePoint n ++ bs) = units n ++ decode bs := by
  have hmax : n < 0x110000 := h.elim (by omega) And.right
  -- a case for each length of the sequence: the first byte tells it, and the bits put together
  -- are the character again
  unfold encodePoint
  split
  · rename_i h1
    have hb : (UInt8.ofNat n).toNat = n := toNat_ofNat (by omega)
    refine @decode_of_firstPoint _ [] bs n ?_
    rw [firstPoint, hb, if_pos h1]
    rfl
  split
  · rename_i h1 h2
    have hshort : shortest 0x80 n = some n := if_pos ⟨by omega, h⟩
    have hb : (UInt8.ofNat (0xC0 + n / 0x40)).toNat = 0xC0 + n / 0x40 := toNat_ofNat (by omega)
    have hval : (0xC0 + n / 0x40 - 0xC0) * 0x40 + n % 0x40 = n := by omega
    refine @decode_of_firstPoint _ [tail n] bs n ?_
    rw [firstPoint, hb, if_neg (by omega), if_neg (by omega), if_pos (by omega)]
    simp only [List.cons_append, List.getElem?_cons_zero, Option.bind_eq_bind,
      Option.bind_some, sextet_tail, hval, hshort]
    rfl
  split
  · rename_i h1 h2 h3
    have hshort : shortest 0x800 n = some n := if_pos ⟨by omega, h⟩
    have hb : (UInt8.ofNat (0xE0 + n / 0x1000)).toNat = 0xE0 + n / 0x1000 :=
      toNat_ofNat (by omega)
    have hval : ((0xE0 + n / 0x1000 - 0xE0) * 0x40 + n / 0x40 % 0x40) * 0x40 + n % 0x40 = n := by
      omega
    refine @decode_of_firstPoint _ [tail (n / 0x40), tail n] bs n ?_
    rw [firstPoint, hb, if_neg (by omega), if_neg (by omega), if_neg (by omega),
      if_pos (by omega)]
    simp only [List.cons_append, List.getElem?_cons_zero, List.getElem?_cons_succ,
      Option.bind_eq_bind, Option.bind_some, sextet_tail, hval, hshort]
    rfl
  · rename_i h1 h2 h3
    have hshort : shortest 0x10000 n = some n := if_pos ⟨by omega, h⟩
    have hb : (UInt8.ofNat (0xF0 + n / 0x40000)).toNat = 0xF0 + n / 0x40000 :=
      toNat_ofNat (by omega)
    have hval : (((0xF0 + n / 0x40000 - 0xF0) * 0x40 + n / 0x1000 % 0x40) * 0x40 +
        n / 0x40 % 0x40) * 0x40 + n % 0x40 = n := by omega
    refine @decode_of_firstPoint _ [tail (n / 0x1000), tail (n / 0x40), tail n] bs n ?_
    rw [firstPoint, hb, if_neg (by omega), if_neg (by omega), if_neg (by omega),
      if_neg (by omega)]
    simp only [List.cons_append, List.getElem?_cons_zero, List.getElem?_cons_succ,
      Option.bind_eq_bind, Option.bind_some, sextet_tail, hval, hshort]
    rfl

theorem units_of_cons {c : UInt16} : units c.toNat = [c] := by
  have hc := c.toNat_lt
  rw [units, if_pos hc, UInt16.ofNat_toNat]

theorem units_of_pair {c d : UInt16} (hc : High c) (hd : Low d) :
    units (pairPoint c d) = [c, d] := by
  obtain ⟨hc1, hc2⟩ := hc
  obtain ⟨hd1, hd2⟩ := hd
  have h1 : 0xD800 + (pairPoint c d - 0x10000) / 0x400 = c.toNat := by
    unfold pairPoint
    omega
  have h2 : 0xDC00 + pairPoint c d % 0x400 = d.toNat := by
    unfold pairPoint
    omega
  have hlarge : ¬ pairPoint c d < 0x10000 := by
    unfold pairPoint
    omega
  rw [units, if_neg hlarge, h1, h2, UInt16.ofNat_toNat, UInt16.ofNat_toNat]

theorem encode_of_codePoints {s t : Text} {n : Nat} (h : codePoints s = some n :: codePoints t) :
    encode s = encodePoint n ++ encode t := by
  rw [encode, h, List.flatMap_cons]
  rfl

/-- **A well-formed text is read back from its bytes.** -/
theorem decode_encode {s : Text} (hs : WellFormed s) : decode (encode s) = s := by
  refine WellFormed.rec_on ?_ ?_ ?_ hs
  · rfl
  · intro c t hhigh hlow _ ih
    have hc := c.toNat_lt
    have hscalar : Scalar c.toNat := by
      simp only [High, Low] at hhigh hlow
      rw [Scalar]
      omega
    rw [encode_of_codePoints (codePoints_cons hhigh hlow t), decode_encodePoint hscalar,
      units_of_cons, ih]
    rfl
  · intro c d t hc hd _ ih
    have hscalar : Scalar (pairPoint c d) := by
      simp only [High, Low] at hc hd
      unfold Scalar pairPoint
      omega
    rw [encode_of_codePoints (codePoints_pair hc hd t), decode_encodePoint hscalar,
      units_of_pair hc hd, ih]
    rfl

/-- Bytes of ASCII are read as they are. -/
theorem decode_ascii {bs : List UInt8} (h : ∀ b ∈ bs, b < 0x80) :
    decode bs = bs.map UInt8.toUInt16 := by
  induction bs with
  | nil => rfl
  | cons b bs ih =>
    have hb : b.toNat < 0x80 := UInt8.lt_iff_toNat_lt.mp (h b List.mem_cons_self)
    have hfirst : firstPoint (b :: ([] ++ bs)) = some (b.toNat, 0) := if_pos hb
    have hunits : units b.toNat = [b.toUInt16] := by
      rw [units, if_pos (by omega)]
      exact congrArg (fun c => [c]) (UInt16.toNat_inj.mp (by simp))
    have hstep := decode_of_firstPoint hfirst
    rw [List.nil_append] at hstep
    rw [hstep, hunits, ih fun b hb => h b (List.mem_cons_of_mem _ hb)]
    rfl

/-- Different well-formed texts have different bytes. -/
theorem encode_injective {s t : Text} (hs : WellFormed s) (ht : WellFormed t)
    (h : encode s = encode t) : s = t := by
  rw [← decode_encode hs, h, decode_encode ht]

end Utf8
