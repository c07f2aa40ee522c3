/-
`xor_decrypt`, by which the client encodes the name of the user.

Each of its two passes writes the text as UTF-8, changes every byte by a key, and reads the
bytes one by one as texts of their own.  A byte outside ASCII is no text of its own: it becomes
U+FFFD, which has three bytes outside ASCII.

* `xorPass_eq_map` — a pass, byte by byte;
* `wideBytes_xorPass` — a pass triples the bytes outside ASCII;
* `xorPass_ascii` — on ASCII a pass changes every character by the key;
* `xorDecrypt_involutive_iff` — `xor_decrypt` undoes itself exactly on ASCII.
-/
import ReShadowsocks.Utf8

namespace XorDecrypt

open Json (Text)
open Utf8

def keyA : UInt8 := 32

def keyB : UInt8 := 25

/-- The loop of one pass. -/
def xorPass (key : UInt8) (s : Text) : Text := (encode s).flatMap fun b => decode [b ^^^ key]

def xorDecrypt (encrypted : Text) : Text := xorPass keyA (xorPass keyB encrypted)

/-! ### One byte -/

/-- The text of one byte. -/
def byteUnit (b : UInt8) : UInt16 := if b < 0x80 then b.toUInt16 else 0xFFFD

theorem decode_singleton (b : UInt8) : decode [b] = [byteUnit b] := by
  unfold byteUnit
  by_cases hb : b < 0x80
  · rw [if_pos hb]
    exact decode_ascii (List.forall_mem_singleton.mpr hb)
  · have hlarge : ¬ b.toNat < 0x80 := fun h => hb (UInt8.lt_iff_toNat_lt.mpr h)
    -- a sequence of more bytes does not fit
    have hfirst : firstPoint [b] = none := by
      rw [firstPoint, if_neg hlarge]
      split_ifs <;> rfl
    rw [if_neg hb, decode, decodeFrom, hfirst]
    rfl

theorem xor_lt_of_lt {b key : UInt8} (hb : b < 0x80) (hkey : key < 0x80) : b ^^^ key < 0x80 := by
  rw [UInt8.lt_iff_toNat_lt] at hb hkey ⊢
  rw [UInt8.toNat_xor]
  exact Nat.xor_lt_two_pow (n := 7) hb hkey

theorem xor_lt_iff {b key : UInt8} (hkey : key < 0x80) : b ^^^ key < 0x80 ↔ b < 0x80 := by
  refine ⟨fun h => ?_, fun h => xor_lt_of_lt h hkey⟩
  have hback := xor_lt_of_lt h hkey
  rwa [UInt8.xor_assoc, UInt8.xor_self, UInt8.xor_zero] at hback

/-- A pass, byte by byte. -/
theorem xorPass_eq_map (key : UInt8) (s : Text) :
    xorPass key s = (encode s).map fun b => byteUnit (b ^^^ key) := by
  unfold xorPass
  simp only [decode_singleton]
  exact List.flatMap_pure_eq_map _ _

/-! ### Bytes outside ASCII -/

/-- The number of bytes outside ASCII in the UTF-8 of a text. -/
def wideBytes (s : Text) : Nat := (encode s).countP fun b => !decide (b < 0x80)

theorem encode_byteUnit_cons (b : UInt8) (t : Text) :
    encode (byteUnit b :: t) = encodePoint (byteUnit b).toNat ++ encode t := by
  refine encode_of_codePoints ?_
  unfold byteUnit
  split
  · rename_i hb
    have hlt : b.toUInt16 < 0x80 := by
      rw [UInt16.lt_iff_toNat_lt]
      rw [UInt8.lt_iff_toNat_lt] at hb
      simpa using hb
    exact codePoints_cons (not_surrogate hlt).1 (not_surrogate hlt).2 t
  · exact codePoints_cons (by decide) (by decide) t

theorem wideBytes_byteUnit_cons (b : UInt8) (t : Text) :
    wideBytes (byteUnit b :: t) = (if b < 0x80 then 0 else 3) + wideBytes t := by
  rw [wideBytes, encode_byteUnit_cons, List.countP_append]
  refine congrArg (· + wideBytes t) ?_
  unfold byteUnit
  split
  · rename_i hb
    have hlt : b.toUInt16.toNat < 0x80 := by
      rw [UInt8.lt_iff_toNat_lt] at hb
      simpa using hb
    have hb' : UInt8.ofNat b.toUInt16.toNat = b := by simp
    rw [encodePoint, if_pos hlt, hb', List.countP_singleton]
    simp [hb]
  · decide

/-- **A pass triples the bytes outside ASCII.** -/
theorem wideBytes_xorPass {key : UInt8} (hkey : key < 0x80) (s : Text) :
    wideBytes (xorPass key s) = 3 * wideBytes s := by
  have hbytes : ∀ bs : List UInt8, wideBytes (bs.map fun b => byteUnit (b ^^^ key)) =
      3 * bs.countP fun b => !decide (b < 0x80) := by
    intro bs
    induction bs with
    | nil => rfl
    | cons b bs ih =>
      rw [List.map_cons, wideBytes_byteUnit_cons, ih, List.countP_cons]
      simp only [xor_lt_iff hkey]
      by_cases hb : b < 0x80
      · simp [hb]
      · simp [hb]
        omega
  rw [xorPass_eq_map, hbytes]
  rfl

theorem wideBytes_xorDecrypt (s : Text) : wideBytes (xorDecrypt s) = 9 * wideBytes s := by
  rw [xorDecrypt, wideBytes_xorPass (by decide), wideBytes_xorPass (by decide)]
  omega

/-! ### ASCII -/

/-- Every character is ASCII. -/
def Ascii (s : Text) : Prop := ∀ c ∈ s, c < 0x80

instance (s : Text) : Decidable (Ascii s) := inferInstanceAs (Decidable (∀ c ∈ s, c < 0x80))

/-- A pass over bytes of ASCII gives ASCII, also if the text had unpaired surrogates. -/
theorem ascii_xorPass {key : UInt8} (hkey : key < 0x80) {s : Text} (h : wideBytes s = 0) :
    Ascii (xorPass key s) := by
  intro c hc
  rw [xorPass_eq_map] at hc
  obtain ⟨b, hb, rfl⟩ := List.mem_map.mp hc
  have hsmall : b < 0x80 := by simpa using List.countP_eq_zero.mp h b hb
  have hxor := xor_lt_of_lt hsmall hkey
  rw [byteUnit, if_pos hxor, UInt16.lt_iff_toNat_lt]
  rw [UInt8.lt_iff_toNat_lt] at hxor
  simpa using hxor

theorem encode_ascii {s : Text} (h : Ascii s) : encode s = s.map UInt16.toUInt8 := by
  induction s with
  | nil => rfl
  | cons c s ih =>
    have hc : c < 0x80 := h c List.mem_cons_self
    have hlt : c.toNat < 0x80 := UInt16.lt_iff_toNat_lt.mp hc
    have hs : Ascii s := fun d hd => h d (List.mem_cons_of_mem c hd)
    obtain ⟨hhigh, hlow⟩ := not_surrogate hc
    rw [encode_of_codePoints (codePoints_cons hhigh hlow s), encodePoint, if_pos hlt, ih hs]
    rfl

theorem toUInt8_lt {c : UInt16} (hc : c < 0x80) : c.toUInt8 < 0x80 ∧ c.toUInt8.toNat = c.toNat := by
  have hlt : c.toNat < 0x80 := UInt16.lt_iff_toNat_lt.mp hc
  have hbyte : c.toUInt8.toNat = c.toNat := by
    rw [UInt16.toNat_toUInt8]
    omega
  refine ⟨?_, hbyte⟩
  rw [UInt8.lt_iff_toNat_lt, hbyte]
  exact hlt

theorem wideBytes_ascii {s : Text} (h : Ascii s) : wideBytes s = 0 := by
  refine List.countP_eq_zero.mpr ?_
  rw [encode_ascii h]
  intro b hb
  obtain ⟨c, hc, rfl⟩ := List.mem_map.mp hb
  simp [(toUInt8_lt (h c hc)).1]

/-- On ASCII a pass changes every character by the key. -/
theorem xorPass_ascii {key : UInt8} (hkey : key < 0x80) {s : Text} (h : Ascii s) :
    xorPass key s = s.map (· ^^^ key.toUInt16) := by
  rw [xorPass_eq_map, encode_ascii h, List.map_map]
  refine List.map_congr_left fun c hc => ?_
  obtain ⟨hsmall, hbyte⟩ := toUInt8_lt (h c hc)
  rw [Function.comp_apply, byteUnit, if_pos (xor_lt_of_lt hsmall hkey)]
  refine UInt16.toNat_inj.mp ?_
  rw [UInt8.toNat_toUInt16, UInt8.toNat_xor, UInt16.toNat_xor, hbyte, UInt8.toNat_toUInt16]

theorem Ascii.xorPass {key : UInt8} (hkey : key < 0x80) {s : Text} (h : Ascii s) :
    Ascii (xorPass key s) :=
  ascii_xorPass hkey (wideBytes_ascii h)

theorem xorDecrypt_ascii {s : Text} (h : Ascii s) :
    xorDecrypt s = s.map (· ^^^ (keyB.toUInt16 ^^^ keyA.toUInt16)) := by
  have hB : keyB < 0x80 := by decide
  rw [xorDecrypt, xorPass_ascii (by decide) (h.xorPass hB), xorPass_ascii hB h, List.map_map]
  exact List.map_congr_left fun c _ => UInt16.xor_assoc _ _ _

/-- **`xor_decrypt` undoes itself exactly on ASCII.**  Each of the four passes triples the bytes
outside ASCII, so a text that comes back has none; it is then the result of a pass over ASCII. -/
theorem xorDecrypt_involutive_iff (s : Text) : xorDecrypt (xorDecrypt s) = s ↔ Ascii s := by
  constructor
  · intro h
    have hcount := wideBytes_xorDecrypt (xorDecrypt s)
    rw [h, wideBytes_xorDecrypt] at hcount
    have hzero : wideBytes (xorPass keyB (xorDecrypt s)) = 0 := by
      rw [wideBytes_xorPass (by decide), wideBytes_xorDecrypt]
      omega
    rw [← h]
    exact ascii_xorPass (by decide) hzero
  · intro h
    have hfirst : Ascii (xorDecrypt s) := (h.xorPass (by decide)).xorPass (by decide)
    rw [xorDecrypt_ascii hfirst, xorDecrypt_ascii h, List.map_map]
    refine List.map_id'' (fun c => ?_) s
    rw [Function.comp_apply, UInt16.xor_assoc, UInt16.xor_self, UInt16.xor_zero]

end XorDecrypt
