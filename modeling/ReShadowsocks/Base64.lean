/-
`util.Base64`, the coder that the app brings along.

`encode` writes three bytes as four characters and fills the last four up.  `decode` drops
what is no Base64 character, writes all groups but the last in a loop, and looks for the
padding twice: for the size of the array and for the last group.

* `decodeLoop_encode` — the loop writes the bytes of all groups but the last;
* `decode_encode` — a non-empty array is read back from its characters;
* `decodeLoop_some`, `entries_of_decoded` — the characters that are looked up;
* `decode_inserted_iff` — the foreign characters that are ignored;
* `decode_inserted_throws` — one that is not.
-/
import ReShadowsocks.Config
import ReShadowsocks.Rfc4648

namespace Base64

open Rfc4648 (sextet1 sextet2 sextet3 sextet4 octet1 octet2 octet3 symbol value)

/-! ### Encoding -/

def encodingTable : List UInt8 :=
  "ABCDEFGHIJKLMNOPQRSTUVWXYZabcdefghijklmnopqrstuvwxyz0123456789+/".toList.map
    fun c => UInt8.ofNat c.toNat

/-- `encodingTable[i & 0x3f]`. -/
def entry (i : Nat) : UInt8 := encodingTable.getD (i &&& 0x3f) 0

def equals : UInt8 := 0x3D

def encode : List UInt8 → List UInt8
  | [] => []
  | [d1] => [entry (d1.toNat >>> 2), entry (d1.toNat <<< 4), equals, equals]
  | [d1, d2] =>
    [entry (d1.toNat >>> 2), entry (d1.toNat <<< 4 ||| d2.toNat >>> 4), entry (d2.toNat <<< 2),
      equals]
  | a1 :: a2 :: a3 :: data =>
    entry (a1.toNat >>> 2) :: entry (a1.toNat <<< 4 ||| a2.toNat >>> 4) ::
      entry (a2.toNat <<< 2 ||| a3.toNat >>> 6) :: entry a3.toNat :: encode data

/-! ### Decoding -/

/-- `decodingTable[i]`; `none` is an `ArrayIndexOutOfBoundsException`. -/
def decodingTable (i : Nat) : Option Int8 :=
  if i < 128 then some ((value i).elim (-1) Int8.ofNat) else none

/-- A byte is negative from 0x80 on. -/
def isValidBase64Byte (b : UInt8) : Bool :=
  if b = equals then true
  else if 0x80 ≤ b then false
  else decodingTable b.toNat != some (-1)

/-- The test is made on the low byte of a character. -/
def discardNonBase64Chars (data : JString) : JString :=
  data.filter fun c => isValidBase64Byte c.toUInt8

def charAt (s : JString) (i : Int) : Option UInt16 := if 0 ≤ i then s[i.toNat]? else none

def newBytes (n : Int) : Option (List UInt8) :=
  if 0 ≤ n then some (List.replicate n.toNat 0) else none

/-- `bytes[j] = b`. -/
def put (bytes : List UInt8) (j : Int) (b : UInt8) : Option (List UInt8) :=
  if 0 ≤ j ∧ j < bytes.length then some (bytes.set j.toNat b) else none

/-- `(byte) ((b1 << 2) | (b2 >> 4))`. -/
def join1 (b1 b2 : Int8) : UInt8 := (b1.toInt32 <<< 2 ||| b2.toInt32 >>> 4).toInt8.toUInt8

/-- `(byte) ((b2 << 4) | (b3 >> 2))`. -/
def join2 (b2 b3 : Int8) : UInt8 := (b2.toInt32 <<< 4 ||| b3.toInt32 >>> 2).toInt8.toUInt8

/-- `(byte) ((b3 << 6) | b4)`. -/
def join3 (b3 b4 : Int8) : UInt8 := (b3.toInt32 <<< 6 ||| b4.toInt32).toInt8.toUInt8

/-- The loop over `i < length - 4`: it goes on while more than four characters are left. -/
def decodeLoop : JString → Int → List UInt8 → Option (List UInt8)
  | c1 :: c2 :: c3 :: c4 :: c5 :: data, j, bytes => do
    let b1 ← decodingTable c1.toNat
    let b2 ← decodingTable c2.toNat
    let b3 ← decodingTable c3.toNat
    let b4 ← decodingTable c4.toNat
    let bytes ← put bytes j (join1 b1 b2)
    let bytes ← put bytes (j + 1) (join2 b2 b3)
    let bytes ← put bytes (j + 2) (join3 b3 b4)
    decodeLoop (c5 :: data) (j + 3) bytes
  | _, _, bytes => some bytes

/-- The table's entry for the character at `data.length() - i`. -/
def entryFromEnd (data : JString) (i : Int) : Option Int8 :=
  charAt data (data.length - i) >>= fun c => decodingTable c.toNat

/-- The size of the array. -/
def decodedSize (data : JString) : Option Int := do
  let groups : Int := data.length / 4
  let c3 ← charAt data (data.length - 2)
  let c4 ← charAt data (data.length - 1)
  if c3 = equals.toUInt16 then return (groups - 1) * 3 + 1
  else if c4 = equals.toUInt16 then return (groups - 1) * 3 + 2
  else return groups * 3

/-- The last group. -/
def decodeLast (data : JString) (bytes : List UInt8) : Option (List UInt8) := do
  let c3 ← charAt data (data.length - 2)
  let c4 ← charAt data (data.length - 1)
  let b1 ← entryFromEnd data 4
  let b2 ← entryFromEnd data 3
  if c3 = equals.toUInt16 then put bytes (bytes.length - 1) (join1 b1 b2)
  else
    let b3 ← entryFromEnd data 2
    if c4 = equals.toUInt16 then
      let bytes ← put bytes (bytes.length - 2) (join1 b1 b2)
      put bytes (bytes.length - 1) (join2 b2 b3)
    else
      let b4 ← entryFromEnd data 1
      let bytes ← put bytes (bytes.length - 3) (join1 b1 b2)
      let bytes ← put bytes (bytes.length - 2) (join2 b2 b3)
      put bytes (bytes.length - 1) (join3 b3 b4)

/-- `decode(String)`; `none` is an exception. -/
def decode (s : JString) : Option (List UInt8) := do
  let data := discardNonBase64Chars s
  let size ← decodedSize data
  let bytes ← newBytes size
  let bytes ← decodeLoop data 0 bytes
  decodeLast data bytes

/-! ### Bits -/

theorem encodingTable_eq :
    encodingTable = (List.range 64).map fun n => UInt8.ofNat (symbol n) := by
  decide +kernel

theorem symbolByte_spec : ∀ n < 64, (UInt8.ofNat (symbol n)).toNat = symbol n ∧
    (UInt8.ofNat (symbol n) == equals) = false ∧
    isValidBase64Byte (UInt8.ofNat (symbol n)) = true := by
  decide +kernel

theorem entry_of_lt {n : Nat} (h : n < 64) : entry n = UInt8.ofNat (symbol n) := by
  have hand : n &&& 0x3f = n := (Nat.and_two_pow_sub_one_eq_mod n 6).trans (Nat.mod_eq_of_lt h)
  rw [entry, encodingTable_eq, hand, List.getD_eq_getElem?_getD, List.getElem?_map,
    List.getElem?_range h]
  rfl

theorem entry_spec (n : Nat) (h : n < 64) : entry n = UInt8.ofNat (symbol n) ∧
    decodingTable (entry n).toNat = some (Int8.ofNat n) ∧ (entry n == equals) = false ∧
    isValidBase64Byte (entry n) = true := by
  obtain ⟨hnat, hequals, hvalid⟩ := symbolByte_spec n h
  rw [entry_of_lt h, hnat, decodingTable, if_pos (Rfc4648.symbol_lt h),
    Rfc4648.value_symbol h]
  exact ⟨rfl, rfl, hequals, hvalid⟩

theorem entry_mod (n : Nat) : entry n = entry (n % 64) := by
  have h (m : Nat) : m &&& 0x3f = m % 64 := Nat.and_two_pow_sub_one_eq_mod m 6
  rw [entry, entry, h, h, Nat.mod_mod]

theorem entry1 (a : UInt8) : entry (a.toNat >>> 2) = entry (sextet1 a) := by
  rw [Nat.shiftRight_eq_div_pow]
  rfl

theorem entry2 (a b : UInt8) :
    entry (a.toNat <<< 4 ||| b.toNat >>> 4) = entry (sextet2 a b) := by
  have hb := b.toNat_lt
  have hlow : b.toNat >>> 4 < 2 ^ 4 := by
    rw [Nat.shiftRight_eq_div_pow]
    omega
  have hmod : (a.toNat * 2 ^ 4 + b.toNat / 2 ^ 4) % 64 = sextet2 a b := by
    rw [sextet2]
    omega
  rw [← Nat.shiftLeft_add_eq_or_of_lt hlow, entry_mod, Nat.shiftLeft_eq,
    Nat.shiftRight_eq_div_pow, hmod]

theorem entry3 (b c : UInt8) :
    entry (b.toNat <<< 2 ||| c.toNat >>> 6) = entry (sextet3 b c) := by
  have hc := c.toNat_lt
  have hlow : c.toNat >>> 6 < 2 ^ 2 := by
    rw [Nat.shiftRight_eq_div_pow]
    omega
  have hmod : (b.toNat * 2 ^ 2 + c.toNat / 2 ^ 6) % 64 = sextet3 b c := by
    rw [sextet3]
    omega
  rw [← Nat.shiftLeft_add_eq_or_of_lt hlow, entry_mod, Nat.shiftLeft_eq,
    Nat.shiftRight_eq_div_pow, hmod]

theorem entry4 (c : UInt8) : entry c.toNat = entry (sextet4 c) := entry_mod c.toNat

/-- What the shifts leave in the low byte. -/
theorem shift_spec : ∀ n < 64,
    ((Int8.ofNat n).toInt32 <<< 2).toInt8.toUInt8 = UInt8.ofNat (n <<< 2) ∧
    ((Int8.ofNat n).toInt32 <<< 4).toInt8.toUInt8 = UInt8.ofNat ((n % 16) <<< 4) ∧
    ((Int8.ofNat n).toInt32 <<< 6).toInt8.toUInt8 = UInt8.ofNat ((n % 4) <<< 6) ∧
    ((Int8.ofNat n).toInt32 >>> 4).toInt8.toUInt8 = UInt8.ofNat (n / 16) ∧
    ((Int8.ofNat n).toInt32 >>> 2).toInt8.toUInt8 = UInt8.ofNat (n / 4) ∧
    (Int8.ofNat n).toInt32.toInt8.toUInt8 = UInt8.ofNat n := by
  decide +kernel

theorem ofNat_or_ofNat {x y k : Nat} (h : y < 2 ^ k) :
    UInt8.ofNat (x <<< k) ||| UInt8.ofNat y = UInt8.ofNat (x * 2 ^ k + y) := by
  rw [← UInt8.ofNat_or, ← Nat.shiftLeft_add_eq_or_of_lt h, Nat.shiftLeft_eq]

theorem join1_eq {p q : Nat} (hp : p < 64) (hq : q < 64) :
    join1 (Int8.ofNat p) (Int8.ofNat q) = octet1 p q := by
  obtain ⟨hleft, -⟩ := shift_spec p hp
  obtain ⟨-, -, -, hright, -⟩ := shift_spec q hq
  rw [join1, Int32.toInt8_or, Int8.toUInt8_or, hleft, hright, ofNat_or_ofNat (by omega)]
  rfl

theorem join2_eq {q r : Nat} (hq : q < 64) (hr : r < 64) :
    join2 (Int8.ofNat q) (Int8.ofNat r) = octet2 q r := by
  obtain ⟨-, hleft, -⟩ := shift_spec q hq
  obtain ⟨-, -, -, -, hright, -⟩ := shift_spec r hr
  rw [join2, Int32.toInt8_or, Int8.toUInt8_or, hleft, hright, ofNat_or_ofNat (by omega)]
  rfl

theorem join3_eq {r s : Nat} (hr : r < 64) (hs : s < 64) :
    join3 (Int8.ofNat r) (Int8.ofNat s) = octet3 r s := by
  obtain ⟨-, -, hleft, -⟩ := shift_spec r hr
  obtain ⟨-, -, -, -, -, hright⟩ := shift_spec s hs
  rw [join3, Int32.toInt8_or, Int8.toUInt8_or, hleft, hright, ofNat_or_ofNat (by omega)]
  rfl

/-! ### Arrays and characters -/

theorem put_append {done rest : List UInt8} {j : Int} (z b : UInt8) (hj : j = done.length) :
    put (done ++ z :: rest) j b = some (done ++ b :: rest) := by
  have hin : 0 ≤ j ∧ j < (done ++ z :: rest).length := by
    rw [List.length_append, List.length_cons]
    omega
  have hnat : j.toNat = done.length := by omega
  rw [put, if_pos hin, hnat, List.set_append_right _ _ (le_refl _), Nat.sub_self,
    List.set_cons_zero]

/-- `bytes[bytes.length - i] = b`. -/
theorem put_fromEnd (done rest : List UInt8) (z b : UInt8) {i : Int} (hi : i = rest.length + 1) :
    put (done ++ z :: rest) ((done ++ z :: rest).length - i) b = some (done ++ b :: rest) := by
  refine put_append z b ?_
  rw [List.length_append, List.length_cons]
  omega

theorem charAt_append (front last : JString) (i : Nat) :
    charAt (front ++ last) (front.length + i) = last[i]? := by
  have hnat : ((front.length : Int) + i).toNat = front.length + i := by omega
  rw [charAt, if_pos (by omega), hnat, List.getElem?_append_right (by omega),
    Nat.add_sub_cancel_left]

/-- The bytes as characters. -/
def text (bytes : List UInt8) : JString := bytes.map UInt8.toUInt16

theorem decodingTable_entry {n : Nat} (h : n < 64) :
    decodingTable (entry n).toUInt16.toNat = some (Int8.ofNat n) := by
  rw [UInt8.toNat_toUInt16]
  exact (entry_spec n h).2.1

/-! ### Groups -/

/-- The four characters of three bytes. -/
def quad (a b c : UInt8) : List UInt8 :=
  [entry (sextet1 a), entry (sextet2 a b), entry (sextet3 b c), entry (sextet4 c)]

theorem encode_one (a : UInt8) :
    encode [a] = [entry (sextet1 a), entry (sextet2 a 0), equals, equals] := by
  have hzero : (0 : UInt8).toNat >>> 4 = 0 := by decide
  rw [encode, entry1, ← entry2, hzero, Nat.or_zero]

theorem encode_two (a b : UInt8) :
    encode [a, b] = [entry (sextet1 a), entry (sextet2 a b), entry (sextet3 b 0), equals] := by
  have hzero : (0 : UInt8).toNat >>> 6 = 0 := by decide
  rw [encode, entry1, entry2, ← entry3, hzero, Nat.or_zero]

theorem encode_cons (a b c : UInt8) (data : List UInt8) :
    encode (a :: b :: c :: data) = quad a b c ++ encode data := by
  rw [encode, entry1, entry2, entry3, entry4]
  rfl

/-- One round of the loop. -/
theorem decodeLoop_quad (a b c : UInt8) {rest : JString} (hrest : rest ≠ [])
    (done todo : List UInt8) :
    decodeLoop (text (quad a b c) ++ rest) done.length (done ++ 0 :: 0 :: 0 :: todo) =
      decodeLoop rest (done ++ [a, b, c]).length (done ++ [a, b, c] ++ todo) := by
  obtain ⟨d, rest, rfl⟩ := List.exists_cons_of_ne_nil hrest
  have h1 := decodingTable_entry (Rfc4648.sextet1_lt a)
  have h2 := decodingTable_entry (Rfc4648.sextet2_lt a b)
  have h3 := decodingTable_entry (Rfc4648.sextet3_lt b c)
  have h4 := decodingTable_entry (Rfc4648.sextet4_lt c)
  have hj1 := (join1_eq (Rfc4648.sextet1_lt a) (Rfc4648.sextet2_lt a b)).trans
    (Rfc4648.octet1_sextets a b)
  have hj2 := (join2_eq (Rfc4648.sextet2_lt a b) (Rfc4648.sextet3_lt b c)).trans
    (Rfc4648.octet2_sextets a b c)
  have hj3 := (join3_eq (Rfc4648.sextet3_lt b c) (Rfc4648.sextet4_lt c)).trans
    (Rfc4648.octet3_sextets b c)
  have hput1 := @put_append done (0 :: 0 :: todo) done.length 0 a rfl
  have hput2 := @put_append (done ++ [a]) (0 :: todo) (done.length + 1) 0 b (by simp)
  have hput3 := @put_append (done ++ [a, b]) todo (done.length + 2) 0 c (by simp)
  simp only [List.append_assoc, List.cons_append, List.nil_append] at hput2 hput3
  simp only [text, quad, List.map_cons, List.map_nil, List.cons_append, List.nil_append,
    decodeLoop, h1, h2, h3, h4, Option.bind_eq_bind, Option.bind_some, hj1, hj2, hj3, hput1, hput2,
    hput3, List.append_assoc, List.length_append, List.length_cons, List.length_nil]
  rfl

/-- Induction over whole groups. -/
@[elab_as_elim]
theorem groups_induction {motive : List UInt8 → Prop} (nil : motive [])
    (cons : ∀ a b c data, motive data → motive (a :: b :: c :: data)) :
    ∀ body : List UInt8, body.length % 3 = 0 → motive body
  | [], _ => nil
  | [_], h => absurd h (by simp)
  | [_, _], h => absurd h (by simp)
  | a :: b :: c :: data, h => by
    have hdata : data.length % 3 = 0 := by
      simp only [List.length_cons] at h
      omega
    exact cons a b c data (groups_induction nil cons data hdata)

/-- **The loop writes the bytes of all groups but the last.** -/
theorem decodeLoop_encode {body : List UInt8} (hbody : body.length % 3 = 0) (c1 c2 c3 c4 : UInt16)
    (done todo : List UInt8) :
    decodeLoop (text (encode body) ++ [c1, c2, c3, c4]) done.length
      (done ++ (List.replicate body.length 0 ++ todo)) = some (done ++ (body ++ todo)) := by
  revert done
  -- a round takes one group from the text to the bytes that are done
  refine groups_induction (fun done => rfl) (fun a b c data ih done => ?_) body hbody
  have hround := @decodeLoop_quad a b c (text (encode data) ++ [c1, c2, c3, c4]) (by simp) done
    (List.replicate data.length 0 ++ todo)
  rw [encode_cons, text, List.map_append, List.append_assoc]
  refine hround.trans ((ih (done ++ [a, b, c])).trans ?_)
  simp

theorem encode_append {body : List UInt8} (hbody : body.length % 3 = 0) (last : List UInt8) :
    encode (body ++ last) = encode body ++ encode last := by
  refine groups_induction rfl (fun a b c data ih => ?_) body hbody
  rw [encode_cons, List.cons_append, List.cons_append, List.cons_append, encode_cons, ih,
    List.append_assoc]

theorem length_encode {body : List UInt8} (hbody : body.length % 3 = 0) :
    (encode body).length = body.length / 3 * 4 := by
  refine groups_induction rfl (fun a b c data ih => ?_) body hbody
  rw [encode_cons, List.length_append, ih]
  simp only [quad, List.length_cons, List.length_nil]
  omega

/-- A non-empty array has a last group. -/
theorem exists_last_group {x : List UInt8} (hx : x ≠ []) :
    ∃ body last, x = body ++ last ∧ body.length % 3 = 0 ∧ last ≠ [] ∧ last.length ≤ 3 := by
  have hpos : 0 < x.length := List.length_pos_iff.mpr hx
  refine ⟨x.take ((x.length - 1) / 3 * 3), x.drop ((x.length - 1) / 3 * 3),
    (List.take_append_drop _ x).symm, ?_, ?_, ?_⟩
  · rw [List.length_take]
    omega
  · rw [← List.length_pos_iff, List.length_drop]
    omega
  · rw [List.length_drop]
    omega

/-! ### The whole array -/

theorem isValidBase64Byte_of_mem_encode {x : List UInt8} {b : UInt8} (h : b ∈ encode x) :
    isValidBase64Byte b = true := by
  have hentry (n : Nat) : isValidBase64Byte (entry n) = true := by
    rw [entry_mod]
    exact (entry_spec (n % 64) (Nat.mod_lt _ (by decide))).2.2.2
  have hequals : isValidBase64Byte equals = true := rfl
  fun_induction encode x with
  | case1 => exact absurd h List.not_mem_nil
  | case2 d1 =>
    simp only [List.mem_cons, List.not_mem_nil, or_false] at h
    rcases h with rfl | rfl | rfl | rfl <;> first | exact hentry _ | exact hequals
  | case3 d1 d2 =>
    simp only [List.mem_cons, List.not_mem_nil, or_false] at h
    rcases h with rfl | rfl | rfl | rfl <;> first | exact hentry _ | exact hequals
  | case4 a1 a2 a3 data ih =>
    simp only [List.mem_cons] at h
    rcases h with rfl | rfl | rfl | rfl | hdata
    · exact hentry _
    · exact hentry _
    · exact hentry _
    · exact hentry _
    · exact ih hdata

theorem discard_text_encode (x : List UInt8) :
    discardNonBase64Chars (text (encode x)) = text (encode x) := by
  refine List.filter_eq_self.mpr fun c hc => ?_
  obtain ⟨b, hb, rfl⟩ := List.mem_map.mp hc
  rw [UInt8.toUInt8_toUInt16]
  exact isValidBase64Byte_of_mem_encode hb

section

variable (front : JString) (c1 c2 c3 c4 : UInt16)

theorem charAt_fromEnd :
    charAt (front ++ [c1, c2, c3, c4]) ((front ++ [c1, c2, c3, c4]).length - 4) = some c1 ∧
    charAt (front ++ [c1, c2, c3, c4]) ((front ++ [c1, c2, c3, c4]).length - 3) = some c2 ∧
    charAt (front ++ [c1, c2, c3, c4]) ((front ++ [c1, c2, c3, c4]).length - 2) = some c3 ∧
    charAt (front ++ [c1, c2, c3, c4]) ((front ++ [c1, c2, c3, c4]).length - 1) = some c4 := by
  have hlen : ((front ++ [c1, c2, c3, c4]).length : Int) = front.length + 4 := by simp
  have h4 : (front.length : Int) + 4 - 4 = front.length + (0 : Nat) := by omega
  have h3 : (front.length : Int) + 4 - 3 = front.length + (1 : Nat) := by omega
  have h2 : (front.length : Int) + 4 - 2 = front.length + (2 : Nat) := by omega
  have h1 : (front.length : Int) + 4 - 1 = front.length + (3 : Nat) := by omega
  rw [hlen, h4, h3, h2, h1]
  exact ⟨charAt_append front _ 0, charAt_append front _ 1, charAt_append front _ 2,
    charAt_append front _ 3⟩

theorem decodedSize_append {k : Nat} (hfront : front.length = k * 4) :
    decodedSize (front ++ [c1, c2, c3, c4]) =
      some ((k : Int) * 3 +
        if c3 = equals.toUInt16 then 1 else if c4 = equals.toUInt16 then 2 else 3) := by
  obtain ⟨-, -, h2, h1⟩ := charAt_fromEnd front c1 c2 c3 c4
  have hgroups : ((front ++ [c1, c2, c3, c4]).length : Int) / 4 = k + 1 := by
    rw [List.length_append, hfront]
    simp only [List.length_cons, List.length_nil]
    omega
  simp only [decodedSize, h1, h2, hgroups, Option.bind_eq_bind, Option.bind_some]
  split
  · exact congrArg some (by omega)
  · split
    · exact congrArg some (by omega)
    · exact congrArg some (by omega)

/-- The last group is read from the four characters at the end. -/
theorem decodeLast_append (bytes : List UInt8) :
    decodeLast (front ++ [c1, c2, c3, c4]) bytes = (do
      let b1 ← decodingTable c1.toNat
      let b2 ← decodingTable c2.toNat
      if c3 = equals.toUInt16 then put bytes (bytes.length - 1) (join1 b1 b2)
      else
        let b3 ← decodingTable c3.toNat
        if c4 = equals.toUInt16 then
          let bytes ← put bytes (bytes.length - 2) (join1 b1 b2)
          put bytes (bytes.length - 1) (join2 b2 b3)
        else
          let b4 ← decodingTable c4.toNat
          let bytes ← put bytes (bytes.length - 3) (join1 b1 b2)
          let bytes ← put bytes (bytes.length - 2) (join2 b2 b3)
          put bytes (bytes.length - 1) (join3 b3 b4)) := by
  obtain ⟨hc1, hc2, hc3, hc4⟩ := charAt_fromEnd front c1 c2 c3 c4
  simp only [decodeLast, entryFromEnd, hc1, hc2, hc3, hc4, Option.bind_eq_bind, Option.bind_some]

variable {front} {c1 c2 c3 c4}

/-- `decode`, once the last group is known to be read. -/
theorem decode_of_last {body last : List UInt8} (hbody : body.length % 3 = 0)
    (hencode : text (encode last) = [c1, c2, c3, c4])
    (hsize : (if c3 = equals.toUInt16 then 1 else if c4 = equals.toUInt16 then 2 else 3) =
      (last.length : Int))
    (hlast : decodeLast (text (encode body) ++ [c1, c2, c3, c4])
      (body ++ List.replicate last.length 0) = some (body ++ last)) :
    decode (text (encode (body ++ last))) = some (body ++ last) := by
  have hfront : (text (encode body)).length = body.length / 3 * 4 := by
    rw [text, List.length_map, length_encode hbody]
  have htext : text (encode (body ++ last)) = text (encode body) ++ [c1, c2, c3, c4] := by
    rw [encode_append hbody, text, List.map_append, ← hencode]
    rfl
  have hbytes : newBytes ((body.length / 3 : Nat) * 3 + last.length) =
      some (List.replicate body.length 0 ++ List.replicate last.length 0) := by
    have hnat : (((body.length / 3 : Nat) : Int) * 3 + last.length).toNat =
        body.length + last.length := by omega
    rw [newBytes, if_pos (by omega), hnat, List.replicate_add]
  have hloop := decodeLoop_encode hbody c1 c2 c3 c4 [] (List.replicate last.length 0)
  rw [List.nil_append, List.nil_append, List.length_nil, Nat.cast_zero] at hloop
  rw [decode, discard_text_encode, htext]
  simp only [decodedSize_append _ c1 c2 c3 c4 hfront, hsize, hbytes, hloop, Option.bind_eq_bind,
    Option.bind_some, hlast]

end

theorem entry_ne_equals {n : Nat} (h : n < 64) : (entry n).toUInt16 ≠ equals.toUInt16 := by
  intro heq
  have hne := (entry_spec n h).2.2.1
  rw [UInt8.toUInt16_inj.mp heq] at hne
  exact absurd hne (by decide)

/-! The last group has one, two or three bytes. -/

section

variable {body : List UInt8} (hbody : body.length % 3 = 0) (a b c : UInt8)

include hbody

theorem decode_encode_one : decode (text (encode (body ++ [a]))) = some (body ++ [a]) := by
  have ha := Rfc4648.sextet1_lt a
  have ha2 := Rfc4648.sextet2_lt a 0
  refine decode_of_last hbody (congrArg text (encode_one a)) rfl ?_
  have hput := put_fromEnd body [] 0 a rfl
  simp only [decodeLast_append, decodingTable_entry ha, decodingTable_entry ha2,
    Option.bind_eq_bind, Option.bind_some, if_true, join1_eq ha ha2, Rfc4648.octet1_sextets]
  exact hput

theorem decode_encode_two :
    decode (text (encode (body ++ [a, b]))) = some (body ++ [a, b]) := by
  have ha := Rfc4648.sextet1_lt a
  have hab := Rfc4648.sextet2_lt a b
  have hb := Rfc4648.sextet3_lt b 0
  have hne := entry_ne_equals hb
  refine decode_of_last hbody (congrArg text (encode_two a b)) (if_neg hne) ?_
  have hput1 := put_fromEnd body [0] 0 a rfl
  have hput2 := put_fromEnd (body ++ [a]) [] 0 b rfl
  rw [List.append_assoc, List.append_assoc] at hput2
  simp only [decodeLast_append, decodingTable_entry ha, decodingTable_entry hab,
    decodingTable_entry hb, Option.bind_eq_bind, Option.bind_some, if_neg hne, if_true,
    join1_eq ha hab, join2_eq hab hb, Rfc4648.octet1_sextets, Rfc4648.octet2_sextets]
  exact (congrArg (Option.bind · _) hput1).trans hput2

theorem decode_encode_three :
    decode (text (encode (body ++ [a, b, c]))) = some (body ++ [a, b, c]) := by
  have ha := Rfc4648.sextet1_lt a
  have hab := Rfc4648.sextet2_lt a b
  have hbc := Rfc4648.sextet3_lt b c
  have hc := Rfc4648.sextet4_lt c
  have hne3 := entry_ne_equals hbc
  have hne4 := entry_ne_equals hc
  refine decode_of_last hbody (congrArg text (encode_cons a b c []))
    ((if_neg hne3).trans (if_neg hne4)) ?_
  have hput1 := put_fromEnd body [0, 0] 0 a rfl
  have hput2 := put_fromEnd (body ++ [a]) [0] 0 b rfl
  have hput3 := put_fromEnd (body ++ [a, b]) [] 0 c rfl
  rw [List.append_assoc, List.append_assoc] at hput2 hput3
  simp only [decodeLast_append, decodingTable_entry ha, decodingTable_entry hab,
    decodingTable_entry hbc, decodingTable_entry hc, Option.bind_eq_bind, Option.bind_some,
    if_neg hne3, if_neg hne4, join1_eq ha hab, join2_eq hab hbc, join3_eq hbc hc,
    Rfc4648.octet1_sextets, Rfc4648.octet2_sextets, Rfc4648.octet3_sextets]
  exact (congrArg (Option.bind · _) hput1).trans ((congrArg (Option.bind · _) hput2).trans hput3)

end

/-- **A non-empty array is read back from its characters.** -/
theorem decode_encode {x : List UInt8} (hx : x ≠ []) : decode (text (encode x)) = some x := by
  obtain ⟨body, last, rfl, hbody, hne, hlen⟩ := exists_last_group hx
  match last, hne, hlen with
  | [a], _, _ => exact decode_encode_one hbody a
  | [a, b], _, _ => exact decode_encode_two hbody a b
  | [a, b, c], _, _ => exact decode_encode_three hbody a b c
  | _ :: _ :: _ :: _ :: _, _, hlen =>
    simp only [List.length_cons] at hlen
    omega

/-! ### Foreign characters

The filter looks at the low byte of a character, the table is indexed by the whole of it. -/

/-- A character of the alphabet, or the padding. -/
def Symbol (c : UInt16) : Prop := c ∈ text encodingTable ∨ c = equals.toUInt16

instance : DecidablePred Symbol := fun _ => inferInstanceAs (Decidable (_ ∨ _))

/-- `Inserted t s`: foreign characters were inserted into `t`. -/
inductive Inserted : JString → JString → Prop
  | nil : Inserted [] []
  | keep {t s : JString} (c : UInt16) : Inserted t s → Inserted (c :: t) (c :: s)
  | insert {t s : JString} {c : UInt16} : ¬ Symbol c → Inserted t s → Inserted t (c :: s)

/-- The bytes that are kept are those of the table, and the padding. -/
theorem mem_table_iff {b : UInt8} :
    b ∈ encodingTable ++ [equals] ↔ isValidBase64Byte b = true := by
  rw [encodingTable_eq, List.mem_append, List.mem_map, List.mem_singleton]
  constructor
  · rintro (⟨n, hn, rfl⟩ | rfl)
    · exact (symbolByte_spec n (List.mem_range.mp hn)).2.2
    · rfl
  · intro h
    unfold isValidBase64Byte at h
    split_ifs at h with hequals hlarge
    · exact .inr hequals
    · have hlt : b.toNat < 128 := Nat.not_le.mp fun hle => hlarge (UInt8.le_iff_toNat_le.mpr hle)
      rw [decodingTable, if_pos hlt] at h
      cases hvalue : value b.toNat with
      | none =>
        rw [hvalue] at h
        exact absurd h (by decide)
      | some n =>
        obtain ⟨hn, hsymbol⟩ := Rfc4648.symbol_of_value hvalue
        exact .inl ⟨n, List.mem_range.mpr hn, by rw [hsymbol, UInt8.ofNat_toNat]⟩

theorem symbol_toUInt16_iff {b : UInt8} : Symbol b.toUInt16 ↔ b ∈ encodingTable ++ [equals] := by
  rw [Symbol, text, List.mem_append, List.mem_singleton, UInt8.toUInt16_inj,
    List.mem_map_of_injective fun _ _ h => UInt8.toUInt16_inj.mp h]

theorem Symbol.exists_byte {c : UInt16} (h : Symbol c) :
    ∃ b ∈ encodingTable ++ [equals], c = b.toUInt16 := by
  obtain h | h := h
  · obtain ⟨b, hb, rfl⟩ := List.mem_map.mp h
    exact ⟨b, List.mem_append_left _ hb, rfl⟩
  · exact ⟨equals, List.mem_append_right _ List.mem_cons_self, h⟩

theorem Symbol.valid {c : UInt16} (h : Symbol c) : isValidBase64Byte c.toUInt8 = true := by
  obtain ⟨b, hb, rfl⟩ := h.exists_byte
  rw [UInt8.toUInt8_toUInt16]
  exact mem_table_iff.mp hb

/-- A foreign character that is kept is not in the table. -/
theorem decodingTable_of_foreign {c : UInt16} (hc : ¬ Symbol c)
    (hvalid : isValidBase64Byte c.toUInt8 = true) : decodingTable c.toNat = none := by
  by_cases hlt : c.toNat < 128
  · have hbyte : c.toUInt8 = UInt8.ofNat c.toNat := rfl
    have hback : (UInt8.ofNat c.toNat).toUInt16 = c := by
      refine UInt16.toNat_inj.mp ?_
      rw [UInt8.toNat_toUInt16, UInt8.toNat_ofNat']
      omega
    rw [hbyte, ← mem_table_iff, ← symbol_toUInt16_iff, hback] at hvalid
    exact absurd hvalid hc
  · exact if_neg hlt

theorem symbol_of_mem_text_encode {x : List UInt8} : ∀ c ∈ text (encode x), Symbol c := by
  intro c hc
  obtain ⟨b, hb, rfl⟩ := List.mem_map.mp hc
  exact symbol_toUInt16_iff.mpr (mem_table_iff.mpr (isValidBase64Byte_of_mem_encode hb))

theorem Inserted.filter_eq {t s : JString} (h : Inserted t s) (ht : ∀ c ∈ t, Symbol c) :
    s.filter (fun c => decide (Symbol c)) = t := by
  induction h with
  | nil => rfl
  | keep c _ ih =>
    obtain ⟨hc, ht⟩ := List.forall_mem_cons.mp ht
    rw [List.filter_cons_of_pos (by simpa using hc), ih ht]
  | insert hc _ ih => rw [List.filter_cons_of_neg (by simpa using hc), ih ht]

/-- What the filter drops is foreign. -/
theorem filter_discard (s : JString) :
    (discardNonBase64Chars s).filter (fun c => decide (Symbol c)) =
      s.filter fun c => decide (Symbol c) := by
  rw [discardNonBase64Chars, List.filter_filter]
  refine List.filter_congr fun c _ => ?_
  by_cases hc : Symbol c
  · simp [hc, hc.valid]
  · simp [hc]

/-! ### The characters that are looked up -/

theorem put_some {bytes r : List UInt8} {j : Int} {b : UInt8} (h : put bytes j b = some r) :
    r.length = bytes.length ∧ j < bytes.length := by
  unfold put at h
  split at h
  · rename_i hj
    obtain rfl := Option.some.inj h
    exact ⟨List.length_set, hj.2⟩
  · exact nomatch h

/-- The loop looks up all groups but the last, and writes three bytes for each. -/
theorem decodeLoop_some {data : JString} {j : Int} {bytes r : List UInt8}
    (h : decodeLoop data j bytes = some r) :
    (∀ c ∈ data.take (4 * ((data.length - 1) / 4)), decodingTable c.toNat ≠ none) ∧
      (5 ≤ data.length → j + 3 * ((data.length - 1) / 4 : Nat) ≤ bytes.length) := by
  fun_induction decodeLoop data j bytes with
  | case1 c1 c2 c3 c4 c5 data j bytes ih =>
    simp only [Option.bind_eq_bind, Option.bind_eq_some_iff] at h
    obtain ⟨b1, h1, b2, h2, b3, h3, b4, h4, bytes1, hput1, bytes2, hput2, bytes3, hput3, h⟩ := h
    obtain ⟨hlen1, -⟩ := put_some hput1
    obtain ⟨hlen2, -⟩ := put_some hput2
    obtain ⟨hlen3, hj⟩ := put_some hput3
    obtain ⟨hrest, hsize⟩ := ih bytes3 h
    have hgroups : 4 * (((c1 :: c2 :: c3 :: c4 :: c5 :: data).length - 1) / 4) =
        4 * (((c5 :: data).length - 1) / 4) + 4 := by
      simp only [List.length_cons]
      omega
    refine ⟨?_, fun _ => ?_⟩
    · rw [hgroups]
      simp only [List.take_succ_cons, List.forall_mem_cons]
      exact ⟨by simp [h1], by simp [h2], by simp [h3], by simp [h4], hrest⟩
    · simp only [List.length_cons] at hsize ⊢
      omega
  | case2 data j bytes hshort =>
    have hlen : data.length ≤ 4 := by
      match data with
      | [] | [_] | [_, _] | [_, _, _] | [_, _, _, _] => simp
      | c1 :: c2 :: c3 :: c4 :: c5 :: data => exact absurd rfl (hshort c1 c2 c3 c4 c5 data)
    refine ⟨?_, fun h5 => by omega⟩
    have hzero : 4 * ((data.length - 1) / 4) = 0 := by omega
    rw [hzero, List.take_zero]
    exact fun c hc => absurd hc List.not_mem_nil

/-- All characters are looked up but the padding, and one that follows it. -/
theorem entries_of_decoded {front : JString} {c1 c2 c3 c4 : UInt16} {zeros bytes r : List UInt8}
    (hloop : decodeLoop (front ++ [c1, c2, c3, c4]) 0 zeros = some bytes)
    (hlast : decodeLast (front ++ [c1, c2, c3, c4]) bytes = some r) :
    (∀ d ∈ front ++ [c1, c2, c3], decodingTable d.toNat ≠ none) ∧
      (decodingTable c4.toNat = none → c3 = equals.toUInt16) := by
  have hequals : decodingTable equals.toUInt16.toNat ≠ none := by decide
  rw [decodeLast_append] at hlast
  simp only [Option.bind_eq_bind, Option.bind_eq_some_iff] at hlast
  obtain ⟨b1, h1, b2, h2, hlast⟩ := hlast
  have h3 : decodingTable c3.toNat ≠ none := by
    by_cases hc3 : c3 = equals.toUInt16
    · rw [hc3]
      exact hequals
    · rw [if_neg hc3, Option.bind_eq_some_iff] at hlast
      obtain ⟨b3, h3, -⟩ := hlast
      simp [h3]
  refine ⟨fun d hd => ?_, fun h4 => ?_⟩
  · simp only [List.mem_append, List.mem_cons, List.not_mem_nil, or_false] at hd
    rcases hd with hd | rfl | rfl | rfl
    · refine (decodeLoop_some hloop).1 d ?_
      have hall : front.length ≤ 4 * (((front ++ [c1, c2, c3, c4]).length - 1) / 4) := by
        simp only [List.length_append, List.length_cons, List.length_nil]
        omega
      rw [List.take_append, List.take_of_length_le hall]
      exact List.mem_append_left _ hd
    · simp [h1]
    · simp [h2]
    · exact h3
  · by_contra hc3
    rw [if_neg hc3, Option.bind_eq_some_iff] at hlast
    obtain ⟨b3, -, hlast⟩ := hlast
    split at hlast
    · rename_i hc4
      rw [hc4] at h4
      exact hequals h4
    · rw [h4] at hlast
      exact nomatch hlast

theorem length_encode_mod (x : List UInt8) : (encode x).length % 4 = 0 := by
  fun_induction encode x with
  | case1 => rfl
  | case2 => simp
  | case3 => simp
  | case4 a1 a2 a3 data ih =>
    simp only [List.length_cons]
    omega

theorem encode_ne_nil {x : List UInt8} (hx : x ≠ []) : encode x ≠ [] := by
  fun_cases encode x with
  | case1 => exact absurd rfl hx
  | case2 => exact List.cons_ne_nil _ _
  | case3 => exact List.cons_ne_nil _ _
  | case4 => exact List.cons_ne_nil _ _

theorem exists_last_four {data : JString} (h : 4 ≤ data.length) :
    ∃ front c1 c2 c3 c4, data = front ++ [c1, c2, c3, c4] := by
  have hlast : (data.drop (data.length - 4)).length = 4 := by
    rw [List.length_drop]
    omega
  match hdrop : data.drop (data.length - 4), hlast with
  | [c1, c2, c3, c4], _ =>
    exact ⟨data.take (data.length - 4), c1, c2, c3, c4,
      hdrop ▸ (List.take_append_drop _ _).symm⟩

/-! ### Texts with foreign characters -/

/-- A text of one character too many, with the padding before it: the loop takes the padding
for a group, and the array is too short. -/
theorem decodedSize_lt {front : JString} {c1 c2 c3 c4 : UInt16} {size : Int}
    (hpad : c3 = equals.toUInt16) (hmod : (front.length + 3) % 4 = 0)
    (hsize : decodedSize (front ++ [c1, c2, c3, c4]) = some size) :
    size < 3 * (((front ++ [c1, c2, c3, c4]).length - 1) / 4 : Nat) := by
  obtain ⟨-, -, h2, h1⟩ := charAt_fromEnd front c1 c2 c3 c4
  simp only [decodedSize, h1, h2, Option.bind_eq_bind, Option.bind_some, if_pos hpad] at hsize
  rw [← Option.some.inj hsize, List.length_append]
  simp only [List.length_cons, List.length_nil]
  omega

/-- If a text is decoded, all its characters are in the table; the last one need not be if one
character is too many. -/
theorem lookups_of_decoded {s front : JString} {c1 c2 c3 c4 : UInt16} {r : List UInt8}
    (hdata : discardNonBase64Chars s = front ++ [c1, c2, c3, c4]) (h : decode s = some r) :
    (∀ d ∈ front ++ [c1, c2, c3], decodingTable d.toNat ≠ none) ∧
      (decodingTable c4.toNat = none → (front.length + 3) % 4 ≠ 0) := by
  simp only [decode, Option.bind_eq_bind, Option.bind_eq_some_iff, hdata] at h
  obtain ⟨size, hsize, zeros, hzeros, bytes, hloop, hlast⟩ := h
  obtain ⟨hentries, hpad⟩ := entries_of_decoded hloop hlast
  refine ⟨hentries, fun hnone hmod => ?_⟩
  -- the last character stands behind the padding, and the array is too short for the loop
  have hshort := decodedSize_lt (hpad hnone) hmod hsize
  have hroom := (decodeLoop_some hloop).2 (by
    simp only [List.length_append, List.length_cons, List.length_nil]
    omega)
  rw [newBytes] at hzeros
  split at hzeros
  · obtain rfl := Option.some.inj hzeros
    rw [List.length_replicate] at hroom
    omega
  · exact nomatch hzeros

/-- A foreign character that is kept is not in the table, and a text with one more character than
`encode` gives cannot be decoded. -/
theorem decode_eq_none_of_kept {x : List UInt8} {s : JString} (hx : x ≠ [])
    (hs : s.filter (fun c => decide (Symbol c)) = text (encode x)) {c : UInt16}
    (hc : c ∈ discardNonBase64Chars s) (hforeign : ¬ Symbol c) : decode s = none := by
  have htext := (filter_discard s).trans hs
  have hmod : (text (encode x)).length % 4 = 0 := by
    rw [text, List.length_map, length_encode_mod]
  have hpos : 0 < (text (encode x)).length := by
    rw [text, List.length_map, List.length_pos_iff]
    exact encode_ne_nil hx
  have hlen : 4 ≤ (discardNonBase64Chars s).length := by
    have hle := List.length_filter_le (fun d => decide (Symbol d)) (discardNonBase64Chars s)
    rw [htext] at hle
    omega
  have hnone : ∀ d ∈ discardNonBase64Chars s, ¬ Symbol d → decodingTable d.toNat = none :=
    fun d hd hno => decodingTable_of_foreign hno (List.mem_filter.mp hd).2
  obtain ⟨front, c1, c2, c3, c4, hdata⟩ := exists_last_four hlen
  rw [Option.eq_none_iff_forall_ne_some]
  intro r hdecode
  obtain ⟨hentries, hlast⟩ := lookups_of_decoded hdata hdecode
  rw [show front ++ [c1, c2, c3, c4] = front ++ [c1, c2, c3] ++ [c4] by simp] at hdata
  have hinit : ∀ d ∈ front ++ [c1, c2, c3], Symbol d := by
    intro d hd
    by_contra hno
    exact hentries d hd (hnone d (hdata ▸ List.mem_append_left [c4] hd) hno)
  obtain rfl : c = c4 := by
    rw [hdata, List.mem_append, List.mem_singleton] at hc
    exact hc.resolve_left fun hc => hforeign (hinit c hc)
  -- without the foreign character the text is as long as the one of `encode`
  refine hlast (hnone c hc hforeign) ?_
  rw [hdata, List.filter_append, List.filter_eq_self.mpr (by simpa using hinit),
    List.filter_cons_of_neg (by simpa using hforeign)] at htext
  rw [← htext] at hmod
  simpa using hmod

variable {x : List UInt8} {s : JString}

/-- **The foreign characters that are ignored**: those whose low byte is not a character of
Base64. -/
theorem decode_inserted_iff (hx : x ≠ []) (hs : Inserted (text (encode x)) s) :
    decode s = some x ↔ ∀ c ∈ s, ¬ Symbol c → isValidBase64Byte c.toUInt8 = false := by
  have hfilter := hs.filter_eq symbol_of_mem_text_encode
  constructor
  · intro h c hc hforeign
    by_contra hvalid
    have hkept : c ∈ discardNonBase64Chars s :=
      List.mem_filter.mpr ⟨hc, Bool.eq_true_of_not_eq_false hvalid⟩
    rw [decode_eq_none_of_kept hx hfilter hkept hforeign] at h
    exact nomatch h
  · intro h
    have hdiscard : discardNonBase64Chars s = text (encode x) := by
      rw [← hfilter, discardNonBase64Chars]
      refine List.filter_congr fun c hc => ?_
      by_cases hsymbol : Symbol c
      · simp [hsymbol, hsymbol.valid]
      · simp [hsymbol, h c hc hsymbol]
    have hsame : decode s = decode (text (encode x)) := by
      rw [decode, decode, hdiscard, discard_text_encode]
    rw [hsame, decode_encode hx]

theorem Inserted.refl : ∀ t : JString, Inserted t t
  | [] => .nil
  | c :: t => .keep c (Inserted.refl t)

/-- A line feed, and a character whose low byte is a hyphen. -/
theorem decode_inserted_iff_newline :
    decode (0x0A :: 0x4E2D :: text (encode [0x41])) = some [0x41] := by
  have hall : ((0x0A :: 0x4E2D :: text (encode [0x41])).all fun c =>
      decide (¬ Symbol c → isValidBase64Byte c.toUInt8 = false)) = true := by
    decide +kernel
  have hs : Inserted (text (encode [0x41])) (0x0A :: 0x4E2D :: text (encode [0x41])) :=
    .insert (by decide +kernel) (.insert (by decide +kernel) (.refl _))
  refine (decode_inserted_iff (by decide) hs).mpr fun c hc => ?_
  exact of_decide_eq_true (List.all_eq_true.mp hall c hc)

/-- The low byte of U+534E is an N: it is not dropped, and it is not in the table. -/
theorem decode_inserted_throws :
    Inserted (text (encode [0x41])) (0x534E :: text (encode [0x41])) ∧
      decode (0x534E :: text (encode [0x41])) = none :=
  ⟨.insert (by decide +kernel) (.refl _), by decide +kernel⟩

end Base64
