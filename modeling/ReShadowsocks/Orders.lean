/-
Order strings: what `PlansFragment` makes and `OrderFragment` reads.

An order id is `RE`, the local time and the first character of a random number's text.  The
order string is a hash and the order's fields, put together with `--` and `-`; the reader cuts
it at the same separators.

* `genOrderId_eq` — the id, as its parts;
* `pieces_genOrderString` — the string is cut behind its signature;
* `readOrder_genOrderString` — an order whose id has no dash is read back;
* `order_accepted_iff` — the reader accepts the order and finds its id exactly if the random
  number is not the least `int`;
* `order_refused` — an order of the least `int`.
-/
import ReShadowsocks.Escape

namespace Orders

open Json JavaString Escape

def dash : UInt16 := 0x2D

/-! ### Signing -/

/-- `GeneralHash.ELFHash`, on a `long`. -/
def elfHash (str : JString) : Int64 :=
  str.foldl (fun hash c =>
    let hash := (hash <<< 4) + Int64.ofNat c.toNat
    let x := hash &&& 0xF0000000
    let hash := if x ≠ 0 then hash ^^^ (x >>> 24) else hash
    hash &&& ~~~x) 0

def miniKey : JString := lit "20130426113409"

/-- The signature of an order. -/
def sign (order : JString) : JString := decimal (elfHash (order ++ miniKey)).toInt

/-- The fields of an order, put together. -/
def orderStr (username orderId plan gateway : JString) : JString :=
  urlSafeEscape username ++ dash :: (orderId ++ dash :: (plan ++ dash :: gateway))

def genOrderString (username orderId plan gateway : JString) : JString :=
  let order := orderStr username orderId plan gateway
  sign order ++ dash :: dash :: order

def verifySignature (orderInfo signature : JString) : Bool := signature == sign orderInfo

/-! ### The order id -/

/-- The digits that `SimpleDateFormat` writes in the default locale: the code units that follow
the locale's zero. -/
structure Digits where
  zero : UInt16
  ne_dash : ∀ d : Fin 10, zero + UInt16.ofNat d ≠ dash

/-- The last `w` digits of a number. -/
def Digits.pad (digits : Digits) : Nat → Nat → JString
  | 0, _ => []
  | w + 1, n => digits.pad w (n / 10) ++ [digits.zero + UInt16.ofNat (n % 10)]

/-- An instant in the local calendar, with a year of four digits. -/
structure LocalTime where
  year : Fin 10000
  month : Fin 100
  day : Fin 100
  hour : Fin 100
  minute : Fin 100
  second : Fin 100

def orderTimeFormat : JString := lit "yyyyMMddHHmmss"

def orderPrefixText : JString := lit "RE"

/-- `format.format(date)` for `ORDER_TIME_FORMAT`. -/
def formatTime (digits : Digits) (date : LocalTime) : JString :=
  digits.pad 4 date.year ++ digits.pad 2 date.month ++ digits.pad 2 date.day ++
    digits.pad 2 date.hour ++ digits.pad 2 date.minute ++ digits.pad 2 date.second

/-- `Math.abs`, which leaves the least `int` as it is. -/
def mathAbs (n : Int32) : Int32 := if n < 0 then -n else n

/-- `random` is what `nextInt` returns. -/
def genOrderId (digits : Digits) (date : LocalTime) (random : Int32) : Option JString :=
  let strKey := formatTime digits date ++ decimal (mathAbs random).toInt
  (substring strKey 0 (orderTimeFormat.length + 1)).map (orderPrefixText ++ ·)

/-! ### Reading an order -/

inductive Thrown
  | arrayIndexOutOfBounds
  | stringIndexOutOfBounds
  | invalidSign
  | parseException
  | expired
  deriving DecidableEq

structure Order where
  orderId : JString
  user : JString
  deriving DecidableEq

/-- `parts[i]`. -/
def part (parts : List JString) (i : Nat) : Except Thrown JString :=
  (parts[i]?).elim (.error .arrayIndexOutOfBounds) .ok

/-- `getOrder` up to the check of the time, with the part of the user that it takes once the
order has been looked up. -/
def readOrder (orderString : JString) : Except Thrown Order := do
  let signature ← part (split [dash, dash] orderString) 0
  let orderInfo ← part (split [dash, dash] orderString) 1
  if !verifySignature orderInfo signature then throw .invalidSign
  let orderId ← part (split [dash] orderInfo) 1
  let user ← part (split [dash] orderInfo) 0
  return ⟨orderId, user⟩

/-- `getOrder` until it looks the order up, with the reader of dates `parse` and the time
`now`. -/
def getOrder (parse : JString → Option Int64) (now : Int64) (orderString : JString) :
    Except Thrown Order := do
  let order ← readOrder orderString
  let start := orderPrefixText.length
  let timeStr ← (substring order.orderId start (start + orderTimeFormat.length)).elim
    (.error .stringIndexOutOfBounds) .ok
  let orderTime ← (parse timeStr).elim (.error .parseException) .ok
  if orderTime - now > 2 * 86400 * 1000 then throw .expired
  return order

/-! ### The parts of an id -/

theorem length_pad (digits : Digits) (w n : Nat) : (digits.pad w n).length = w := by
  induction w generalizing n with
  | zero => rfl
  | succ w ih => rw [Digits.pad, List.length_append, ih, List.length_singleton]

theorem dash_not_mem_pad (digits : Digits) (w n : Nat) : dash ∉ digits.pad w n := by
  induction w generalizing n with
  | zero => exact List.not_mem_nil
  | succ w ih =>
    rw [Digits.pad, List.mem_append, List.mem_singleton]
    rintro (hmem | heq)
    · exact ih (n / 10) hmem
    · exact digits.ne_dash ⟨n % 10, by omega⟩ heq.symm

theorem length_formatTime (digits : Digits) (date : LocalTime) :
    (formatTime digits date).length = 14 := by
  simp only [formatTime, List.length_append, length_pad]

theorem length_orderTimeFormat : orderTimeFormat.length = 14 := by
  rw [orderTimeFormat, lit_ofList]
  decide

theorem dash_not_mem_formatTime (digits : Digits) (date : LocalTime) :
    dash ∉ formatTime digits date := by
  simp only [formatTime, List.mem_append, dash_not_mem_pad, or_self, not_false_eq_true]

theorem orderPrefixText_ne_nil : orderPrefixText ≠ [] := by
  rw [orderPrefixText, lit_ofList]
  decide

/-- An id has no dash before its last character. -/
theorem dash_not_mem_idStart (digits : Digits) (date : LocalTime) :
    dash ∉ orderPrefixText ++ formatTime digits date := by
  have hstart : dash ∉ orderPrefixText := by
    rw [orderPrefixText, lit_ofList]
    decide
  exact fun h => (List.mem_append.mp h).elim hstart (dash_not_mem_formatTime digits date)

/-- The id with its last character, the first one of the random number. -/
theorem genOrderId_eq (digits : Digits) (date : LocalTime) (random : Int32) {c : UInt16}
    {rest : JString} (h : decimal (mathAbs random).toInt = c :: rest) :
    genOrderId digits date random =
      some (orderPrefixText ++ (formatTime digits date ++ [c])) := by
  have hlen : (orderTimeFormat.length : Int) + 1 = 0 + (formatTime digits date ++ [c]).length := by
    rw [length_orderTimeFormat, List.length_append, length_formatTime]
    rfl
  have hcut : substring (formatTime digits date ++ c :: rest) 0 (orderTimeFormat.length + 1) =
      some (formatTime digits date ++ [c]) :=
    substring_append [] (formatTime digits date ++ [c]) rest (by simp) rfl hlen
  rw [genOrderId, h]
  exact congrArg _ hcut

/-- `abs` gives a negative number only for the least `int`. -/
theorem mathAbs_neg_iff (random : Int32) :
    (mathAbs random).toInt < 0 ↔ random = Int32.minValue := by
  have hlo := random.le_toInt
  have hhi := random.toInt_lt
  have hmin : random = Int32.minValue ↔ random.toInt = -2 ^ 31 := by
    rw [← Int32.toInt_inj]
    rfl
  rw [hmin]
  unfold mathAbs
  split
  · rename_i hneg
    have hneg' : random.toInt < 0 := Int32.lt_iff_toInt_lt.mp hneg
    rw [Int32.toInt_neg, Int.bmod_def]
    omega
  · rename_i hpos
    have hpos' : ¬ random.toInt < 0 := fun h => hpos (Int32.lt_iff_toInt_lt.mpr h)
    omega

/-- The first character of the random number. -/
theorem decimal_mathAbs (random : Int32) :
    ∃ c rest, decimal (mathAbs random).toInt = c :: rest ∧
      (c = dash ↔ random = Int32.minValue) := by
  obtain ⟨c, ds, hds, hc⟩ := decimalNat_head (mathAbs random).toInt.natAbs
  have hne : c ≠ dash := ne_of_isDigit hc (by decide)
  by_cases hneg : (mathAbs random).toInt < 0
  · refine ⟨dash, _, if_pos hneg, ?_⟩
    exact iff_of_true rfl ((mathAbs_neg_iff random).mp hneg)
  · refine ⟨c, ds, (if_neg hneg).trans hds, ?_⟩
    exact iff_of_false hne fun h => hneg ((mathAbs_neg_iff random).mpr h)

/-! ### Where the reader cuts -/

theorem dash_not_mem_urlSafeEscape (username : JString) : dash ∉ urlSafeEscape username :=
  fun h => absurd (isSafe_of_mem_urlSafeEscape h) (by decide)

/-- A number has a dash at most in front. -/
theorem apart_decimal (i : Int) : Apart dash (decimal i ++ [dash]) := by
  have hdash : dash ∉ decimalNat i.natAbs := not_mem_decimalNat (by decide) i.natAbs
  obtain ⟨c, ds, hds, hc⟩ := decimalNat_head i.natAbs
  have hlast : (decimalNat i.natAbs).getLast? ≠ some dash :=
    fun h => hdash (List.mem_of_getLast? h)
  have hnat : Apart dash (decimalNat i.natAbs ++ [dash]) :=
    apart_append (apart_of_not_mem hdash) (List.isChain_singleton dash) (.inl hlast)
  unfold decimal
  split
  · refine @apart_append _ dash [dash] _ (List.isChain_singleton dash) hnat (.inr ?_)
    rw [hds]
    exact fun h => ne_of_isDigit hc (by decide) (Option.some.inj h)
  · exact hnat

/-- An order string is cut behind its signature. -/
theorem pieces_genOrderString (username orderId plan gateway : JString) :
    pieces [dash, dash] (genOrderString username orderId plan gateway) =
      sign (orderStr username orderId plan gateway) ::
        pieces [dash, dash] (orderStr username orderId plan gateway) :=
  pieces_append _ (by simp) (hidden_pair _ (apart_decimal _))

/-- What is read, from the first two parts of the string and of the order's fields. -/
theorem readOrder_of {orderString signature orderInfo user orderId : JString}
    {more more' : List JString}
    (hstring : split [dash, dash] orderString = signature :: orderInfo :: more)
    (hinfo : split [dash] orderInfo = user :: orderId :: more') :
    readOrder orderString =
      if verifySignature orderInfo signature then .ok ⟨orderId, user⟩ else .error .invalidSign := by
  have h0 : part (split [dash, dash] orderString) 0 = .ok signature := by rw [hstring]; rfl
  have h1 : part (split [dash, dash] orderString) 1 = .ok orderInfo := by rw [hstring]; rfl
  have h2 : part (split [dash] orderInfo) 1 = .ok orderId := by rw [hinfo]; rfl
  have h3 : part (split [dash] orderInfo) 0 = .ok user := by rw [hinfo]; rfl
  unfold readOrder
  rw [h0, h1]
  simp only [bind, Except.bind, h2, h3]
  cases verifySignature orderInfo signature with
  | true => rfl
  | false => rfl

theorem verifySignature_sign (orderInfo : JString) :
    verifySignature orderInfo (sign orderInfo) = true := by
  rw [verifySignature, beq_self_eq_true]

section

variable {orderId plan gateway : JString} (username : JString)

/-- **An order whose id has no dash is read back.** -/
theorem readOrder_genOrderString (hid : dash ∉ orderId) (hidne : orderId ≠ [])
    (hplan : dash ∉ plan) (hplanne : plan ≠ []) (hgateway : dash ∉ gateway) :
    readOrder (genOrderString username orderId plan gateway) =
      .ok ⟨orderId, urlSafeEscape username⟩ := by
  have huser := dash_not_mem_urlSafeEscape username
  -- no two dashes stand together in what is signed, so it is not cut
  have happart : Apart dash (orderStr username orderId plan gateway ++ []) := by
    rw [List.append_nil]
    refine apart_joined huser (apart_joined hid (apart_joined hplan (apart_of_not_mem hgateway) ?_)
      (head?_append_ne _ hplanne hplan)) (head?_append_ne _ hidne hid)
    exact fun h => hgateway (List.mem_of_head? h)
  have hstring := pieces_genOrderString username orderId plan gateway
  rw [pieces_eq_singleton (hidden_pair [] happart)] at hstring
  have hinfo : pieces [dash] (orderStr username orderId plan gateway) =
      [urlSafeEscape username, orderId, plan, gateway] := by
    rw [orderStr, pieces_singleton_joined huser, pieces_singleton_joined hid,
      pieces_singleton_joined hplan, pieces_singleton_of_not_mem hgateway]
  obtain ⟨more, hsplit⟩ := @split_of_pieces _ _ _ _ _ [_] [] hstring (by simp [orderStr])
  obtain ⟨more', hsplit'⟩ := @split_of_pieces _ _ _ _ orderId [_] _ hinfo hidne
  rw [readOrder_of hsplit hsplit', verifySignature_sign]
  rfl

/-- No two dashes stand together up to the one behind the id. -/
theorem apart_userAndId (hid : dash ∉ orderId) (hidne : orderId ≠ []) :
    Apart dash (urlSafeEscape username ++ dash :: orderId ++ [dash]) := by
  rw [List.append_assoc, List.cons_append]
  refine apart_joined (dash_not_mem_urlSafeEscape username) ?_ (head?_append_ne _ hidne hid)
  exact apart_append (apart_of_not_mem hid) (List.isChain_singleton dash)
    (.inl fun h => hid (List.mem_of_getLast? h))

theorem pieces_userAndId (hid : dash ∉ orderId) :
    pieces [dash] (urlSafeEscape username ++ dash :: orderId) =
      [urlSafeEscape username, orderId] := by
  rw [pieces_singleton_joined (dash_not_mem_urlSafeEscape username),
    pieces_singleton_of_not_mem hid]

/-- An id with a dash at its end is not found. -/
theorem readOrder_dash_ne (hid : dash ∉ orderId) (hidne : orderId ≠ []) :
    readOrder (genOrderString username (orderId ++ [dash]) plan gateway) ≠
      .ok ⟨orderId ++ [dash], urlSafeEscape username⟩ := by
  have hcut : orderStr username (orderId ++ [dash]) plan gateway =
      urlSafeEscape username ++ dash :: orderId ++ ([dash, dash] ++ (plan ++ dash :: gateway)) := by
    simp [orderStr]
  -- the two dashes around the end of the id are a separator
  have hpieces : pieces [dash, dash] (orderStr username (orderId ++ [dash]) plan gateway) =
      (urlSafeEscape username ++ dash :: orderId) ::
        pieces [dash, dash] (plan ++ dash :: gateway) := by
    rw [hcut]
    exact pieces_append _ (by simp) (hidden_pair _ (apart_userAndId username hid hidne))
  have hstring := pieces_genOrderString username (orderId ++ [dash]) plan gateway
  rw [hpieces] at hstring
  obtain ⟨more, hsplit⟩ := @split_of_pieces _ _ _ _ _ [_] _ hstring (by simp)
  obtain ⟨more', hsplit'⟩ :=
    @split_of_pieces _ _ _ _ orderId [_] [] (pieces_userAndId username hid) hidne
  -- even if the signature of the shorter text were right, the id would be too short
  rw [readOrder_of hsplit hsplit']
  split
  · intro h
    have heq : orderId = orderId ++ [dash] := (Order.mk.inj (Except.ok.inj h)).1
    have hlen := congrArg List.length heq
    rw [List.length_append, List.length_singleton] at hlen
    omega
  · exact fun h => nomatch h

end

/-! ### Generated orders -/

/-- **An order is accepted by its own reader exactly if the random number is not the least
`int`.** -/
theorem order_accepted_iff (digits : Digits) (date : LocalTime) (random : Int32)
    (username plan gateway : JString) (hplanne : plan ≠ []) (hplan : dash ∉ plan)
    (hgateway : dash ∉ gateway) :
    (∃ orderId, genOrderId digits date random = some orderId ∧
      readOrder (genOrderString username orderId plan gateway) =
        .ok ⟨orderId, urlSafeEscape username⟩) ↔ random ≠ Int32.minValue := by
  obtain ⟨c, rest, hdecimal, hc⟩ := decimal_mathAbs random
  have hid := genOrderId_eq digits date random hdecimal
  have hbase := dash_not_mem_idStart digits date
  have hbasene : orderPrefixText ++ formatTime digits date ≠ [] :=
    fun h => orderPrefixText_ne_nil (List.append_eq_nil_iff.mp h).1
  -- the character that the id ends in is a dash exactly for the least `int`
  rw [← List.append_assoc] at hid
  rw [hid, ne_eq, ← hc]
  constructor
  · rintro ⟨orderId, hsome, hread⟩ rfl
    obtain rfl := Option.some.inj hsome
    exact readOrder_dash_ne username hbase hbasene hread
  · intro hne
    refine ⟨_, rfl, readOrder_genOrderString username ?_ (by simp) hplan hplanne hgateway⟩
    rw [List.mem_append, List.mem_singleton]
    exact fun h => h.elim hbase fun heq => hne heq.symm

/-- The digits of the English locale. -/
def asciiDigits : Digits := ⟨0x30, by decide⟩

def someDay : LocalTime := ⟨2014, 5, 17, 9, 30, 0⟩

theorem order_accepted_iff_bob :
    (∃ orderId, genOrderId asciiDigits someDay 7 = some orderId ∧
      readOrder (genOrderString (lit "bob") orderId (lit "month") (lit "alipay")) =
        .ok ⟨orderId, urlSafeEscape (lit "bob")⟩) ↔ (7 : Int32) ≠ Int32.minValue :=
  order_accepted_iff asciiDigits someDay 7 (lit "bob") (lit "month") (lit "alipay")
    (by decide +kernel) (by decide +kernel) (by decide +kernel)

/-- **An order of the least `int` is refused**: the dash that `abs` leaves ends the id, and the
signature is compared with that of a shorter text. -/
theorem order_refused :
    ∃ orderId, genOrderId asciiDigits someDay Int32.minValue = some orderId ∧
      readOrder (genOrderString (lit "bob") orderId (lit "month") (lit "alipay")) =
        .error .invalidSign := by
  refine ⟨lit "RE20140517093000-", ?_, ?_⟩
  · decide +kernel
  · decide +kernel

end Orders
