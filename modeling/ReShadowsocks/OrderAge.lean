/-
The age of an order, as `OrderFragment.getOrder` measures it.

The time of an order is written into its id and read back from there.  `getOrder` means to
refuse an order that is older than two days; it subtracts the present time from the time of the
order, and so refuses orders that are two days ahead of the clock.

* `readOrder_genOrderString_cases` — a signed order is read back or has no right signature,
  whatever its other fields are;
* `parseTime_formatTime` — the time that is written is the time that is read;
* `decidedByAge_iff` — when the order is judged by its age;
* `old_order_looked_up` — an order that is three days old.
-/
import ReShadowsocks.Orders

namespace Orders

open Json JavaString Escape

/-! ### The time in an id -/

/-- The value of a digit of the locale. -/
def Digits.value (digits : Digits) (c : UInt16) : Option Nat :=
  if (c - digits.zero).toNat < 10 then some (c - digits.zero).toNat else none

/-- The number that a field of a date stands for. -/
def Digits.number (digits : Digits) (s : JString) : Option Nat :=
  s.foldlM (fun n c => (digits.value c).map (10 * n + ·)) 0

/-- The calendar and the time zone of the device: the milliseconds between the epoch and a local
time.  The fields are those of a lenient calendar, which takes every number of two digits. -/
structure LocalCalendar where
  millis : LocalTime → Int
  in_range : ∀ t, -2 ^ 60 < millis t ∧ millis t < 2 ^ 60

/-- A field of `w` digits at the start of a text, and what follows it. -/
def Digits.field (digits : Digits) (w : Nat) (s : JString) : Option (Nat × JString) :=
  (digits.number (s.take w)).map fun n => (n, s.drop w)

/-- The local time with these fields, cut to their widths. -/
def LocalTime.ofFields (year month day hour minute second : Nat) : LocalTime where
  year := ⟨year % 10000, Nat.mod_lt _ (by decide)⟩
  month := ⟨month % 100, Nat.mod_lt _ (by decide)⟩
  day := ⟨day % 100, Nat.mod_lt _ (by decide)⟩
  hour := ⟨hour % 100, Nat.mod_lt _ (by decide)⟩
  minute := ⟨minute % 100, Nat.mod_lt _ (by decide)⟩
  second := ⟨second % 100, Nat.mod_lt _ (by decide)⟩

theorem LocalTime.ofFields_eq (t : LocalTime) :
    ofFields t.year t.month t.day t.hour t.minute t.second = t := by
  simp only [ofFields, Nat.mod_eq_of_lt t.year.isLt, Nat.mod_eq_of_lt t.month.isLt,
    Nat.mod_eq_of_lt t.day.isLt, Nat.mod_eq_of_lt t.hour.isLt, Nat.mod_eq_of_lt t.minute.isLt,
    Nat.mod_eq_of_lt t.second.isLt]

/-- `format.parse(timeStr)` for `ORDER_TIME_FORMAT`, on a text of the format's length.  Fields
that stand side by side are told apart by the width that the format gives them. -/
def parseTime (digits : Digits) (calendar : LocalCalendar) (timeStr : JString) :
    Option Int64 := do
  let year ← digits.field 4 timeStr
  let month ← digits.field 2 year.2
  let day ← digits.field 2 month.2
  let hour ← digits.field 2 day.2
  let minute ← digits.field 2 hour.2
  let second ← digits.field 2 minute.2
  return Int64.ofInt (calendar.millis
    (LocalTime.ofFields year.1 month.1 day.1 hour.1 minute.1 second.1))

theorem value_zero_add (digits : Digits) {d : Nat} (hd : d < 10) :
    digits.value (digits.zero + UInt16.ofNat d) = some d := by
  have hsub : digits.zero + UInt16.ofNat d - digits.zero = UInt16.ofNat d := by
    rw [UInt16.add_comm, UInt16.add_sub_cancel]
  have hnat : (UInt16.ofNat d).toNat = d := UInt16.toNat_ofNat_of_lt (show d < 65536 by omega)
  rw [Digits.value, hsub, hnat, if_pos hd]

/-- A number of `w` digits is read back. -/
theorem number_pad (digits : Digits) (w : Nat) {n : Nat} (hn : n < 10 ^ w) :
    digits.number (digits.pad w n) = some n := by
  induction w generalizing n with
  | zero =>
    obtain rfl : n = 0 := by omega
    rfl
  | succ w ih =>
    have hdiv : n / 10 < 10 ^ w := by
      rw [Nat.pow_succ] at hn
      omega
    have hlast : digits.number (digits.pad (w + 1) n) =
        (digits.number (digits.pad w (n / 10))).bind fun m =>
          (digits.value (digits.zero + UInt16.ofNat (n % 10))).map (10 * m + ·) := by
      rw [Digits.pad, Digits.number, List.foldlM_append]
      simp [Digits.number]
    rw [hlast, ih hdiv, value_zero_add digits (by omega), Option.bind_some, Option.map_some]
    congr 1
    omega

theorem field_pad (digits : Digits) (w : Nat) {n : Nat} (hn : n < 10 ^ w) (rest : JString) :
    digits.field w (digits.pad w n ++ rest) = some (n, rest) := by
  rw [Digits.field, List.take_left' (length_pad digits w n),
    List.drop_left' (length_pad digits w n), number_pad digits w hn]
  rfl

/-- **The time that is written is the time that is read.** -/
theorem parseTime_formatTime (digits : Digits) (calendar : LocalCalendar) (date : LocalTime) :
    parseTime digits calendar (formatTime digits date) =
      some (Int64.ofInt (calendar.millis date)) := by
  have htwo : ∀ (n : Fin 100) (rest : JString),
      digits.field 2 (digits.pad 2 n ++ rest) = some (n.val, rest) :=
    fun n rest => field_pad digits 2 n.isLt rest
  have hsecond : digits.field 2 (digits.pad 2 date.second) = some (date.second.val, []) := by
    have h := htwo date.second []
    rwa [List.append_nil] at h
  simp only [parseTime, formatTime, List.append_assoc, Option.bind_eq_bind, Option.bind_some,
    field_pad digits 4 date.year.isLt, htwo, hsecond, LocalTime.ofFields_eq]
  rfl

/-! ### Reading an order with any fields -/

section

variable {orderId : JString} (username plan gateway : JString)

/-- The part of an order string that is verified begins with the user and the id. -/
theorem exists_pieces_orderStr (hid : dash ∉ orderId) (hidne : orderId ≠ []) :
    ∃ p ps more, pieces [dash, dash] (orderStr username orderId plan gateway) = p :: ps ∧
      p ≠ [] ∧ pieces [dash] p = urlSafeEscape username :: orderId :: more := by
  have hcut : orderStr username orderId plan gateway =
      urlSafeEscape username ++ dash :: orderId ++ dash :: (plan ++ dash :: gateway) := by
    simp [orderStr]
  have happart := apart_userAndId username hid hidne
  have hfields := pieces_userAndId username hid
  -- the dash behind the id is the first of a separator, or it stays with what follows
  by_cases hsep : [dash, dash] <+: dash :: (plan ++ dash :: gateway)
  · obtain ⟨rest, hrest⟩ := hsep
    have hpieces := pieces_append rest (by simp) (hidden_pair ([dash, dash] ++ rest) happart)
    exact ⟨_, _, [], by rw [hcut, ← hrest, hpieces], by simp, hfields⟩
  · obtain ⟨p, ps, hps⟩ := exists_pieces [dash, dash] (plan ++ dash :: gateway)
    refine ⟨urlSafeEscape username ++ dash :: orderId ++ dash :: p, ps, pieces [dash] p, ?_,
      by simp, ?_⟩
    · rw [hcut, pieces_append_left (hidden_pair _ happart), pieces_cons_of_hidden hsep, hps]
      rfl
    · rw [pieces_singleton_append, hfields]
      rfl

/-- **A signed order is read back, or its signature is found wrong.** -/
theorem readOrder_genOrderString_cases (hid : dash ∉ orderId) (hidne : orderId ≠ []) :
    readOrder (genOrderString username orderId plan gateway) =
        .ok ⟨orderId, urlSafeEscape username⟩ ∨
      readOrder (genOrderString username orderId plan gateway) = .error .invalidSign := by
  obtain ⟨p, ps, more, hpieces, hp, hfields⟩ :=
    exists_pieces_orderStr username plan gateway hid hidne
  have hstring := pieces_genOrderString username orderId plan gateway
  rw [hpieces] at hstring
  obtain ⟨rest, hsplit⟩ := @split_of_pieces _ _ _ _ p [_] ps hstring hp
  obtain ⟨rest', hsplit'⟩ := @split_of_pieces _ _ _ _ orderId [_] more hfields hidne
  rw [readOrder_of hsplit hsplit']
  split
  · exact .inl rfl
  · exact .inr rfl

end

/-! ### The age of an order -/

/-- An order id for a time, with its last digit. -/
def timedId (digits : Digits) (date : LocalTime) (c : UInt16) : JString :=
  orderPrefixText ++ (formatTime digits date ++ [c])

/-- `getOrder` on an order whose id holds a time. -/
theorem getOrder_of_readOrder {digits : Digits} {date : LocalTime} {c : UInt16}
    {orderString user : JString} (calendar : LocalCalendar) (now : Int64)
    (h : readOrder orderString = .ok ⟨timedId digits date c, user⟩) :
    getOrder (parseTime digits calendar) now orderString =
      if Int64.ofInt (calendar.millis date) - now > 2 * 86400 * 1000 then .error .expired
      else .ok ⟨timedId digits date c, user⟩ := by
  have hcut : substring (timedId digits date c) orderPrefixText.length
      (orderPrefixText.length + orderTimeFormat.length) = some (formatTime digits date) := by
    refine substring_append orderPrefixText (formatTime digits date) [c] rfl rfl ?_
    rw [length_formatTime, length_orderTimeFormat]
  unfold getOrder
  rw [h]
  simp only [bind, Except.bind, hcut, Option.elim_some, parseTime_formatTime]
  split
  · rfl
  · rfl

/-- The difference that `getOrder` computes is past the limit. -/
theorem sub_gt_iff {t : Int} (now : Int64) (hlo : -2 ^ 60 < t) (hhi : t < 2 ^ 60) :
    Int64.ofInt t - now > 2 * 86400 * 1000 ↔
      172800000 < t - now.toInt ∧ t - now.toInt < 2 ^ 63 ∨ t - now.toInt < -2 ^ 63 := by
  have hnow := now.le_toInt
  have hnow' := now.toInt_lt
  have ht : (Int64.ofInt t).toInt = t := Int64.toInt_ofInt_of_le (by omega) (by omega)
  rw [gt_iff_lt, Int64.lt_iff_toInt_lt, Int64.toInt_sub, ht, Int.bmod_def]
  have hlimit : (2 * 86400 * 1000 : Int64).toInt = 172800000 := by decide
  rw [hlimit]
  split <;> omega

/-- An order of the time `t` is looked up if it is at most two days old, and is refused as
expired otherwise. -/
def DecidedByAge (parse : JString → Option Int64) (now : Int64) (t : Int)
    (orderString : JString) : Prop :=
  ((∃ order, getOrder parse now orderString = .ok order) ↔ now.toInt - t ≤ 172800000) ∧
    (¬ now.toInt - t ≤ 172800000 → getOrder parse now orderString = .error .expired)

/-- **When an order is judged by its age**: it is at most two days old and at most two days
ahead of the clock, or the difference does not fit in a `long`. -/
theorem decidedByAge_iff (digits : Digits) (calendar : LocalCalendar) (date : LocalTime)
    (c : UInt16) (username plan gateway : JString) (now : Int64) (hc : isDigit c = true)
    (hsign : readOrder (genOrderString username (timedId digits date c) plan gateway) ≠
      .error .invalidSign) :
    DecidedByAge (parseTime digits calendar) now (calendar.millis date)
        (genOrderString username (timedId digits date c) plan gateway) ↔
      |now.toInt - calendar.millis date| ≤ 172800000 ∨
        ¬ (-2 ^ 63 ≤ calendar.millis date - now.toInt ∧
          calendar.millis date - now.toInt < 2 ^ 63) := by
  have hid : dash ∉ timedId digits date c := by
    have hne : c ≠ dash := ne_of_isDigit hc (by decide)
    rw [timedId, ← List.append_assoc, List.mem_append, List.mem_singleton]
    exact fun h => h.elim (dash_not_mem_idStart digits date) fun heq => hne heq.symm
  have hread := (readOrder_genOrderString_cases username plan gateway hid
    (by simp [timedId])).resolve_right hsign
  obtain ⟨hlo, hhi⟩ := calendar.in_range date
  have hpast := sub_gt_iff now hlo hhi
  have hget := getOrder_of_readOrder calendar now hread
  have hnow := now.le_toInt
  have hnow' := now.toInt_lt
  unfold DecidedByAge
  rw [hget, abs_le]
  by_cases hgt : Int64.ofInt (calendar.millis date) - now > 2 * 86400 * 1000
  · rw [if_pos hgt]
    have hnone : ¬ ∃ order, (Except.error Thrown.expired : Except Thrown Order) = .ok order := by
      rintro ⟨order, h⟩
      cases h
    have harith := hpast.mp hgt
    simp only [hnone, false_iff, implies_true, and_true]
    omega
  · rw [if_neg hgt]
    have hsome : ∃ order, (Except.ok ⟨timedId digits date c, urlSafeEscape username⟩ :
        Except Thrown Order) = .ok order := ⟨_, rfl⟩
    have harith := mt hpast.mpr hgt
    simp only [hsome, true_iff, reduceCtorEq, imp_false, not_not, and_self]
    omega

/-! ### Two orders -/

/-- The days from the first of January of the year 1 to a day of the Gregorian calendar, with
months beyond the twelfth in the years that follow. -/
def gregorianDay (year month day : Int) : Int :=
  let y := year + (month - 1) / 12 - 1
  let m := (month - 1) % 12 + 1
  let leap := (y + 1) % 4 = 0 ∧ ((y + 1) % 100 ≠ 0 ∨ (y + 1) % 400 = 0)
  365 * y + y / 4 - y / 100 + y / 400 + (367 * m - 362) / 12 +
    (if m ≤ 2 then 0 else if leap then -1 else -2) + day

/-- The Gregorian calendar in a zone that is `offset` milliseconds ahead of the epoch's. -/
def gregorian (offset : Int32) : LocalCalendar where
  millis t := ((((gregorianDay t.year t.month t.day - 719163) * 24 + t.hour) * 60 + t.minute) * 60 +
    t.second) * 1000 - offset.toInt
  in_range t := by
    have hlo := offset.le_toInt
    have hhi := offset.toInt_lt
    simp only [gregorianDay]
    omega

example : (gregorian 0).millis someDay = 1400319000000 := by decide

/-- An order of the day after the clock is judged by its age. -/
theorem decidedByAge_iff_ahead :
    DecidedByAge (parseTime asciiDigits (gregorian 28800000)) 1400203800000
        ((gregorian 28800000).millis someDay)
        (genOrderString (lit "bob") (timedId asciiDigits someDay 0x37) (lit "month")
          (lit "alipay")) ↔
      |(1400203800000 : Int64).toInt - (gregorian 28800000).millis someDay| ≤ 172800000 ∨
        ¬ (-2 ^ 63 ≤ (gregorian 28800000).millis someDay - (1400203800000 : Int64).toInt ∧
          (gregorian 28800000).millis someDay - (1400203800000 : Int64).toInt < 2 ^ 63) := by
  refine decidedByAge_iff asciiDigits (gregorian 28800000) someDay 0x37 (lit "bob") (lit "month")
    (lit "alipay") 1400203800000 (by decide) ?_
  decide +kernel

/-- **An order that is three days old is looked up.** -/
theorem old_order_looked_up :
    (1400549400000 : Int64).toInt - (gregorian 28800000).millis someDay = 3 * 86400 * 1000 ∧
      getOrder (parseTime asciiDigits (gregorian 28800000)) 1400549400000
          (genOrderString (lit "bob") (timedId asciiDigits someDay 0x37) (lit "month")
            (lit "alipay")) =
        .ok ⟨lit "RE201405170930007", lit "bob"⟩ := by
  refine ⟨by decide, ?_⟩
  decide +kernel

end Orders
