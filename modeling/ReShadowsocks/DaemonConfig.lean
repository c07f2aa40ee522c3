/-
The configuration files of the daemons.

`startShadowsocksDaemon` and `startDnsTunnel` fill in one template and print the
result to a file that `ss-local` and `ss-tunnel` read as JSON.  The strings of
the configuration are put between the quotes of the template as they are.

* `formatLocal_shadowsocks` — what the template writes, field by field;
* `plain_of_sequence` — a value that is read back as it was is plain;
* `delivered_iff` — the daemons get the configuration exactly if its strings are
  plain: no quote, no backslash, no control character, no unpaired surrogate;
* `server_injected` — a password that brings a server of its own.
-/
import ReShadowsocks.Config
import ReShadowsocks.Utf8

namespace DaemonConfig

open Json
open Utf8 (High Low not_surrogate)

/-! ### Formatting -/

inductive Arg
  | str (s : JString)
  | int (i : Int)
  deriving DecidableEq

/-- `formatLocal` with the locale `ENGLISH`, for the two conversions that the
template uses.  `none` is an `IllegalFormatException`. -/
def formatLocal : JString → List Arg → Option JString
  | [], _ => some []
  | c :: t, args =>
    if c = 0x25 then
      match t, args with
      | d :: t, .str s :: args => if d = 0x73 then (formatLocal t args).map (s ++ ·) else none
      | d :: t, .int i :: args =>
        if d = 0x64 then (formatLocal t args).map (decimal i ++ ·) else none
      | _, _ => none
    else (formatLocal t args).map (c :: ·)

/-- The template `SHADOWSOCKS` of `ConfigUtils`. -/
def shadowsocks : JString :=
  lit "\x7b\"server\": \"%s\", \"server_port\": %d, \"local_port\": %d, \"password\": \"%s\", \"method\":\"%s\", \"timeout\": %d\x7d"

/-- The text for `ss-local-vpn.conf`, of `startShadowsocksDaemon`. -/
def ssLocalConf (config : Config) : Option JString :=
  formatLocal shadowsocks [.str config.proxy, .int config.remotePort, .int config.localPort,
    .str config.sitekey, .str config.encMethod, .int 10]

/-- The text for `ss-tunnel-vpn.conf`, of `startDnsTunnel`. -/
def ssTunnelConf (config : Config) : Option JString :=
  formatLocal shadowsocks [.str config.proxy, .int config.remotePort, .int 8163,
    .str config.sitekey, .str config.encMethod, .int 10]

/-! ### Printing -/

/-- What is left of a string when it is written as UTF-8: a unit that is not part
of a character becomes a question mark. -/
def scrub : JString → JString
  | [] => []
  | c :: t =>
    if High c then
      match t with
      | [] => [0x3F]
      | d :: t => if Low d then c :: d :: scrub t else 0x3F :: scrub (d :: t)
    else if Low c then 0x3F :: scrub t
    else c :: scrub t

/-- The text of the file after `println`. -/
def printToFile (conf : JString) : JString := scrub (conf ++ [0x0A])

/-! ### What the daemons should get -/

def keys : List JString :=
  [lit "server", lit "server_port", lit "local_port", lit "password", lit "method", lit "timeout"]

/-- There are members of that name, and all of them have the value.  JSON leaves
it open which of several members of one name counts. -/
def Holds (members : List (Text × Value)) (key : JString) (v : Value) : Prop :=
  (∃ m ∈ members, m.1 = key) ∧ ∀ m ∈ members, m.1 = key → m.2 = v

/-- The file is JSON and holds the server of the configuration. -/
def Delivered (config : Config) (conf : Option JString) : Prop :=
  ∃ text members, conf = some text ∧ parse (printToFile text) = some (.obj members) ∧
    (∀ m ∈ members, m.1 ∈ keys) ∧
    Holds members (lit "server") (.str config.proxy) ∧
    Holds members (lit "server_port") (.num config.remotePort 0) ∧
    Holds members (lit "password") (.str config.sitekey) ∧
    Holds members (lit "method") (.str config.encMethod)

/-- Nothing in the string has a meaning of its own between quotes, and it can be
written as UTF-8. -/
def Plain (s : JString) : Prop := (∀ c ∈ s, Unescaped c) ∧ scrub s = s

/-! ### Fields -/

/-- A field as the template writes it: its name, what stands behind the colon,
its value. -/
inductive Field
  | str (key gap value : JString)
  | int (key gap : JString) (value : Int)

namespace Field

def key : Field → JString
  | str key _ _ => key
  | int key _ _ => key

def gap : Field → JString
  | str _ gap _ => gap
  | int _ gap _ => gap

/-- A field up to its value. -/
def start (f : Field) : JString := quote :: f.key ++ quote :: colon :: f.gap

def text (f : Field) : JString :=
  match f with
  | str _ _ value => f.start ++ quote :: value ++ [quote]
  | int _ _ value => f.start ++ decimal value

/-- The field in the template. -/
def pattern (f : Field) : JString :=
  match f with
  | str _ _ _ => f.start ++ [quote, 0x25, 0x73, quote]
  | int _ _ _ => f.start ++ [0x25, 0x64]

def arg : Field → Arg
  | str _ _ value => .str value
  | int _ _ value => .int value

/-- The field in the file. -/
def scrub : Field → Field
  | str key gap value => str key gap (DaemonConfig.scrub value)
  | int key gap value => int key gap value

def member : Field → Text × Value
  | str key _ value => (key, .str value)
  | int key _ value => (key, .num value 0)

/-- A string value is read as it is. -/
def Readable : Field → Prop
  | str _ _ value => ∀ c ∈ value, Unescaped c
  | int _ _ _ => True

end Field

/-- Fields with commas between them, and the closing brace. -/
def joined (text : Field → JString) : List Field → JString
  | [] => [0x7D]
  | [f] => text f ++ [0x7D]
  | f :: fs => text f ++ comma :: space :: joined text fs

theorem joined_cons_cons (text : Field → JString) (f g : Field) (fs : List Field) :
    joined text (f :: g :: fs) = text f ++ comma :: space :: joined text (g :: fs) := rfl

/-- The fields of the template. -/
def fields (config : Config) (localPort : Int) : List Field :=
  [.str (lit "server") [space] config.proxy, .int (lit "server_port") [space] config.remotePort,
    .int (lit "local_port") [space] localPort, .str (lit "password") [space] config.sitekey,
    .str (lit "method") [] config.encMethod, .int (lit "timeout") [space] 10]

/-- Names and gaps that are what they seem. -/
def Proper (key gap : JString) : Prop :=
  (∀ c ∈ key, Unescaped c ∧ c < 0x80 ∧ c ≠ 0x25) ∧ ∀ c ∈ gap, isWs c = true

-- through the members of the lists, not through all code units
instance (key gap : JString) : Decidable (Proper key gap) :=
  @instDecidableAnd _ _ (List.decidableBAll _ _) (List.decidableBAll _ _)

theorem proper_fields (config : Config) (localPort : Int) :
    ∀ f ∈ fields config localPort, Proper f.key f.gap := by
  have hkeys : ∀ key ∈ keys, Proper key [space] ∧ Proper key [] := by
    rw [keys]
    repeat rw [lit_ofList]
    decide
  intro f hf
  simp only [fields, List.mem_cons, List.not_mem_nil, or_false] at hf
  rcases hf with rfl | rfl | rfl | rfl | rfl | rfl
  · exact (hkeys _ (by simp [keys, Field.key])).1
  · exact (hkeys _ (by simp [keys, Field.key])).1
  · exact (hkeys _ (by simp [keys, Field.key])).1
  · exact (hkeys _ (by simp [keys, Field.key])).1
  · exact (hkeys _ (by simp [keys, Field.key])).2
  · exact (hkeys _ (by simp [keys, Field.key])).1

theorem ws_ascii {c : UInt16} (h : isWs c = true) : c < 0x80 ∧ c ≠ 0x25 := by
  simp only [isWs, Bool.or_eq_true, beq_iff_eq] at h
  rcases h with ((rfl | rfl) | rfl) | rfl <;> decide

theorem start_ascii {f : Field} (h : Proper f.key f.gap) : ∀ c ∈ f.start, c < 0x80 ∧ c ≠ 0x25 := by
  intro c hc
  simp only [Field.start, List.cons_append, List.mem_cons, List.mem_append] at hc
  rcases hc with rfl | hc | rfl | rfl | hc
  · decide
  · exact (h.1 c hc).2
  · decide
  · decide
  · exact ws_ascii (h.2 c hc)

/-! ### What is written -/

theorem formatLocal_cons {c : UInt16} (h : c ≠ 0x25) (t : JString) (args : List Arg) :
    formatLocal (c :: t) args = (formatLocal t args).map (c :: ·) := by
  rw [formatLocal.eq_def]
  exact if_neg h

theorem formatLocal_append {a : JString} (h : ∀ c ∈ a, c ≠ 0x25) (t : JString) (args : List Arg) :
    formatLocal (a ++ t) args = (formatLocal t args).map (a ++ ·) := by
  induction a with
  | nil => simp
  | cons c a ih =>
    rw [List.cons_append, formatLocal_cons (h c List.mem_cons_self),
      ih fun c hc => h c (List.mem_cons_of_mem _ hc), Option.map_map]
    rfl

theorem formatLocal_pattern {f : Field} (h : Proper f.key f.gap) (t : JString) (args : List Arg) :
    formatLocal (f.pattern ++ t) (f.arg :: args) = (formatLocal t args).map (f.text ++ ·) := by
  have hstart : ∀ c ∈ f.start, c ≠ 0x25 := fun c hc => (start_ascii h c hc).2
  have hquote : quote ≠ 0x25 := by decide
  cases f with
  | str key gap value =>
    have hs : formatLocal (0x25 :: 0x73 :: quote :: t) (.str value :: args) =
        (formatLocal (quote :: t) args).map (value ++ ·) := by
      rw [formatLocal.eq_def]
      rfl
    simp only [Field.pattern, Field.text, Field.arg, List.append_assoc, List.cons_append,
      List.nil_append]
    rw [formatLocal_append hstart, formatLocal_cons hquote, hs, formatLocal_cons hquote]
    simp only [Option.map_map, Function.comp_def]
  | int key gap value =>
    have hd : formatLocal (0x25 :: 0x64 :: t) (.int value :: args) =
        (formatLocal t args).map (decimal value ++ ·) := by
      rw [formatLocal.eq_def]
      rfl
    simp only [Field.pattern, Field.text, Field.arg, List.append_assoc, List.cons_append,
      List.nil_append]
    rw [formatLocal_append hstart, hd]
    simp only [Option.map_map, Function.comp_def]

theorem formatLocal_joined : ∀ {fs : List Field}, (∀ f ∈ fs, Proper f.key f.gap) →
    formatLocal (joined Field.pattern fs) (fs.map Field.arg) = some (joined Field.text fs)
  | [], _ => rfl
  | [f], h => by
    rw [joined, joined, List.map_cons, formatLocal_pattern (h f List.mem_cons_self)]
    rfl
  | f :: g :: fs, h => by
    have ih := formatLocal_joined fun f' hf' => h f' (List.mem_cons_of_mem f hf')
    have hcomma : comma ≠ 0x25 := by decide
    have hspace : space ≠ 0x25 := by decide
    rw [joined_cons_cons, List.map_cons, formatLocal_pattern (h f List.mem_cons_self),
      formatLocal_cons hcomma, formatLocal_cons hspace, ih]
    rfl

/-- **What the template writes**, field by field. -/
theorem formatLocal_shadowsocks (config : Config) (localPort : Int) :
    formatLocal shadowsocks ((fields config localPort).map Field.arg) =
      some (0x7B :: joined Field.text (fields config localPort)) := by
  have htemplate : shadowsocks =
      0x7B :: joined Field.pattern (fields ⟨false, [], [], [], .all, 0, 0⟩ 0) := by
    rw [shadowsocks, fields]
    repeat rw [lit_ofList]
    decide
  have hpattern : joined Field.pattern (fields ⟨false, [], [], [], .all, 0, 0⟩ 0) =
      joined Field.pattern (fields config localPort) := by
    simp only [fields, joined, Field.pattern, Field.start, Field.key, Field.gap]
  rw [htemplate, hpattern, formatLocal_cons (by decide),
    formatLocal_joined (proper_fields config localPort)]
  rfl

/-! ### What is printed -/

theorem scrub_cons {c : UInt16} (h : c < 0x80) (t : JString) : scrub (c :: t) = c :: scrub t := by
  obtain ⟨hhigh, hlow⟩ := not_surrogate h
  rw [scrub.eq_def]
  simp only [hhigh, hlow, if_false]

theorem scrub_ascii {a : JString} (h : ∀ c ∈ a, c < 0x80) (t : JString) :
    scrub (a ++ t) = a ++ scrub t := by
  induction a with
  | nil => rfl
  | cons c a ih =>
    rw [List.cons_append, scrub_cons (h c List.mem_cons_self),
      ih fun c hc => h c (List.mem_cons_of_mem _ hc)]
    rfl

/-- Characters do not reach across an ASCII character. -/
theorem scrub_append_cons {c : UInt16} (h : c < 0x80) (t : JString) :
    ∀ s : JString, scrub (s ++ c :: t) = scrub s ++ c :: scrub t := by
  have hlow := (not_surrogate h).2
  intro s
  fun_induction scrub s with
  | case1 => exact scrub_cons h t
  | case2 d hd =>
    rw [List.cons_append, List.nil_append, scrub.eq_def]
    simp only [hd, if_true, hlow, if_false, scrub_cons h t]
    rfl
  | case3 d hd e s he ih =>
    rw [List.cons_append, List.cons_append, scrub.eq_def]
    simp only [hd, he, if_true, ih]
    rfl
  | case4 d hd e s he ih =>
    rw [List.cons_append, List.cons_append, scrub.eq_def]
    simp only [hd, he, if_true, if_false]
    rw [← List.cons_append, ih]
    rfl
  | case5 d s hd hd' ih =>
    rw [List.cons_append, scrub.eq_def]
    simp only [hd, hd', if_true, ih]
    rfl
  | case6 d s hd hd' ih =>
    rw [List.cons_append, scrub.eq_def]
    simp only [hd, hd', ih]
    rfl

theorem length_scrub (s : JString) : (scrub s).length = s.length := by
  fun_induction scrub s <;> simp_all

theorem decimal_ascii (i : Int) : ∀ c ∈ decimal i, c < 0x80 := by
  have hdigit : ∀ c ∈ decimalNat i.natAbs, c < 0x80 := by
    intro c hc
    have hd := isDigit_of_mem_decimalNat hc
    rw [isDigit, Bool.and_eq_true, decide_eq_true_iff, decide_eq_true_iff] at hd
    exact UInt16.lt_of_le_of_lt hd.2 (by decide)
  intro c hc
  unfold decimal at hc
  split at hc
  · rcases List.mem_cons.mp hc with rfl | hc
    · decide
    · exact hdigit c hc
  · exact hdigit c hc

theorem scrub_text {f : Field} (h : Proper f.key f.gap) (t : JString) :
    scrub (f.text ++ t) = f.scrub.text ++ scrub t := by
  have hstart : ∀ c ∈ f.start, c < 0x80 := fun c hc => (start_ascii h c hc).1
  cases f with
  | str key gap value =>
    simp only [Field.text, Field.scrub, List.append_assoc, List.cons_append, List.nil_append]
    rw [scrub_ascii hstart, scrub_cons (by decide), scrub_append_cons (by decide)]
    rfl
  | int key gap value =>
    simp only [Field.text, Field.scrub, List.append_assoc]
    rw [scrub_ascii hstart, scrub_ascii (decimal_ascii value)]

theorem scrub_joined : ∀ {fs : List Field}, (∀ f ∈ fs, Proper f.key f.gap) →
    scrub (joined Field.text fs ++ [0x0A]) = joined Field.text (fs.map Field.scrub) ++ [0x0A]
  | [], _ => by decide
  | [f], h => by
    rw [joined, List.append_assoc, scrub_text (h f List.mem_cons_self), List.map_cons,
      List.map_nil, joined, List.append_assoc]
    rfl
  | f :: g :: fs, h => by
    have ih := scrub_joined fun f' hf' => h f' (List.mem_cons_of_mem f hf')
    rw [joined_cons_cons, List.append_assoc, scrub_text (h f List.mem_cons_self), List.cons_append,
      List.cons_append, scrub_cons (by decide), scrub_cons (by decide), ih]
    simp only [List.map_cons, joined_cons_cons, List.append_assoc, List.cons_append]

/-! ### What is read -/

theorem skipWs_gap {gap : JString} (h : ∀ c ∈ gap, isWs c = true) (t : JString) :
    skipWs (gap ++ t) = skipWs t :=
  List.dropWhile_append_of_pos h

theorem skipWs_cons {c : UInt16} (h : isWs c = false) (t : JString) : skipWs (c :: t) = c :: t := by
  rw [skipWs, List.dropWhile_cons, if_neg (by rw [h]; decide)]

/-- The name of a field is read, and its value is next. -/
theorem member_start {v : Text → Option (Value × Text)} {f : Field} {t u : JString}
    (h : Proper f.key f.gap) (ht : skipWs t = f.start ++ u) :
    member v t = (v (f.gap ++ u)).map fun (val, rest) => ((f.key, val), rest) := by
  have hname : stringTail (f.key ++ quote :: (colon :: f.gap ++ u)) =
      some (f.key, colon :: f.gap ++ u) :=
    stringTail_unescaped _ fun c hc => (h.1 c hc).1
  have hws : skipWs (colon :: f.gap ++ u) = colon :: (f.gap ++ u) := skipWs_cons (by decide) _
  simp only [Field.start, List.cons_append, List.append_assoc] at ht hname hws
  simp only [member, ht, hname, hws, ne_eq, not_true_eq_false, if_false]

theorem value_quote {n : Nat} {gap : JString} (h : ∀ c ∈ gap, isWs c = true) (t : JString) :
    value (n + 1) (gap ++ quote :: t) = (stringTail t).map fun (s, rest) => (.str s, rest) := by
  have hws : skipWs (gap ++ quote :: t) = quote :: t := by
    rw [skipWs_gap h, skipWs_cons (by decide)]
  have hbrace : quote ≠ 0x7B := by decide
  have hbracket : quote ≠ 0x5B := by decide
  rw [value.eq_def]
  simp only [hws, if_neg hbrace, if_neg hbracket, if_true]

theorem value_decimal {n : Nat} {gap rest : JString} (h : ∀ c ∈ gap, isWs c = true) (i : Int)
    (hrest : EndsNumber rest) :
    value (n + 1) (gap ++ (decimal i ++ rest)) = some (.num i 0, rest) := by
  obtain ⟨c, ds, hds, hc⟩ : ∃ c ds, decimal i = c :: ds ∧ (isDigit c = true ∨ c = 0x2D) := by
    unfold decimal
    split
    · exact ⟨_, _, rfl, .inr rfl⟩
    · obtain ⟨c, ds, hds, hc⟩ := decimalNat_head i.natAbs
      exact ⟨c, ds, hds, .inl hc⟩
  have hother : ∀ d : UInt16, isDigit d = false → d ≠ 0x2D → c ≠ d := by
    rintro d hd hminus rfl
    rcases hc with hc | hc
    · exact absurd (hc.symm.trans hd) (by decide)
    · exact hminus hc
  have hnows : isWs c = false := by
    simp only [isWs, Bool.or_eq_false_iff, beq_eq_false_iff_ne]
    exact ⟨⟨⟨hother _ (by decide) (by decide), hother _ (by decide) (by decide)⟩,
      hother _ (by decide) (by decide)⟩, hother _ (by decide) (by decide)⟩
  have hws : skipWs (gap ++ (decimal i ++ rest)) = c :: (ds ++ rest) := by
    rw [skipWs_gap h, hds, List.cons_append, skipWs_cons hnows]
  have hnumber := number_decimal i hrest
  rw [hds, List.cons_append] at hnumber
  rw [value.eq_def]
  simp only [hws, if_neg (hother 0x7B (by decide) (by decide)),
    if_neg (hother 0x5B (by decide) (by decide)), if_neg (hother quote (by decide) (by decide)),
    if_neg (hother 0x74 (by decide) (by decide)), if_neg (hother 0x66 (by decide) (by decide)),
    if_neg (hother 0x6E (by decide) (by decide))]
  exact hnumber

/-- A field that is readable is read. -/
theorem member_field {n : Nat} {f : Field} {t after : JString} (h : Proper f.key f.gap)
    (hr : f.Readable) (hafter : EndsNumber after) (ht : skipWs t = f.text ++ after) :
    member (value (n + 1)) t = some (f.member, after) := by
  cases f with
  | str key gap v =>
    simp only [Field.text, List.append_assoc, List.cons_append, List.nil_append] at ht
    rw [member_start h ht]
    rw [value_quote h.2, stringTail_unescaped after hr]
    rfl
  | int key gap v =>
    simp only [Field.text, List.append_assoc] at ht
    rw [member_start h ht]
    rw [value_decimal h.2 v hafter]
    rfl

theorem endsNumber_comma (t : JString) : EndsNumber (comma :: t) := by
  intro c hc
  rw [← Option.some.inj hc]
  decide

theorem endsNumber_brace (t : JString) : EndsNumber (0x7D :: t) := by
  intro c hc
  rw [← Option.some.inj hc]
  decide

theorem joined_head (f : Field) (fs : List Field) :
    ∃ t, joined Field.text (f :: fs) = quote :: t := by
  have htext : ∃ t, f.text = quote :: t := by
    cases f <;> exact ⟨_, rfl⟩
  obtain ⟨t, ht⟩ := htext
  cases fs with
  | nil => exact ⟨t ++ [0x7D], by rw [joined, ht]; rfl⟩
  | cons g fs =>
    rw [joined_cons_cons, ht]
    exact ⟨_, rfl⟩

/-- Behind a comma and a space the next field is found. -/
theorem skipWs_joined (f : Field) (fs : List Field) (tail : JString) :
    skipWs (space :: (joined Field.text (f :: fs) ++ tail)) =
      joined Field.text (f :: fs) ++ tail := by
  obtain ⟨t, ht⟩ := joined_head f fs
  rw [ht, List.cons_append, skipWs, List.dropWhile_cons, if_pos (by decide)]
  exact skipWs_cons (by decide) _

/-- **Readable fields are read**, one after the other. -/
theorem sequence_joined {n : Nat} {tail : JString} : ∀ {fs : List Field} {m : Nat} {t : JString},
    fs ≠ [] → (∀ f ∈ fs, Proper f.key f.gap) → (∀ f ∈ fs, f.Readable) → fs.length ≤ m →
    skipWs t = joined Field.text fs ++ tail →
      sequence (member (value (n + 1))) 0x7D m t = some (fs.map Field.member, tail)
  | [], _, _, hne, _, _, _, _ => absurd rfl hne
  | [f], m, t, _, hp, hr, hm, ht => by
    obtain ⟨m', rfl⟩ : ∃ m', m = m' + 1 := ⟨m - 1, by simp at hm; omega⟩
    rw [joined, List.append_assoc] at ht
    have hmember := member_field (n := n) (hp f List.mem_cons_self) (hr f List.mem_cons_self)
      (endsNumber_brace tail) ht
    exact sequence_last hmember (skipWs_cons (by decide) tail)
  | f :: g :: fs, m, t, _, hp, hr, hm, ht => by
    obtain ⟨m', rfl⟩ : ∃ m', m = m' + 1 := ⟨m - 1, by simp at hm; omega⟩
    have ht' : skipWs t = f.text ++ comma :: space :: (joined Field.text (g :: fs) ++ tail) := by
      rw [ht, joined_cons_cons, List.append_assoc]
      rfl
    have hmember := member_field (n := n) (hp f List.mem_cons_self) (hr f List.mem_cons_self)
      (endsNumber_comma _) ht'
    have ih := @sequence_joined n tail (g :: fs) m' _ (List.cons_ne_nil g fs)
      (fun f' hf' => hp f' (List.mem_cons_of_mem f hf'))
      (fun f' hf' => hr f' (List.mem_cons_of_mem f hf')) (by simp at hm ⊢; omega)
      (skipWs_joined g fs tail)
    rw [sequence_more hmember (skipWs_cons (by decide) _) (by decide), ih]
    rfl

/-! ### Only plain strings are read back -/

/-- What is read as the value `v`, and was printed from `v`, is plain. -/
theorem plain_of_member {n : Nat} {key gap v t after rest : JString} {m : Text × Value}
    (hp : Proper key gap) (ht : skipWs t = (Field.str key gap (scrub v)).text ++ after)
    (h : member (value (n + 1)) t = some (m, rest)) (hv : m.1 = key → m.2 = .str v)
    (hafter : ∀ s r, stringTail after = some (s, r) → s.getLast? = some space) : Plain v := by
  simp only [Field.text, List.append_assoc, List.cons_append, List.nil_append] at ht
  rw [member_start (f := .str key gap (scrub v)) hp ht, Field.gap, Field.key, value_quote hp.2,
    Option.map_map] at h
  obtain ⟨⟨s, rest'⟩, hs, heq⟩ := Option.map_eq_some_iff.mp h
  obtain ⟨rfl, rfl⟩ := Prod.mk.inj heq
  obtain rfl : s = v := Value.str.inj (hv rfl)
  generalize hw : scrub s = w at hs
  have hout := stringTail_outcome hs
  cases hout with
  | whole hall => exact ⟨hall, hw⟩
  | short hlt =>
    rw [← hw, length_scrub] at hlt
    exact absurd hlt (Nat.lt_irrefl _)
  | @beyond s0 s' _ hlast hrest =>
    -- the string that was read ends with a space, the one that was printed with a backslash
    obtain ⟨s1, rfl⟩ : ∃ s1, s' = s1 ++ [space] :=
      List.getLast?_eq_some_iff.mp (hafter s' _ hrest)
    have hprinted : scrub (s0 ++ quote :: s1 ++ space :: []) =
        scrub (s0 ++ quote :: s1) ++ [space] :=
      scrub_append_cons (by decide) [] _
    rw [List.append_assoc, List.cons_append, hw] at hprinted
    rw [hprinted, List.getLast?_concat] at hlast
    exact absurd (Option.some.inj hlast) (by decide)

/-- A plain field is read from the file. -/
theorem member_field_scrub {n : Nat} {f : Field} {t after : JString} (h : Proper f.key f.gap)
    (hplain : ∀ key gap v, f = .str key gap v → Plain v) (hafter : EndsNumber after)
    (ht : skipWs t = f.scrub.text ++ after) :
    member (value (n + 1)) t = some (f.member, after) := by
  have hscrub : f.scrub = f := by
    cases f with
    | str key gap v => rw [Field.scrub, (hplain key gap v rfl).2]
    | int key gap v => rfl
  have hr : f.Readable := by
    cases f with
    | str key gap v => exact (hplain key gap v rfl).1
    | int key gap v => trivial
  rw [hscrub] at ht
  exact member_field h hr hafter ht

/-- **Fields that are read back as they were are plain.** -/
theorem plain_of_sequence {n : Nat} : ∀ {fs : List Field} {m : Nat} {t rest : JString}
    {members : List (Text × Value)}, (∀ f ∈ fs, Proper f.key f.gap) →
    skipWs t = joined Field.text (fs.map Field.scrub) ++ [0x0A] →
    sequence (member (value (n + 1))) 0x7D m t = some (members, rest) →
    (∀ key gap v, Field.str key gap v ∈ fs → ∀ m ∈ members, m.1 = key → m.2 = .str v) →
      ∀ key gap v, Field.str key gap v ∈ fs → Plain v
  | [], _, _, _, _, _, _, _, _ => fun _ _ _ hmem => absurd hmem List.not_mem_nil
  | [f], m, t, rest, members, hp, ht, hseq, hread => by
    -- a last field that did not end at its quote would not end at all
    intro key gap v hmem
    obtain rfl := List.mem_singleton.mp hmem
    obtain ⟨m', a, t', c, t'', rfl, hitem, -, hc⟩ := sequence_cases hseq
    have ha : a ∈ members := by
      rcases hc with ⟨-, rfl, -⟩ | ⟨-, -, as', rfl, -⟩ <;> exact List.mem_cons_self
    rw [List.map_cons, List.map_nil, joined, List.append_assoc] at ht
    refine plain_of_member (hp _ hmem) ht hitem (hread key gap v hmem a ha) fun s r hs => ?_
    have hnone : stringTail [0x7D, 0x0A] = none := by decide
    exact absurd (hnone.symm.trans hs) (by simp)
  | f :: g :: fs, m, t, rest, members, hp, ht, hseq, hread => by
    obtain ⟨m', a, t', c, t'', rfl, hitem, hws, hc⟩ := sequence_cases hseq
    have ha : a ∈ members := by
      rcases hc with ⟨-, rfl, -⟩ | ⟨-, -, as', rfl, -⟩ <;> exact List.mem_cons_self
    rw [List.map_cons, List.map_cons, joined_cons_cons, List.append_assoc] at ht
    -- the first field
    have hplain : ∀ key gap v, f = .str key gap v → Plain v := by
      rintro key gap v rfl
      refine plain_of_member (hp _ List.mem_cons_self) ht hitem
        (hread key gap v List.mem_cons_self a ha) fun s r hs => ?_
      obtain ⟨u, hu⟩ := joined_head g.scrub (fs.map Field.scrub)
      have hplain : ∀ c ∈ [comma, space], Unescaped c := by
        intro c hc
        rcases List.mem_pair.mp hc with rfl | rfl <;> decide
      have hsep : stringTail ([comma, space] ++ quote :: (u ++ [0x0A])) =
          some ([comma, space], u ++ [0x0A]) := stringTail_unescaped _ hplain
      rw [hu] at hs
      obtain ⟨rfl, -⟩ := Prod.mk.inj (Option.some.inj (hsep.symm.trans hs))
      rfl
    -- the others, which are found behind the comma
    have hfirst := member_field_scrub (n := n) (hp f List.mem_cons_self) hplain
      (endsNumber_comma _) ht
    rw [hitem, Option.some.injEq, Prod.mk.injEq] at hfirst
    rw [hfirst.2, skipWs_cons (by decide)] at hws
    obtain ⟨rfl, rfl⟩ := List.cons.inj hws
    rcases hc with ⟨hclose, -, -⟩ | ⟨-, -, as', rfl, hrest⟩
    · exact absurd hclose (by decide)
    · have hothers := @plain_of_sequence n (g :: fs) m' _ rest as'
        (fun f' hf' => hp f' (List.mem_cons_of_mem f hf')) (skipWs_joined _ _ _) hrest
        fun key gap v hmem m hm => hread key gap v (List.mem_cons_of_mem f hmem) m
          (List.mem_cons_of_mem a hm)
      intro key gap v hmem
      rcases List.mem_cons.mp hmem with heq | hmem
      · exact hplain key gap v heq.symm
      · exact hothers key gap v hmem

/-! ### The files -/

section Files

variable (config : Config) (localPort : Int)

theorem printToFile_fields :
    printToFile (0x7B :: joined Field.text (fields config localPort)) =
      0x7B :: (joined Field.text ((fields config localPort).map Field.scrub) ++ [0x0A]) := by
  rw [printToFile, List.cons_append, scrub_cons (by decide),
    scrub_joined (proper_fields config localPort)]

theorem skipWs_fields : skipWs (joined Field.text ((fields config localPort).map Field.scrub) ++
    [0x0A]) = joined Field.text ((fields config localPort).map Field.scrub) ++ [0x0A] :=
  skipWs_cons (by decide) _

theorem value_brace (n : Nat) (t : JString) :
    value (n + 1) (0x7B :: t) =
      (enclosed (member (value n)) 0x7D n t).map fun (ms, rest) => (.obj ms, rest) := by
  rw [value.eq_def]
  simp only [skipWs_cons (show isWs 0x7B = false by decide), if_true]

/-- What a file that parses holds is read as a sequence of members. -/
theorem sequence_of_parse {members : List (Text × Value)}
    (h : parse (printToFile (0x7B :: joined Field.text (fields config localPort))) =
      some (.obj members)) :
    ∃ n m rest, sequence (member (value (n + 1))) 0x7D m
      (joined Field.text ((fields config localPort).map Field.scrub) ++ [0x0A]) =
        some (members, rest) := by
  rw [printToFile_fields, parse_eq_some] at h
  obtain ⟨n, rest, hv, -⟩ := h
  cases n with
  | zero => exact absurd hv (by simp [value])
  | succ n =>
    rw [value_brace] at hv
    obtain ⟨⟨ms, rest'⟩, henc, heq⟩ := Option.map_eq_some_iff.mp hv
    obtain ⟨hms, rfl⟩ := Prod.mk.inj heq
    obtain rfl : ms = members := Value.obj.inj hms
    obtain ⟨c, t', hws, ⟨rfl, -, -⟩ | ⟨-, hseq⟩⟩ := enclosed_cases henc
    · rw [skipWs_fields] at hws
      exact absurd (List.cons.inj hws).1 (by decide)
    · obtain ⟨m, _, _, _, _, rfl, -⟩ := sequence_cases hseq
      exact ⟨m, m + 1, rest', hseq⟩

/-- A file of readable fields parses. -/
theorem parse_fields (hscrub : (fields config localPort).map Field.scrub = fields config localPort)
    (hr : ∀ f ∈ fields config localPort, f.Readable) :
    parse (printToFile (0x7B :: joined Field.text (fields config localPort))) =
      some (.obj ((fields config localPort).map Field.member)) := by
  have hws := skipWs_fields config localPort
  rw [printToFile_fields, parse_eq_some]
  rw [hscrub] at hws ⊢
  have hseq := sequence_joined (n := 5) (m := 6) (List.cons_ne_nil _ _)
    (proper_fields config localPort) hr (Nat.le_refl 6) hws
  refine ⟨7, [0x0A], ?_, by decide⟩
  rw [value_brace, enclosed, hws]
  show Option.map _ (if quote = 0x7D then _ else _) = _
  rw [if_neg (by decide), hseq]
  rfl

/-- **The strings of the configuration are plain.** -/
def PlainConfig : Prop := Plain config.proxy ∧ Plain config.sitekey ∧ Plain config.encMethod

theorem delivered_fields_iff :
    Delivered config (some (0x7B :: joined Field.text (fields config localPort))) ↔
      PlainConfig config := by
  constructor
  · rintro ⟨text, members, htext, hparse, -, hserver, -, hpassword, hmethod⟩
    rw [← Option.some.inj htext] at hparse
    obtain ⟨n, m, rest, hseq⟩ := sequence_of_parse config localPort hparse
    have hplain := plain_of_sequence (proper_fields config localPort)
      (skipWs_fields config localPort) hseq (by
        intro key gap v hmem
        simp only [fields, List.mem_cons, Field.str.injEq, reduceCtorEq, List.not_mem_nil,
          false_or, or_false] at hmem
        rcases hmem with ⟨rfl, -, rfl⟩ | ⟨rfl, -, rfl⟩ | ⟨rfl, -, rfl⟩
        · exact hserver.2
        · exact hpassword.2
        · exact hmethod.2)
    exact ⟨hplain (lit "server") [space] config.proxy (by simp [fields]),
      hplain (lit "password") [space] config.sitekey (by simp [fields]),
      hplain (lit "method") [] config.encMethod (by simp [fields])⟩
  · rintro ⟨hproxy, hsitekey, hmethod⟩
    have hscrub : (fields config localPort).map Field.scrub = fields config localPort := by
      simp only [fields, List.map_cons, List.map_nil, Field.scrub, hproxy.2, hsitekey.2, hmethod.2]
    have hr : ∀ f ∈ fields config localPort, f.Readable := by
      simp only [fields, List.forall_mem_cons, Field.Readable]
      exact ⟨hproxy.1, trivial, trivial, hsitekey.1, hmethod.1, trivial, by simp⟩
    -- the six keys differ, so that each is read back with the one value it was printed with
    have hkeys : ((fields config localPort).map Field.member).map Prod.fst = keys := rfl
    have hnodup : keys.Nodup := by
      rw [keys]
      repeat rw [lit_ofList]
      decide
    have hholds : ∀ m ∈ (fields config localPort).map Field.member,
        Holds ((fields config localPort).map Field.member) m.1 m.2 := by
      intro m hm
      refine ⟨⟨m, hm, rfl⟩, fun m' hm' hkey => ?_⟩
      rw [List.inj_on_of_nodup_map (hkeys ▸ hnodup) hm' hm hkey]
    refine ⟨_, _, rfl, parse_fields config localPort hscrub hr, ?_, ?_, ?_, ?_, ?_⟩
    · intro m hm
      rw [← hkeys]
      exact List.mem_map_of_mem hm
    · exact hholds (lit "server", .str config.proxy) (by simp [fields, Field.member])
    · exact hholds (lit "server_port", .num config.remotePort 0) (by simp [fields, Field.member])
    · exact hholds (lit "password", .str config.sitekey) (by simp [fields, Field.member])
    · exact hholds (lit "method", .str config.encMethod) (by simp [fields, Field.member])

end Files

/-- **The daemons get the configuration exactly if its strings are plain.** -/
theorem delivered_iff (config : Config) :
    (Delivered config (ssLocalConf config) ↔ PlainConfig config) ∧
      (Delivered config (ssTunnelConf config) ↔ PlainConfig config) := by
  have hlocal : ssLocalConf config =
      some (0x7B :: joined Field.text (fields config config.localPort)) :=
    formatLocal_shadowsocks config config.localPort
  have htunnel : ssTunnelConf config = some (0x7B :: joined Field.text (fields config 8163)) :=
    formatLocal_shadowsocks config 8163
  rw [hlocal, htunnel]
  exact ⟨delivered_fields_iff config config.localPort, delivered_fields_iff config 8163⟩

/-! ### A password with a server in it -/

/-- The password is `x", "server": "198.51.100.9`. -/
def injection : Config :=
  ⟨false, lit "203.0.113.7", lit "x\", \"server\": \"198.51.100.9", lit "aes-256-cfb", .all,
    8388, 1080⟩

/-- There is a member `server` with the string. -/
def namesServer (s : JString) : Value → Bool
  | .obj members => members.any fun m =>
      m.1 == lit "server" && match m.2 with | .str s' => s' == s | _ => false
  | _ => false

theorem exists_of_namesServer {s : JString} {v : Value} (h : namesServer s v = true) :
    ∃ members, v = .obj members ∧ (lit "server", .str s) ∈ members := by
  cases v with
  | obj members =>
    obtain ⟨⟨key, val⟩, hm, hs⟩ := List.any_eq_true.mp h
    rw [Bool.and_eq_true, beq_iff_eq] at hs
    obtain ⟨rfl, hval⟩ := hs
    cases val with
    | str s' =>
      obtain rfl := beq_iff_eq.mp hval
      exact ⟨members, rfl, hm⟩
    | _ => exact absurd hval (by simp)
  | _ => exact absurd h (by simp [namesServer])

/-- **The file names a server that is not the one configured.** -/
theorem server_injected :
    (∃ text members, ssLocalConf injection = some text ∧
      parse (printToFile text) = some (.obj members) ∧
      (lit "server", .str (lit "198.51.100.9")) ∈ members) ∧
    ¬ Delivered injection (ssLocalConf injection) := by
  have hrun : (ssLocalConf injection).any (fun text =>
      (parse (printToFile text)).any (namesServer (lit "198.51.100.9"))) = true := by
    rw [ssLocalConf, shadowsocks, injection]
    repeat rw [lit_ofList]
    decide +kernel
  obtain ⟨text, htext, hfile⟩ := (Option.any_eq_true _ _).mp hrun
  obtain ⟨v, hparse, hv⟩ := (Option.any_eq_true _ _).mp hfile
  obtain ⟨members, rfl, hmem⟩ := exists_of_namesServer hv
  refine ⟨⟨text, members, htext, hparse, hmem⟩, ?_⟩
  rintro ⟨text', members', htext', hparse', -, hserver, -⟩
  obtain rfl := Option.some.inj (htext.symm.trans htext')
  obtain rfl := Value.obj.inj (Option.some.inj (hparse.symm.trans hparse'))
  have heq := Value.str.inj (hserver.2 _ hmem rfl)
  have hne : lit "198.51.100.9" ≠ injection.proxy := by
    rw [injection]
    repeat rw [lit_ofList]
    decide
  exact hne heq

end DaemonConfig
