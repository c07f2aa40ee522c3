/-
A profile, and the `ss://` link that `Parser` makes of it.

The link holds `method:password@host:port` in Base64.  The reader takes the method up to the
first colon, the port from the last one on, and the host between the last at sign and the last
colon, so that a password may hold both.

* `Cut`, `Cut.substrings`, `cut_of_substrings` — where the reader cuts;
* `parseContentOf_eq_some_iff`, `parse_eq_some_iff_cut` — the links that are accepted;
* `parse_generate` — a profile is read back from its link.
-/
import ReShadowsocks.DaemonConfig
import ReShadowsocks.JavaString
import ReShadowsocks.Rfc4648
import ReShadowsocks.Utf8

/-- A row of the table of profiles, with the values of a new one. -/
structure Profile where
  id : Int := 0
  name : JString := lit "Untitled"
  host : JString := []
  localPort : Int32 := 1080
  remotePort : Int32 := 8338
  password : JString := []
  method : JString := lit "rc4"
  date : JString := []
  route : JString := lit "all"
  upload : Int := 0
  download : Int := 0
  chnroute : Bool := true
  global : Bool := true
  bypass : Bool := false
  traffic : Bool := false
  udpdns : Bool := false
  individual : JString := []
  description : JString := []
  deriving DecidableEq

namespace Parser

open Json (colon decimal)
open DaemonConfig (formatLocal)
open JavaString

def atSign : UInt16 := 0x40

def generate (profile : Profile) : Option JString :=
  (formatLocal (lit "%s:%s@%s:%d") [.str profile.method, .str profile.password, .str profile.host,
    .int profile.remotePort.toInt]).map fun path =>
      lit "ss://" ++ Rfc4648.encodeToString (Utf8.encode path)

/-- `Uri.getScheme`: the text before the first colon. -/
def getScheme (uri : JString) : Option JString := (uri.idxOf? colon).map fun i => uri.take i

/-- The part of `parse` from the decoded content on.  The lower case of a string depends on the
locale. -/
def parseContentOf (toInt : JString → Option Int32) (toLowerCase : JString → JString)
    (content : JString) : Option Profile := do
  let methodIdx := indexOf colon content
  let passwordIdx := lastIndexOf atSign content
  let hostIdx := lastIndexOf colon content
  let method ← substring content 0 methodIdx
  let password ← substring content (methodIdx + 1) passwordIdx
  let host ← substring content (passwordIdx + 1) hostIdx
  let port ← substring content (hostIdx + 1) content.length
  let remotePort ← toInt port
  return { name := host, host, remotePort, localPort := 1080, method := toLowerCase method,
           password }

/-- An exception is caught and gives `None`. -/
def parseOf (toInt : JString → Option Int32) (toLowerCase : JString → JString) (data : JString) :
    Option Profile :=
  if getScheme (trim data) = some (lit "ss") then do
    let bytes ← Rfc4648.decode (replace (lit "ss://") [] data)
    parseContentOf toInt toLowerCase (Utf8.decode bytes)
  else none

/-- `parse`, for ports in ASCII digits. -/
def parse : (JString → JString) → JString → Option Profile := parseOf parseInt

/-! ### The content -/

/-- The text in the link. -/
def joined (method password host port : JString) : JString :=
  method ++ colon :: (password ++ atSign :: (host ++ colon :: port))

theorem formatLocal_link (method password host : JString) (port : Int) :
    formatLocal (lit "%s:%s@%s:%d") [.str method, .str password, .str host, .int port] =
      some (joined method password host (decimal port)) := by
  have htemplate : lit "%s:%s@%s:%d" =
      [0x25, 0x73, colon, 0x25, 0x73, atSign, 0x25, 0x73, colon, 0x25, 0x64] := by
    rw [lit_ofList]
    decide
  rw [htemplate]
  simp [formatLocal, joined, colon, atSign]

/-- `content` is `method:password@host:port`, and the separators are those that the reader
finds. -/
structure Cut (content method password host port : JString) : Prop where
  eq : content = joined method password host port
  method : colon ∉ method
  host : atSign ∉ host
  colon : colon ∉ port
  atSign : atSign ∉ port

/-- **Where the reader cuts.** -/
theorem Cut.substrings {content method password host port : JString}
    (h : Cut content method password host port) :
    substring content 0 (indexOf Json.colon content) = some method ∧
      substring content (indexOf Json.colon content + 1) (lastIndexOf Parser.atSign content) =
        some password ∧
      substring content (lastIndexOf Parser.atSign content + 1)
        (lastIndexOf Json.colon content) = some host ∧
      substring content (lastIndexOf Json.colon content + 1) content.length = some port := by
  have hne : Parser.atSign ≠ Json.colon := by decide
  -- the text up to the at sign, and up to the last colon
  set front := method ++ Json.colon :: password with hfront
  set middle := front ++ Parser.atSign :: host with hmiddle
  have hat : content = front ++ Parser.atSign :: (host ++ Json.colon :: port) := by
    simp [h.eq, joined, hfront]
  have hlast : content = middle ++ Json.colon :: port := by
    simp [h.eq, joined, hfront, hmiddle]
  have hmethodIdx : indexOf Json.colon content = method.length := by
    rw [h.eq]
    exact indexOf_append h.method
  -- neither the host nor the port has an at sign, so the last one stands before the host
  have hpasswordIdx : lastIndexOf Parser.atSign content = front.length := by
    rw [hat]
    refine lastIndexOf_append ?_
    rw [List.mem_append, List.mem_cons]
    rintro (hmem | hmem | hmem)
    · exact h.host hmem
    · exact hne hmem
    · exact h.atSign hmem
  have hhostIdx : lastIndexOf Json.colon content = middle.length := by
    rw [hlast]
    exact lastIndexOf_append h.colon
  rw [hmethodIdx, hpasswordIdx, hhostIdx]
  refine ⟨?_, ?_, ?_, ?_⟩
  · exact substring_append [] method (Json.colon :: (password ++ Parser.atSign ::
      (host ++ Json.colon :: port))) h.eq rfl (by simp)
  · exact substring_append (method ++ [Json.colon]) password
      (Parser.atSign :: (host ++ Json.colon :: port)) (by simp [h.eq, joined]) (by simp)
      (by simp [hfront]; omega)
  · exact substring_append (front ++ [Parser.atSign]) host (Json.colon :: port) (by simp [hat])
      (by simp) (by simp [hmiddle]; omega)
  · exact substring_append (middle ++ [Json.colon]) port [] (by simp [hlast]) (by simp)
      (by simp [hlast]; omega)

/-- There is one way to cut a text, if there is any. -/
theorem Cut.unique {content method password host port method' password' host' port' : JString}
    (h : Cut content method password host port)
    (h' : Cut content method' password' host' port') :
    method = method' ∧ password = password' ∧ host = host' ∧ port = port' := by
  obtain ⟨h1, h2, h3, h4⟩ := h.substrings
  obtain ⟨h1', h2', h3', h4'⟩ := h'.substrings
  exact ⟨Option.some.inj (h1.symm.trans h1'), Option.some.inj (h2.symm.trans h2'),
    Option.some.inj (h3.symm.trans h3'), Option.some.inj (h4.symm.trans h4')⟩

/-- The four parts can only be taken if the first colon, the last at sign and the last colon
stand in this order. -/
theorem cut_of_substrings {content method password host port : JString}
    (hmethod : substring content 0 (indexOf colon content) = some method)
    (hpassword : substring content (indexOf colon content + 1) (lastIndexOf atSign content) =
      some password)
    (hhost : substring content (lastIndexOf atSign content + 1) (lastIndexOf colon content) =
      some host)
    (hport : substring content (lastIndexOf colon content + 1) content.length = some port) :
    Cut content method password host port := by
  have h1 := (le_of_substring hmethod).2.1
  have h2 := (le_of_substring hpassword).2.1
  have h3 := (le_of_substring hhost).2.1
  obtain ⟨m, rest, hm, hcm⟩ := exists_indexOf h1
  obtain ⟨front, back, hf, hback⟩ : ∃ a b, content = a ++ atSign :: b ∧ atSign ∉ b :=
    exists_lastIndexOf (by omega)
  obtain ⟨middle, q, hq, hcq⟩ : ∃ a b, content = a ++ colon :: b ∧ colon ∉ b :=
    exists_lastIndexOf (by omega)
  have hmIdx : indexOf colon content = m.length := by
    rw [hm]
    exact indexOf_append hcm
  have hfIdx : lastIndexOf atSign content = front.length := by
    rw [hf]
    exact lastIndexOf_append hback
  have hqIdx : lastIndexOf colon content = middle.length := by
    rw [hq]
    exact lastIndexOf_append hcq
  obtain ⟨w, hw, -⟩ := exists_between (hm.symm.trans hf) (by omega)
  obtain ⟨h, hh, hbq⟩ := exists_between (hf.symm.trans hq) (by omega)
  rw [hbq, List.mem_append, List.mem_cons, not_or, not_or] at hback
  have hcut : Cut content m w h q :=
    ⟨by rw [hq, hh, hw]; simp [joined], hcm, hback.1, hcq, hback.2.2⟩
  obtain ⟨hm', hw', hh', hq'⟩ := hcut.substrings
  rw [hm'] at hmethod
  rw [hw'] at hpassword
  rw [hh'] at hhost
  rw [hq'] at hport
  obtain ⟨rfl, rfl, rfl, rfl⟩ : m = method ∧ w = password ∧ h = host ∧ q = port :=
    ⟨Option.some.inj hmethod, Option.some.inj hpassword, Option.some.inj hhost,
      Option.some.inj hport⟩
  exact hcut

/-- The profile that the reader makes of the parts. -/
def ofParts (toLowerCase : JString → JString) (method password host : JString)
    (remotePort : Int32) : Profile :=
  { name := host, host, remotePort, localPort := 1080, method := toLowerCase method, password }

variable {toInt : JString → Option Int32} {toLowerCase : JString → JString}

theorem parseContentOf_of_cut {content method password host port : JString}
    (h : Cut content method password host port) :
    parseContentOf toInt toLowerCase content =
      (toInt port).map (ofParts toLowerCase method password host) := by
  obtain ⟨hmethod, hpassword, hhost, hport⟩ := h.substrings
  simp only [parseContentOf, hmethod, hpassword, hhost, hport, Option.bind_eq_bind,
    Option.bind_some]
  cases toInt port with
  | none => rfl
  | some remotePort => rfl

/-- **The contents that are accepted.** -/
theorem parseContentOf_eq_some_iff {content : JString} {p : Profile} :
    parseContentOf toInt toLowerCase content = some p ↔
      ∃ method password host port remotePort, Cut content method password host port ∧
        toInt port = some remotePort ∧ p = ofParts toLowerCase method password host remotePort := by
  constructor
  · intro h
    simp only [parseContentOf, Option.bind_eq_bind, Option.bind_eq_some_iff] at h
    obtain ⟨method, hmethod, password, hpassword, host, hhost, port, hport, remotePort, hint,
      hp⟩ := h
    exact ⟨method, password, host, port, remotePort,
      cut_of_substrings hmethod hpassword hhost hport, hint, (Option.some.inj hp).symm⟩
  · rintro ⟨method, password, host, port, remotePort, hcut, hint, rfl⟩
    rw [parseContentOf_of_cut hcut, hint]
    rfl

/-! ### The link -/

theorem getScheme_link (t : JString) : getScheme (trim (lit "ss://" ++ t)) = some (lit "ss") := by
  have hlink : lit "ss://" = [0x73, 0x73] ++ colon :: [0x2F, 0x2F] := by
    rw [lit_ofList]
    decide
  have hss : lit "ss" = [0x73, 0x73] := by
    rw [lit_ofList]
    decide
  have hdrop : (lit "ss://" ++ t).dropWhile (· ≤ 0x20) =
      [0x73, 0x73] ++ colon :: ([0x2F, 0x2F] ++ t) := by
    rw [hlink]
    rfl
  -- trimming stops at the colon at the latest
  obtain ⟨rest, hrest⟩ := @rdropWhile_append_cons _ (· ≤ 0x20) colon (by decide) [0x73, 0x73]
    ([0x2F, 0x2F] ++ t)
  have hplace : ([0x73, 0x73] ++ colon :: rest).idxOf? colon = some 2 :=
    idxOf?_append (by decide)
  rw [trim, hdrop, hrest, getScheme, hplace, hss]
  rfl

theorem replace_link {t : JString} (ht : colon ∉ t) :
    replace (lit "ss://") [] (lit "ss://" ++ t) = t := by
  have hmem : colon ∈ lit "ss://" := by
    rw [lit_ofList]
    decide
  have hne : lit "ss://" ≠ [] := List.ne_nil_of_mem hmem
  have hcut := @pieces_append _ _ _ [] t hne trivial
  rw [List.nil_append, pieces_eq_singleton (hidden_of_not_mem hmem ht)] at hcut
  rw [replace, hcut, List.intercalate_cons_cons, List.intercalate_singleton]
  rfl

/-- **The links that are accepted.**  The content is cut in one way at most; the profile has its
parts, and a content that cannot be cut, or whose port is not a decimal `int`, gives `None`. -/
theorem parse_eq_some_iff_cut (digits : Digits) {data : JString} {bytes : List UInt8}
    (hscheme : getScheme (trim data) = some (lit "ss"))
    (hbytes : Rfc4648.decode (replace (lit "ss://") [] data) = some bytes) :
    (∀ p, parseOf (parseIntOf digits) toLowerCase data = some p ↔
      ∃ method password host port remotePort,
        Cut (Utf8.decode bytes) method password host port ∧ DecimalInt digits port remotePort ∧
          p = { name := host, host, remotePort, localPort := 1080,
                method := toLowerCase method, password }) ∧
    (∀ method password host port method' password' host' port',
      Cut (Utf8.decode bytes) method password host port →
      Cut (Utf8.decode bytes) method' password' host' port' →
        method = method' ∧ password = password' ∧ host = host' ∧ port = port') ∧
    ((∀ method password host port remotePort, Cut (Utf8.decode bytes) method password host port →
      ¬ DecimalInt digits port remotePort) →
        parseOf (parseIntOf digits) toLowerCase data = none) := by
  have hparse : parseOf (parseIntOf digits) toLowerCase data =
      parseContentOf (parseIntOf digits) toLowerCase (Utf8.decode bytes) := by
    rw [parseOf, if_pos hscheme, hbytes]
    rfl
  have hiff := @parseContentOf_eq_some_iff (parseIntOf digits) toLowerCase (Utf8.decode bytes)
  simp only [parseIntOf_eq_some_iff] at hiff
  rw [hparse]
  refine ⟨fun p => hiff, fun _ _ _ _ _ _ _ _ h h' => h.unique h', fun hno => ?_⟩
  rw [Option.eq_none_iff_forall_ne_some]
  intro p hp
  obtain ⟨method, password, host, port, remotePort, hcut, hint, -⟩ := hiff.mp hp
  exact hno method password host port remotePort hcut hint

/-- The link of `rc4:p@h:1`. -/
theorem parse_eq_some_iff_cut_link :
    parseOf (parseIntOf .ofAscii) id (lit "ss://cmM0OnBAaDox") =
      some { name := lit "h", host := lit "h", remotePort := 1, method := lit "rc4",
             password := lit "p" } := by
  have hscheme : getScheme (trim (lit "ss://cmM0OnBAaDox")) = some (lit "ss") := by
    decide +kernel
  have hbytes : Rfc4648.decode (replace (lit "ss://") [] (lit "ss://cmM0OnBAaDox")) =
      some [0x72, 0x63, 0x34, 0x3A, 0x70, 0x40, 0x68, 0x3A, 0x31] := by
    decide +kernel
  refine ((parse_eq_some_iff_cut .ofAscii hscheme hbytes).1 _).mpr
    ⟨lit "rc4", lit "p", lit "h", lit "1", 1, ?_, ?_, rfl⟩
  · constructor <;> decide +kernel
  · exact parseIntOf_eq_some_iff.mp (by decide +kernel)

theorem wellFormed_joined {method password host port : JString} (hmethod : Utf8.WellFormed method)
    (hpassword : Utf8.WellFormed password) (hhost : Utf8.WellFormed host)
    (hport : Utf8.WellFormed port) : Utf8.WellFormed (joined method password host port) := by
  have hcolon : Utf8.WellFormed [colon] :=
    Utf8.wellFormed_ascii (List.forall_mem_singleton.mpr (by decide))
  have hat : Utf8.WellFormed [atSign] :=
    Utf8.wellFormed_ascii (List.forall_mem_singleton.mpr (by decide))
  have h := hmethod.append (hcolon.append (hpassword.append (hat.append (hhost.append
    (hcolon.append hport)))))
  simpa [joined] using h

/-- **A profile is read back from its link.** -/
theorem parse_generate (toLowerCase : JString → JString) (profile : Profile)
    (hmethod : colon ∉ profile.method) (hlower : toLowerCase profile.method = profile.method)
    (hhost : atSign ∉ profile.host) (hmethodWf : Utf8.WellFormed profile.method)
    (hpasswordWf : Utf8.WellFormed profile.password) (hhostWf : Utf8.WellFormed profile.host) :
    ∃ link, generate profile = some link ∧ ∃ profile', parse toLowerCase link = some profile' ∧
      profile'.method = profile.method ∧ profile'.password = profile.password ∧
      profile'.host = profile.host ∧ profile'.remotePort = profile.remotePort := by
  set path := joined profile.method profile.password profile.host
    (decimal profile.remotePort.toInt) with hpath
  have hpathWf : Utf8.WellFormed path :=
    wellFormed_joined hmethodWf hpasswordWf hhostWf
      (Utf8.wellFormed_ascii (DaemonConfig.decimal_ascii _))
  have hcut : Cut path profile.method profile.password profile.host
      (decimal profile.remotePort.toInt) :=
    ⟨hpath, hmethod, hhost, Json.not_mem_decimal (by decide) (by decide) _,
      Json.not_mem_decimal (by decide) (by decide) _⟩
  have hencoded : colon ∉ Rfc4648.encodeToString (Utf8.encode path) :=
    Rfc4648.not_mem_encodeToString _ (by decide) (by decide)
  refine ⟨lit "ss://" ++ Rfc4648.encodeToString (Utf8.encode path), ?_,
    { name := profile.host, host := profile.host, remotePort := profile.remotePort,
      localPort := 1080, method := profile.method, password := profile.password },
    ?_, rfl, rfl, rfl, rfl⟩
  · rw [generate, formatLocal_link]
    rfl
  · rw [parse, parseOf, if_pos (getScheme_link _), replace_link hencoded]
    simp only [Rfc4648.decode_encodeToString, Option.bind_eq_bind, Option.bind_some,
      Utf8.decode_encode hpathWf]
    rw [parseContentOf_of_cut hcut, parseInt_decimal, Option.map_some, ofParts, hlower]

/-- A password with both separators, and a host that is an IPv6 address. -/
def tricky : Profile :=
  { host := lit "fe80::1", remotePort := -7, password := lit "a:b@c:1", method := lit "rc4-md5" }

theorem parse_generate_tricky :
    ∃ link, generate tricky = some link ∧ ∃ profile', parse id link = some profile' ∧
      profile'.method = tricky.method ∧ profile'.password = tricky.password ∧
      profile'.host = tricky.host ∧ profile'.remotePort = tricky.remotePort :=
  parse_generate id tricky (by decide +kernel) rfl (by decide +kernel) (by decide +kernel)
    (by decide +kernel) (by decide +kernel)

end Parser
