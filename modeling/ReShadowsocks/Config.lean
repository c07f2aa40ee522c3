/-
The connection configuration handed to the services.

`Config` has the fields of the parcelable `Config` that the modelled code
reads.  Strings are Java strings, so they may hold any UTF-16 code units,
unpaired surrogates included.
-/
import Mathlib.Data.List.Basic

/-- A Java string, as its UTF-16 code units. -/
abbrev JString := List UInt16

/-- The UTF-16 code units of one character. -/
def utf16 (c : Char) : JString :=
  if c.toNat < 0x10000 then [c.toNat.toUInt16]
  else [(0xD800 + (c.toNat - 0x10000) / 0x400).toUInt16,
    (0xDC00 + (c.toNat - 0x10000) % 0x400).toUInt16]

/-- A string literal of the source. -/
def lit (s : String) : JString := s.toList.flatMap utf16

/-- A literal by its characters: rewriting with this first saves the decoding of the string
where a closed fact about literals is evaluated. -/
theorem lit_ofList (cs : List Char) : lit (String.ofList cs) = cs.flatMap utf16 := by
  rw [lit, String.toList_ofList]

/-- The route modes of `Constants.scala`. -/
inductive Route
  | all
  | bypassLan
  | bypassChn
  deriving DecidableEq, Repr

structure Config where
  isUdpDns : Bool
  proxy : JString
  sitekey : JString
  encMethod : JString
  route : Route
  remotePort : Int
  localPort : Int
  deriving DecidableEq, Repr

/-- A server of the list that `getPublicConfig` downloads. -/
structure PublicServer where
  host : JString
  port : Int
  password : JString
  method : JString
  deriving DecidableEq, Repr

/-- `ConfigUtils.getPublicConfig`, once the list is downloaded and split. -/
def Config.getPublicConfig (config : Config) (server : PublicServer) : Config :=
  { config with
    proxy := server.host
    sitekey := server.password
    encMethod := server.method
    remotePort := server.port }
