/-
The identifier of the device, `getDeviceUUID` of `Tools`.

The app takes the first of three identifiers that the device has, and sends the Base64 text of
its bytes, escaped.

* `readable_of_mem_encode` — escaping a Base64 text loses nothing;
* `device_uuid_faithful` — the value is safe in a URL, and the bytes can be taken back from it.
-/
import ReShadowsocks.Base64
import ReShadowsocks.Escape

namespace DeviceId

open Escape

/-- What a device reports; `none` is `null`. -/
structure Device where
  /-- `tm.getDeviceId()`. -/
  deviceId : Option JString
  /-- `info.getMacAddress()`. -/
  macAddress : Option JString
  /-- `getCombinedDeviceId(context)`. -/
  combinedDeviceId : Option JString

/-- The identifier that is used: the first that there is. -/
def Device.chosenId (device : Device) : Option JString :=
  match device.deviceId with
  | some id => some id
  | none =>
    match device.macAddress with
    | some id => some id
    | none => device.combinedDeviceId

/-- `none` is the exception for a device without identifiers. -/
def getDeviceUUID (device : Device) : Option JString :=
  device.chosenId.map fun deviceId =>
    urlSafeEscape (Utf8.decode (Base64.encode (Utf8.encode deviceId)))

/-! ### The Base64 text -/

theorem valid_spec : ∀ n < 256, Base64.isValidBase64Byte (UInt8.ofNat n) = true →
    UInt8.ofNat n < 0x80 ∧ (UInt8.ofNat n).toUInt16 < 0x80 ∧
      (UInt8.ofNat n).toUInt16 ≠ 0x24 ∧ (UInt8.ofNat n).toUInt16 ≠ 0x5C := by
  decide +kernel

/-- Base64 characters are ASCII, and none is special to `appendReplacement`. -/
theorem readable_of_mem_encode {x : List UInt8} {b : UInt8} (h : b ∈ Base64.encode x) :
    b < 0x80 ∧ Readable b.toUInt16 := by
  have hvalid := Base64.isValidBase64Byte_of_mem_encode h
  have hspec := valid_spec b.toNat b.toNat_lt
  rw [UInt8.ofNat_toNat] at hspec
  exact hspec hvalid

theorem decode_encode_bytes (x : List UInt8) :
    Utf8.decode (Base64.encode x) = Base64.text (Base64.encode x) :=
  Utf8.decode_ascii fun _ hb => (readable_of_mem_encode hb).1

theorem urlSafeUnescape_text (x : List UInt8) :
    urlSafeUnescape (urlSafeEscape (Base64.text (Base64.encode x))) =
      some (Base64.text (Base64.encode x)) := by
  refine urlSafeUnescape_escape fun c hc => ?_
  obtain ⟨b, hb, rfl⟩ := List.mem_map.mp hc
  exact (readable_of_mem_encode hb).2

/-! ### The identifier -/

theorem encode_ne_nil {id : JString} (hne : id ≠ []) (hid : Utf8.WellFormed id) :
    Utf8.encode id ≠ [] := by
  intro h
  have hback := Utf8.decode_encode hid
  rw [h] at hback
  exact hne hback.symm

/-- The bytes are taken back from the value. -/
theorem bytes_of_uuid {device : Device} {id uuid : JString} (hchosen : device.chosenId = some id)
    (hne : id ≠ []) (hid : Utf8.WellFormed id) (huuid : getDeviceUUID device = some uuid) :
    (urlSafeUnescape uuid).bind Base64.decode = some (Utf8.encode id) := by
  rw [getDeviceUUID, hchosen, Option.map_some, decode_encode_bytes] at huuid
  obtain rfl := Option.some.inj huuid
  rw [urlSafeUnescape_text, Option.bind_some, Base64.decode_encode (encode_ne_nil hne hid)]

/-- **Device identifiers are faithful.**  The value has only letters, digits and underscores,
the identifier's bytes are taken back from it, and no other identifier gives it. -/
theorem device_uuid_faithful (device : Device) (id : JString)
    (hchosen : device.chosenId = some id) (hne : id ≠ []) (hid : Utf8.WellFormed id) :
    ∃ uuid, getDeviceUUID device = some uuid ∧ (∀ c ∈ uuid, isSafe c = true) ∧
      (urlSafeUnescape uuid).bind Base64.decode = some (Utf8.encode id) ∧
      ∀ (other : Device) (id' : JString), other.chosenId = some id' → id' ≠ [] →
        Utf8.WellFormed id' → getDeviceUUID other = some uuid → id' = id := by
  have huuid : getDeviceUUID device =
      some (urlSafeEscape (Utf8.decode (Base64.encode (Utf8.encode id)))) := by
    rw [getDeviceUUID, hchosen]
    rfl
  have hbytes := bytes_of_uuid hchosen hne hid huuid
  refine ⟨_, huuid, fun c hc => isSafe_of_mem_urlSafeEscape hc, hbytes, ?_⟩
  intro other id' hchosen' hne' hid' huuid'
  have hbytes' := bytes_of_uuid hchosen' hne' hid' huuid'
  exact Utf8.encode_injective hid' hid (Option.some.inj (hbytes'.symm.trans hbytes))

/-- A device with a MAC address only. -/
def tablet : Device := ⟨none, some (lit "02:00:00:c4:1a:7f"), none⟩

theorem device_uuid_faithful_tablet :
    ∃ uuid, getDeviceUUID tablet = some uuid ∧ (∀ c ∈ uuid, isSafe c = true) ∧
      (urlSafeUnescape uuid).bind Base64.decode =
        some (Utf8.encode (lit "02:00:00:c4:1a:7f")) ∧
      ∀ (other : Device) (id' : JString), other.chosenId = some id' → id' ≠ [] →
        Utf8.WellFormed id' → getDeviceUUID other = some uuid → id' = lit "02:00:00:c4:1a:7f" :=
  device_uuid_faithful tablet (lit "02:00:00:c4:1a:7f") rfl (by decide +kernel)
    (by decide +kernel)

end DeviceId
