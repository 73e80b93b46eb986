import MithAtomas.Comms.UdpWire

/-!
# The datagram format is faithful

The decoders accept a byte string for its length, tag and length field alone
(`decodeBeacon_isSome_iff`, `decodeMessage_isSome_iff`), and writing what has been read gives back
the bytes of the frame (`encodeBeacon_of_decodeBeacon`, `encodeMessage_of_decodeMessage`): together
with the round trips of `UdpWire`, a frame and its value are the same thing. The signed prefix is
the first 91 bytes of a beacon's payload (`beaconSignedPayload_of_decodeBeacon`), and all that it
leaves out is the signature (`eq_of_beaconSignedPayload_eq`).
-/

namespace MithAtomas

open ByteCodec

namespace UdpWire

/-- `put_hid` and `get_hid` as one field. -/
def hid : Codec HierarchicalID where
  width := 18
  put := putHid
  get := getHid
  length_put := length_putHid
  get_put := fun hid rest => getHid_putHid rest hid
  put_get := by
    intro bs h
    unfold putHid getHid
    exact u16.put_get_append ((bytes 16).put_get (bs.drop 2)) h

/-- The length field of a frame, as a number. -/
def lengthField (frame : List UInt8) : ℕ :=
  (frame.getD 1 0).toNat + 2 ^ 8 * (frame.getD 2 0).toNat + 2 ^ 16 * (frame.getD 3 0).toNat
    + 2 ^ 24 * (frame.getD 4 0).toNat

variable {b : List UInt8}

theorem toNat_get_length (h : 5 ≤ b.length) : (u32.get (b.drop 1)).toNat = lengthField b := by
  obtain ⟨a₀, a₁, a₂, a₃, a₄, rest, rfl⟩ : ∃ a₀ a₁ a₂ a₃ a₄ rest,
      b = a₀ :: a₁ :: a₂ :: a₃ :: a₄ :: rest := by
    match b, h with
    | a₀ :: a₁ :: a₂ :: a₃ :: a₄ :: rest, _ => exact ⟨a₀, a₁, a₂, a₃, a₄, rest, rfl⟩
  exact toNat_getU32 a₁ a₂ a₃ a₄ rest

theorem get_tag (h : 0 < b.length) : b[0]? = some (u8.get b) := by
  match b, h with
  | a :: rest, _ => rfl

/-! ### What is accepted -/

/-- The three tests that both decoders begin with. -/
theorem header_isSome_iff {A : Type} {frameLen : ℕ} {tag : UInt8} {len : UInt32} {value : A}
    (hframe : 5 ≤ frameLen) :
    (if b.length < frameLen then none
      else if u8.get b ≠ tag then none
      else if u32.get (b.drop 1) ≠ len then none
      else some value).isSome = true ↔
    frameLen ≤ b.length ∧ b[0]? = some tag ∧ lengthField b = len.toNat := by
  -- check by check, as the decoder makes them
  split
  · next hlen =>
    refine iff_of_false Bool.false_ne_true ?_
    rintro ⟨hle, -⟩
    omega
  · next hlen =>
    have hle : frameLen ≤ b.length := not_lt.mp hlen
    rw [get_tag (by omega), ← toNat_get_length (by omega)]
    split
    · next htag =>
      refine iff_of_false Bool.false_ne_true ?_
      rintro ⟨-, hget, -⟩
      exact htag (Option.some.inj hget)
    · next htag =>
      rw [not_not.mp htag]
      split
      · next hfield =>
        refine iff_of_false Bool.false_ne_true ?_
        rintro ⟨-, -, hlength⟩
        exact hfield (UInt32.toNat_inj.mp hlength)
      · next hfield =>
        rw [not_not.mp hfield]
        exact iff_of_true rfl ⟨hle, rfl, rfl⟩

/-- **Which byte strings are beacons.** -/
theorem decodeBeacon_isSome_iff : (decodeBeacon b).isSome = true ↔
    160 ≤ b.length ∧ b[0]? = some 0x01 ∧ lengthField b = 155 :=
  header_isSome_iff (by decide)

/-- **Which byte strings are messages.** -/
theorem decodeMessage_isSome_iff : (decodeMessage b).isSome = true ↔
    181 ≤ b.length ∧ b[0]? = some 0x02 ∧ lengthField b = 176 :=
  header_isSome_iff (by decide)

/-- The tag keeps the two apart. -/
theorem not_both (hbeacon : (decodeBeacon b).isSome = true)
    (hmessage : (decodeMessage b).isSome = true) : False := by
  have h₁ := (decodeBeacon_isSome_iff.mp hbeacon).2.1
  have h₂ := (decodeMessage_isSome_iff.mp hmessage).2.1
  rw [h₁] at h₂
  revert h₂
  decide

/-! ### Writing what has been read -/

variable {sv : StateVector UInt32} {msg : Message UInt32} {cap : ℕ}

/-- **The signed prefix is read from the first 91 bytes of the payload**, the signature from the
64 behind it. -/
theorem payload_of_decodeBeacon (h : decodeBeacon b = some sv) :
    beaconSignedPayload sv = (b.drop 5).take 91 ∧ sv.signature = (bytes 64).get (b.drop 96) := by
  have hlen : 160 ≤ b.length := (decodeBeacon_isSome_iff.mp (Option.isSome_of_eq_some h)).1
  unfold decodeBeacon at h
  rw [if_neg (show ¬ b.length < FRAME_HEADER_BYTES + BEACON_PAYLOAD_BYTES from
    not_lt.mpr hlen)] at h
  split at h
  · cases h
  · split at h
    · cases h
    · simp only [Option.some.injEq] at h
      subst h
      have hpayload : 91 ≤ (b.drop 5).length := by
        rw [List.length_drop]
        omega
      rw [List.drop_drop (i := 4) (j := 1)]
      refine ⟨?_, ?_⟩
      · -- each field in front of those that follow it
        exact hid.put_get_append (u32.put_get_append (u32.put_get_append (u32.put_get_append
          (u32.put_get_append (u32.put_get_append (u32.put_get_append (u8.put_get_append
            (u32.put_get_append (u32.put_get_append (u32.put_get_append (u32.put_get_append
              ((bytes 32).put_get _)))))))))))) hpayload
      · simp only [List.drop_drop]

/-- The header of an accepted frame, as bytes. -/
theorem header_eq {tag : UInt8} (len : UInt32) (hlen : 5 ≤ b.length) (htag : b[0]? = some tag)
    (hfield : lengthField b = len.toNat) : tag :: u32.put len = b.take 5 := by
  rw [get_tag (by omega)] at htag
  have hget : u32.get (b.drop 1) = len := by
    apply UInt32.toNat_inj.mp
    rw [toNat_get_length hlen, hfield]
  have h := u8.put_get_append (p := b) (u32.put_get (b.drop 1)) hlen
  rw [Option.some.inj htag, hget] at h
  exact h

/-- **Encoding undoes decoding**, for a beacon. -/
theorem encodeBeacon_of_decodeBeacon (h : decodeBeacon b = some sv) (hcap : 160 ≤ cap) :
    encodeBeacon sv cap = b.take 160 := by
  obtain ⟨hlen, htag, hfield⟩ := decodeBeacon_isSome_iff.mp (Option.isSome_of_eq_some h)
  obtain ⟨hbefore, hsignature⟩ := payload_of_decodeBeacon h
  have hheader := header_eq 155 (by omega) htag hfield
  have hlast : (bytes 64).put sv.signature = (b.drop 96).take 64 := by
    rw [hsignature]
    refine (bytes 64).put_get _ ?_
    rw [List.length_drop]
    exact Nat.le_sub_of_add_le hlen
  have hpayload : (b.drop 5).take 91 ++ (b.drop 96).take 64 = (b.drop 5).take 155 := by
    rw [List.take_add (i := 91) (j := 64), List.drop_drop]
  calc encodeBeacon sv cap
      = (TAG_BEACON :: u32.put 155) ++ (beaconSignedPayload sv ++ (bytes 64).put sv.signature) := by
        rw [encodeBeacon_eq sv hcap]
        rfl
    _ = b.take 5 ++ (b.drop 5).take 155 := by
        rw [hbefore, hlast, hpayload, ← hheader]
        rfl
    _ = b.take 160 := (List.take_add (i := 5) (j := 155)).symm

/-- **Encoding undoes decoding**, for a message. -/
theorem encodeMessage_of_decodeMessage (h : decodeMessage b = some msg) (hcap : 181 ≤ cap) :
    encodeMessage msg cap = b.take 181 := by
  obtain ⟨hlen, htag, hfield⟩ := decodeMessage_isSome_iff.mp (Option.isSome_of_eq_some h)
  have hheader := header_eq 176 (by omega) htag hfield
  have hpayload : putHid msg.sender ++ (putHid msg.recipient ++ (u32.put msg.type ++
      (u32.put msg.seq ++ (u32.put msg.timestampS ++ (bytes 128).put msg.payload))))
        = (b.drop 5).take 176 := by
    have hrest : 176 ≤ (b.drop 5).length := by
      rw [List.length_drop]
      omega
    -- each field is put back where it was read
    unfold decodeMessage at h
    rw [if_neg (show ¬ b.length < FRAME_HEADER_BYTES + MESSAGE_PAYLOAD_BYTES from
      not_lt.mpr hlen)] at h
    split at h
    · cases h
    · split at h
      · cases h
      · simp only [Option.some.injEq] at h
        subst h
        rw [List.drop_drop (i := 4) (j := 1)]
        exact hid.put_get_append (hid.put_get_append (u32.put_get_append (u32.put_get_append
          (u32.put_get_append ((bytes 128).put_get _))))) hrest
  calc encodeMessage msg cap
      = (TAG_MESSAGE :: u32.put 176) ++ (putHid msg.sender ++ (putHid msg.recipient ++
          (u32.put msg.type ++ (u32.put msg.seq ++ (u32.put msg.timestampS ++
            (bytes 128).put msg.payload))))) := by
        rw [encodeMessage_eq msg hcap]
        rfl
    _ = b.take 5 ++ (b.drop 5).take 176 := by
        rw [hpayload, ← hheader]
        rfl
    _ = b.take 181 := (List.take_add (i := 5) (j := 176)).symm

/-! ### The signed prefix -/

theorem serialiseBeaconSignedPayload_eq {cap : ℕ} (hcap : 91 ≤ cap) (sv : StateVector UInt32) :
    serialiseBeaconSignedPayload sv cap = beaconSignedPayload sv :=
  if_neg (not_lt.mpr hcap)

/-- **The signature is all that is not signed.** -/
theorem eq_of_beaconSignedPayload_eq {sv sv' : StateVector UInt32}
    (h : beaconSignedPayload sv = beaconSignedPayload sv') :
    sv' = { sv with signature := sv'.signature } := by
  -- with the same signature the two have the same frame
  have hframe : encodeBeacon sv' 160 = encodeBeacon { sv with signature := sv'.signature } 160 := by
    rw [encodeBeacon_eq _ le_rfl, encodeBeacon_eq _ le_rfl, ← h]
    rfl
  have hdecoded := congrArg decodeBeacon hframe
  rw [decodeBeacon_encodeBeacon _ le_rfl, decodeBeacon_encodeBeacon _ le_rfl] at hdecoded
  exact Option.some.inj hdecoded

/-- **The wire format is faithful.** Decoding undoes encoding, for every buffer that is large
enough; the decoders accept a byte string for its length, its tag and its length field, and none is
accepted by both; encoding undoes decoding, on the bytes of the frame; the signed bytes of a decoded
beacon are the first 91 of the payload, and those of the sender whatever signature it has added; and
two beacons with the same signed bytes differ at most in the signature. -/
theorem udp_wire_faithful :
    (∀ (sv : StateVector UInt32) (cap : ℕ), 160 ≤ cap →
      decodeBeacon (encodeBeacon sv cap) = some sv) ∧
    (∀ (msg : Message UInt32) (cap : ℕ), 181 ≤ cap →
      decodeMessage (encodeMessage msg cap) = some msg) ∧
    (∀ b : List UInt8, (decodeBeacon b).isSome = true ↔
      160 ≤ b.length ∧ b[0]? = some 0x01 ∧ lengthField b = 155) ∧
    (∀ b : List UInt8, (decodeMessage b).isSome = true ↔
      181 ≤ b.length ∧ b[0]? = some 0x02 ∧ lengthField b = 176) ∧
    (∀ (b : List UInt8) (sv : StateVector UInt32) (cap : ℕ), decodeBeacon b = some sv →
      160 ≤ cap → encodeBeacon sv cap = b.take 160) ∧
    (∀ (b : List UInt8) (msg : Message UInt32) (cap : ℕ), decodeMessage b = some msg →
      181 ≤ cap → encodeMessage msg cap = b.take 181) ∧
    (∀ b : List UInt8, ¬ ((decodeBeacon b).isSome = true ∧ (decodeMessage b).isSome = true)) ∧
    (∀ (b : List UInt8) (sv : StateVector UInt32) (cap : ℕ), decodeBeacon b = some sv →
      91 ≤ cap → serialiseBeaconSignedPayload sv cap = (b.drop 5).take 91) ∧
    (∀ (sv received : StateVector UInt32) (signature : Vector UInt8 64) (cap cap' : ℕ), 160 ≤ cap →
      decodeBeacon (encodeBeacon { sv with signature } cap) = some received →
      serialiseBeaconSignedPayload received cap' = serialiseBeaconSignedPayload sv cap') ∧
    (∀ (sv sv' : StateVector UInt32) (cap : ℕ), 91 ≤ cap →
      serialiseBeaconSignedPayload sv cap = serialiseBeaconSignedPayload sv' cap →
      sv' = { sv with signature := sv'.signature }) := by
  refine ⟨fun sv cap hcap => decodeBeacon_encodeBeacon sv hcap,
    fun msg cap hcap => decodeMessage_encodeMessage msg hcap,
    fun b => decodeBeacon_isSome_iff, fun b => decodeMessage_isSome_iff,
    fun b sv cap h hcap => encodeBeacon_of_decodeBeacon h hcap,
    fun b msg cap h hcap => encodeMessage_of_decodeMessage h hcap,
    fun b h => not_both h.1 h.2, ?_, ?_, ?_⟩
  · intro b sv cap h hcap
    rw [serialiseBeaconSignedPayload_eq hcap]
    exact (payload_of_decodeBeacon h).1
  · intro sv received signature cap cap' hcap h
    rw [decodeBeacon_encodeBeacon _ hcap] at h
    -- the payload that is signed leaves the signature out
    obtain rfl := Option.some.inj h
    rfl
  · intro sv sv' cap hcap h
    rw [serialiseBeaconSignedPayload_eq hcap, serialiseBeaconSignedPayload_eq hcap] at h
    exact eq_of_beaconSignedPayload_eq h

end UdpWire

end MithAtomas
