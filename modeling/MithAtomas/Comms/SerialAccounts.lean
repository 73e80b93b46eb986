import MithAtomas.Comms.SerialNoise

/-!
# Where the bytes of a serial line go

The parser on a line that may carry anything. `Carries` is what it makes of the stream: frames, each
with its sync bytes and its length in front, in order and without overlap, other bytes between them,
and what is pending at the end (`feed_carries`). `parser_accounts` adds the counters and the bounds
of the buffer.

What is pending is never longer than a frame (`Pending.length_le`), and without a first sync byte
nothing new becomes pending (`feed_quiet`). So a quiet stretch of the line brings the parser back to
its start from wherever the noise has led it, and what follows is decoded (`bounded_resync`).
-/

namespace MithAtomas

open ByteCodec

namespace SerialFraming

variable {maxPayload : ℕ} {p : Parser maxPayload} {w bs : List UInt8}

/-- How many bytes are pending in the state. -/
def Parser.pendingBytes (p : Parser maxPayload) : ℕ :=
  match p.state with
  | .waitSync1 => 0
  | .waitSync2 => 1
  | .waitLenLo => 2
  | .waitLenHi => 3
  | .readPayload => 4 + p.filled.toNat

/-- The stream is frames with these payloads, in order, other bytes before each of them, and
`pending` at its end. -/
def Carries (maxPayload : ℕ) : List (List UInt8) → List UInt8 → List UInt8 → Prop
  | [], pending, bs => pending <:+ bs
  | payload :: frames, pending, bs => ∃ gap lo hi rest,
      bs = gap ++ SYNC_BYTE_1 :: SYNC_BYTE_2 :: lo :: hi :: (payload ++ rest) ∧
      payload.length = lo.toNat + 2 ^ 8 * hi.toNat ∧ payload.length ≤ maxPayload ∧
      Carries maxPayload frames pending rest

/-! ### Pending bytes -/

theorem Pending.length_eq (hp : Pending p w) : w.length = p.pendingBytes := by
  unfold Pending at hp
  unfold Parser.pendingBytes
  cases hs : p.state with
  | waitSync1 | waitSync2 | waitLenLo =>
    rw [hs] at hp
    rw [hp]
    rfl
  | waitLenHi =>
    rw [hs] at hp
    obtain ⟨lo, rfl, -⟩ := hp
    rfl
  | readPayload =>
    rw [hs] at hp
    obtain ⟨done, rfl, hdone, hlt, hmax⟩ := hp
    have hlt' := UInt16.lt_iff_toNat_lt.mp hlt
    have hlen : done.length = p.filled.toNat := by
      rw [hdone, List.length_take, Vector.length_toList]
      omega
    rw [List.length_cons, List.length_cons, List.length_append, u16.length_put, hlen,
      show u16.width = 2 from rfl]
    show 2 + p.filled.toNat + 1 + 1 = 4 + p.filled.toNat
    omega

/-- While a payload is read there is room for its next byte, and the count does not wrap. -/
theorem Pending.room (hp : Pending p w) (hs : p.state = .readPayload) :
    p.filled < p.expectedLen ∧ p.expectedLen.toNat ≤ maxPayload ∧ p.filled.toNat < maxPayload ∧
      (p.filled + 1).toNat = p.filled.toNat + 1 := by
  unfold Pending at hp
  rw [hs] at hp
  obtain ⟨done, -, -, hlt, hmax⟩ := hp
  have hlt' := UInt16.lt_iff_toNat_lt.mp hlt
  have hbound := p.expectedLen.toNat_lt
  refine ⟨hlt, hmax, by omega, ?_⟩
  rw [UInt16.toNat_add]
  exact Nat.mod_eq_of_lt (show p.filled.toNat + 1 < 2 ^ 16 by omega)

/-- A frame that is not complete is shorter than the longest one. -/
theorem Pending.length_le (hp : Pending p w) : w.length ≤ maxPayload + 3 := by
  rw [hp.length_eq]
  unfold Parser.pendingBytes
  -- in the other states fewer bytes than a header are pending
  cases hs : p.state with
  | readPayload =>
    have hroom := (hp.room hs).2.2.1
    show 4 + p.filled.toNat ≤ maxPayload + 3
    omega
  | waitSync1 => exact Nat.zero_le _
  | waitSync2 => exact Nat.le_add_left_of_le (show 1 ≤ 3 by decide)
  | waitLenLo => exact Nat.le_add_left_of_le (show 2 ≤ 3 by decide)
  | waitLenHi => exact Nat.le_add_left 3 maxPayload

/-! ### What the stream carries -/

variable {frames : List (List UInt8)} {pending : List UInt8}

/-- More bytes in front. -/
theorem Carries.prepend (h : Carries maxPayload frames pending bs) (front : List UInt8) :
    Carries maxPayload frames pending (front ++ bs) := by
  cases frames with
  | nil => exact h.trans (List.suffix_append front bs)
  | cons payload frames =>
    obtain ⟨gap, lo, hi, rest, rfl, hlen, hmax, hrest⟩ := h
    exact ⟨front ++ gap, lo, hi, rest, (List.append_assoc _ _ _).symm, hlen, hmax, hrest⟩

/-- A frame in front. -/
theorem Carries.frame {payload : List UInt8} (h : Carries maxPayload frames pending bs)
    (hfits : Fits maxPayload payload) :
    Carries maxPayload (payload :: frames) pending (frameBytes payload ++ bs) := by
  -- the two bytes of the length say it
  let n := UInt16.ofNat payload.length
  refine ⟨[], n.toUInt8, (n >>> 8).toUInt8, bs, rfl, ?_, hfits.1, h⟩
  have hget : getU16 [n.toUInt8, (n >>> 8).toUInt8] = n := getU16_putU16 n []
  rw [← toNat_getU16 _ _ [], hget, toNat_length hfits]

/-- **Every frame that is handed over was in the stream**, and what is pending is at its end. -/
theorem feed_carries (hp : Pending p w) (bs : List UInt8) : ∃ pending,
    Pending (p.feed bs).1 pending ∧
      Carries maxPayload (p.feed bs).2 pending (w ++ bs) := by
  -- on the bytes; what is pending goes in front of those to come
  induction bs generalizing p w with
  | nil => exact ⟨w, hp, by rw [List.append_nil]; exact List.suffix_rfl⟩
  | cons b bs ih =>
    have hsplit : w ++ b :: bs = w ++ [b] ++ bs := List.append_cons w b bs
    have houtcome := feedByte_outcome hp b
    rw [feed_cons, hsplit]
    generalize (p.feedByte b).1 = p', (p.feedByte b).2 = frame at houtcome ⊢
    cases houtcome with
    | kept hkept => exact ih hkept
    | complete hfits hframe hdone =>
      obtain ⟨pending, hend, hcarries⟩ := ih hdone
      rw [hframe]
      exact ⟨pending, hend, hcarries.frame hfits⟩
    | @dropped w' hleft _ hsync =>
      obtain ⟨pending, hend, hcarries⟩ := ih hleft
      -- what is left of the bytes is at their end
      obtain ⟨front, hfront⟩ : w' <:+ w ++ [b] := by
        rcases hsync with rfl | ⟨rfl, -⟩
        · exact List.nil_suffix
        · exact List.suffix_append w [b]
      rw [← hfront, List.append_assoc]
      exact ⟨pending, hend, hcarries.prepend front⟩

/-! ### Quiet stretches -/

/-- A byte that is not the first sync byte. -/
theorem feedByte_quiet (hp : Pending p w) {b : UInt8} (hb : b ≠ SYNC_BYTE_1) :
    Pending (p.feedByte b).1 [] ∨ w ≠ [] ∧ Pending (p.feedByte b).1 (w ++ [b]) := by
  by_cases hw : w = []
  · -- noise, without a sync byte at its end
    subst hw
    have hidle := (feedByte_noise hp (.inl rfl) (b := b) (by rintro ⟨⟩)).2
    rw [trailingSync, if_neg (by simpa using hb)] at hidle
    exact .inl hidle
  · have houtcome := feedByte_outcome hp b
    generalize (p.feedByte b).1 = p', (p.feedByte b).2 = frame at houtcome ⊢
    cases houtcome with
    | kept hkept => exact .inr ⟨hw, hkept⟩
    | complete _ _ hdone => exact .inl hdone
    | dropped hleft _ hsync =>
      -- nothing is left of a drop but a first sync byte
      rcases hsync with rfl | ⟨-, rfl⟩
      · exact .inl hleft
      · exact absurd rfl hb

/-- **Without a first sync byte** the pending frame goes on, or nothing is pending. -/
theorem feed_quiet (hp : Pending p w) (hquiet : SYNC_BYTE_1 ∉ bs) :
    Pending (p.feed bs).1 [] ∨ w ≠ [] ∧ Pending (p.feed bs).1 (w ++ bs) := by
  induction bs generalizing p w with
  | nil =>
    by_cases hw : w = []
    · subst hw
      exact .inl hp
    · rw [List.append_nil]
      exact .inr ⟨hw, hp⟩
  | cons b bs ih =>
    obtain ⟨hb, hquiet⟩ := not_or.mp (mt List.mem_cons.mpr hquiet)
    rw [feed_cons]
    rcases feedByte_quiet hp (Ne.symm hb) with hidle | ⟨hw, hkept⟩
    · exact (ih hidle hquiet).imp_right fun h => absurd rfl h.1
    · refine (ih hkept hquiet).imp_right fun h => ⟨hw, ?_⟩
      rw [List.append_cons]
      exact h.2

/-- **A quiet stretch longer than any frame** leaves nothing pending. -/
theorem feed_long_quiet (hp : Pending p w) (hquiet : SYNC_BYTE_1 ∉ bs)
    (hlong : maxPayload + 3 ≤ bs.length) : Pending (p.feed bs).1 [] := by
  rcases feed_quiet hp hquiet with hidle | ⟨hw, hkept⟩
  · exact hidle
  · -- what was pending, and the whole stretch behind it, would be longer than a frame
    have hle := hkept.length_le
    have hpos := List.length_pos_iff.mpr hw
    rw [List.length_append] at hle
    omega

/-- **Encoded frames** from a parser with nothing pending. -/
theorem feed_encoded {cap : ℕ} {payloads : List (List UInt8)} (hp : Pending p [])
    (h : ∀ payload ∈ payloads, payload.length ≤ MAX_PAYLOAD_BYTES ∧ payload.length ≤ maxPayload ∧
      FRAME_HEADER_BYTES + payload.length ≤ cap) :
    (p.feed (payloads.map fun payload => encode payload cap).flatten).2 = payloads ∧
      Pending (p.feed (payloads.map fun payload => encode payload cap).flatten).1 [] := by
  induction payloads generalizing p with
  | nil => exact ⟨rfl, hp⟩
  | cons payload payloads ih =>
    obtain ⟨hmax, hroom, hcap⟩ := h payload List.mem_cons_self
    have hlt : payload.length < 2 ^ 16 := lt_of_le_of_lt hmax (by decide)
    -- each frame leaves the parser where it began
    obtain ⟨hone, hdone⟩ := feed_frameBytes ⟨hroom, hlt⟩ hp
    obtain ⟨hrest, hend⟩ := ih hdone fun payload' hmem => h payload' (List.mem_cons_of_mem _ hmem)
    rw [List.map_cons, List.flatten_cons, encode_eq hmax hcap, feed_append, hone, hrest]
    exact ⟨rfl, hend⟩

/-! ### The results -/

/-- **Accounts and bounds of the parser.** After any calls with any bytes: as many bytes as were fed
have been dropped, were part of a frame that was handed over, or are pending, and the counter has
the number of those dropped, modulo `2 ^ 64`; while a payload is read its next byte fits into the
buffer and the count of its bytes does not wrap; and the payloads handed over stand in the stream
behind the two sync bytes and their own length, one after the other, with the pending bytes at the
end. -/
theorem parser_accounts (maxPayload : ℕ) (pieces : List (List UInt8)) :
    (∃ dropped, (({} : Parser maxPayload).feedAll pieces).1.bytesDropped = UInt64.ofNat dropped ∧
      pieces.flatten.length = dropped
        + frameBytesTotal (({} : Parser maxPayload).feedAll pieces).2
        + (({} : Parser maxPayload).feedAll pieces).1.pendingBytes) ∧
    (pieces.flatten.length < 2 ^ 64 → pieces.flatten.length
      = (({} : Parser maxPayload).feedAll pieces).1.bytesDropped.toNat
        + frameBytesTotal (({} : Parser maxPayload).feedAll pieces).2
        + (({} : Parser maxPayload).feedAll pieces).1.pendingBytes) ∧
    ((({} : Parser maxPayload).feedAll pieces).1.state = .readPayload →
      (({} : Parser maxPayload).feedAll pieces).1.filled
        < (({} : Parser maxPayload).feedAll pieces).1.expectedLen ∧
      (({} : Parser maxPayload).feedAll pieces).1.expectedLen.toNat ≤ maxPayload ∧
      (({} : Parser maxPayload).feedAll pieces).1.filled.toNat < maxPayload ∧
      ((({} : Parser maxPayload).feedAll pieces).1.filled + 1).toNat
        = (({} : Parser maxPayload).feedAll pieces).1.filled.toNat + 1) ∧
    ∃ pending, pending.length = (({} : Parser maxPayload).feedAll pieces).1.pendingBytes ∧
      Carries maxPayload (({} : Parser maxPayload).feedAll pieces).2 pending pieces.flatten := by
  rw [feedAll_eq]
  generalize pieces.flatten = bs
  obtain ⟨w, hp, hcarries⟩ := feed_carries (p := ({} : Parser maxPayload)) pending_new bs
  obtain ⟨w', d, hp', hdropped, -, hsum⟩ :=
    feed_accounts (p := ({} : Parser maxPayload)) pending_new bs
  -- the bytes that wait are the same by both accounts
  obtain rfl := hp'.unique hp
  replace hdropped : (({} : Parser maxPayload).feed bs).1.bytesDropped = UInt64.ofNat d :=
    hdropped.trans (UInt64.zero_add _)
  have htotal : bs.length = d + frameBytesTotal (({} : Parser maxPayload).feed bs).2
      + (({} : Parser maxPayload).feed bs).1.pendingBytes := by
    rw [← hp.length_eq, hsum, List.length_nil, Nat.zero_add]
  refine ⟨⟨d, hdropped, htotal⟩, fun hlt => ?_, hp.room, w', hp.length_eq, hcarries⟩
  have hd : (UInt64.ofNat d).toNat = d := Nat.mod_eq_of_lt (by omega)
  rw [hdropped, hd]
  exact htotal

/-- **Bounded resynchronisation.** Whatever a parser has been fed, after `maxPayload + 3` bytes or
more without a first sync byte, cut in any way, it waits for the first sync byte; so the frames that
are encoded after that, with payloads that it has room for, are handed over, each once and in order,
and it waits again. -/
theorem bounded_resync (maxPayload : ℕ) (noise quiet : List (List UInt8))
    (hquiet : SYNC_BYTE_1 ∉ quiet.flatten) (hlong : maxPayload + 3 ≤ quiet.flatten.length) :
    ((({} : Parser maxPayload).feedAll noise).1.feedAll quiet).1.state = .waitSync1 ∧
    ∀ (cap : ℕ) (payloads later : List (List UInt8)),
      (∀ payload ∈ payloads, payload.length ≤ MAX_PAYLOAD_BYTES ∧ payload.length ≤ maxPayload ∧
        FRAME_HEADER_BYTES + payload.length ≤ cap) →
      later.flatten = (payloads.map fun payload => encode payload cap).flatten →
      (((({} : Parser maxPayload).feedAll noise).1.feedAll quiet).1.feedAll later).2 = payloads ∧
      (((({} : Parser maxPayload).feedAll noise).1.feedAll quiet).1.feedAll later).1.state
        = .waitSync1 := by
  simp only [feedAll_eq]
  obtain ⟨w, hp, -⟩ := feed_carries (p := ({} : Parser maxPayload)) pending_new noise.flatten
  have hidle := feed_long_quiet hp hquiet hlong
  refine ⟨pending_nil.mp hidle, fun cap payloads later hpayloads hlater => ?_⟩
  obtain ⟨hframes, hend⟩ := feed_encoded hidle hpayloads
  rw [hlater]
  exact ⟨hframes, pending_nil.mp hend⟩

/-- A length from noise that takes all the room, and then a quiet stretch that just fills it. -/
theorem resync_after_bogus_length :
    (((({} : Parser 2).feedAll [[0x11, 0xA5]]).1.feedAll
      [[0x5A, 0x02, 0x00], [0x07, 0x08]]).1.feedAll
        [[0xA5, 0x5A, 0x01], [0x00, 0x09]]).2 = [[0x09]] :=
  ((bounded_resync 2 [[0x11, 0xA5]] [[0x5A, 0x02, 0x00], [0x07, 0x08]] (by decide) (by decide)).2
    5 [[0x09]] [[0xA5, 0x5A, 0x01], [0x00, 0x09]] (by decide) (by decide)).1

/-- A byte less may leave the parser inside a frame. -/
example : ((({} : Parser 2).feedAll [[0x11, 0xA5]]).1.feedAll [[0x5A, 0x02, 0x00, 0x07]]).1.state
    = .readPayload := by
  decide

end SerialFraming

end MithAtomas
