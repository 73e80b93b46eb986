import MithAtomas.Comms.SerialFraming

/-!
# Frames with noise in between

The parser on a line that also carries bytes of no frame. Every byte it is fed is accounted for: it
is dropped, or part of a frame that has been handed over, or pending (`feed_accounts`). Noise is
anything without the two sync bytes in a row (`NoSync`). It drops out, except for a sync byte at its
end, which stays pending (`feed_noise`); a frame that follows is recognised all the same
(`feed_completes`), since a parser that waits for the second sync byte and sees the first again goes
on waiting.

`noisy_stream_decoded` puts these together, for any cut of the stream into calls.
-/

namespace MithAtomas

open ByteCodec

namespace SerialFraming

variable {maxPayload : ℕ} {p : Parser maxPayload} {w w' bs : List UInt8}

/-- The calls of `feed` with one piece of the stream each. -/
def Parser.feedAll (p : Parser maxPayload) : List (List UInt8) →
    Parser maxPayload × List (List UInt8)
  | [] => (p, [])
  | piece :: pieces =>
    let (p', frames) := p.feed piece
    let (p'', frames') := feedAll p' pieces
    (p'', frames ++ frames')

theorem feedAll_cons (piece : List UInt8) (pieces : List (List UInt8)) :
    p.feedAll (piece :: pieces) = (((p.feed piece).1.feedAll pieces).1,
      (p.feed piece).2 ++ ((p.feed piece).1.feedAll pieces).2) :=
  rfl

/-- It does not matter how the stream is cut. -/
theorem feedAll_eq (pieces : List (List UInt8)) : p.feedAll pieces = p.feed pieces.flatten := by
  induction pieces generalizing p with
  | nil => rfl
  | cons piece pieces ih =>
    rw [feedAll_cons, List.flatten_cons, feed_append, ih]

/-! ### Accounts -/

/-- The bytes of the frames that have been handed over. -/
def frameBytesTotal (frames : List (List UInt8)) : ℕ :=
  (frames.map fun frame => FRAME_HEADER_BYTES + frame.length).sum

theorem frameBytesTotal_append (frames frames' : List (List UInt8)) :
    frameBytesTotal (frames ++ frames') = frameBytesTotal frames + frameBytesTotal frames' := by
  unfold frameBytesTotal
  rw [List.map_append, List.sum_append]

/-- **One byte is dropped, completes a frame, or is pending**; `d` bytes are dropped for it. -/
theorem feedByte_accounts (hp : Pending p w) (b : UInt8) : ∃ w' d,
    Pending (p.feedByte b).1 w' ∧
    (p.feedByte b).1.bytesDropped = p.bytesDropped + UInt64.ofNat d ∧
    (p.feedByte b).1.framesDecoded
      = p.framesDecoded + UInt64.ofNat (p.feedByte b).2.toList.length ∧
    d + frameBytesTotal (p.feedByte b).2.toList + w'.length = w.length + 1 := by
  have houtcome := feedByte_outcome hp b
  generalize (p.feedByte b).1 = p', (p.feedByte b).2 = frame at houtcome ⊢
  cases houtcome with
  | kept hpending hdropped hdecoded =>
    refine ⟨w ++ [b], 0, hpending, hdropped.trans (UInt64.add_zero _).symm,
      hdecoded.trans (UInt64.add_zero _).symm, ?_⟩
    rw [List.length_append]
    exact Nat.zero_add _
  | @complete payload _ hframe hpending hdropped hdecoded =>
    refine ⟨[], 0, hpending, hdropped.trans (UInt64.add_zero _).symm, hdecoded, ?_⟩
    -- the frame is what was pending, and this byte
    have hlen := congrArg List.length hframe
    rw [List.length_append, length_frameBytes] at hlen
    simp only [Option.toList_some, frameBytesTotal, List.map_cons, List.map_nil, List.sum_cons,
      List.sum_nil, List.length_nil]
    rw [List.length_singleton] at hlen
    omega
  | @dropped w' hpending hle _ hdropped hdecoded _ =>
    refine ⟨w', w.length + 1 - w'.length, hpending, hdropped,
      hdecoded.trans (UInt64.add_zero _).symm, ?_⟩
    exact Nat.sub_add_cancel hle

/-- **Every byte is accounted for**: dropped, in a frame that was handed over, or pending. -/
theorem feed_accounts (hp : Pending p w) (bs : List UInt8) : ∃ w' d,
    Pending (p.feed bs).1 w' ∧
    (p.feed bs).1.bytesDropped = p.bytesDropped + UInt64.ofNat d ∧
    (p.feed bs).1.framesDecoded = p.framesDecoded + UInt64.ofNat (p.feed bs).2.length ∧
    d + frameBytesTotal (p.feed bs).2 + w'.length = w.length + bs.length := by
  induction bs generalizing p w with
  | nil => exact ⟨w, 0, hp, (UInt64.add_zero _).symm, (UInt64.add_zero _).symm, Nat.zero_add _⟩
  | cons b bs ih =>
    obtain ⟨w₁, d₁, hp₁, hdropped₁, hdecoded₁, hsum₁⟩ := feedByte_accounts hp b
    obtain ⟨w₂, d₂, hp₂, hdropped₂, hdecoded₂, hsum₂⟩ := ih hp₁
    refine ⟨w₂, d₁ + d₂, hp₂, ?_, ?_, ?_⟩
    · rw [feed_cons, UInt64.ofNat_add, ← UInt64.add_assoc, ← hdropped₁]
      exact hdropped₂
    · rw [feed_cons, List.length_append, UInt64.ofNat_add, ← UInt64.add_assoc, ← hdecoded₁]
      exact hdecoded₂
    · rw [feed_cons, frameBytesTotal_append, List.length_cons]
      omega

/-- What is pending is a matter of the parser alone. -/
theorem Pending.unique (h : Pending p w) (h' : Pending p w') : w = w' := by
  unfold Pending at h h'
  cases hs : p.state with
  | waitSync1 | waitSync2 | waitLenLo =>
    rw [hs] at h h'
    rw [h, h']
  | waitLenHi =>
    rw [hs] at h h'
    obtain ⟨lo, rfl, hlo⟩ := h
    obtain ⟨lo', rfl, hlo'⟩ := h'
    rw [hlo] at hlo'
    rw [UInt8.toUInt16_inj.mp hlo']
  | readPayload =>
    rw [hs] at h h'
    obtain ⟨done, rfl, hdone, -⟩ := h
    obtain ⟨done', rfl, hdone', -⟩ := h'
    rw [hdone, hdone']

/-! ### Noise -/

/-- The two sync bytes are nowhere in a row. -/
def NoSync (bs : List UInt8) : Prop :=
  ¬ [SYNC_BYTE_1, SYNC_BYTE_2] <:+: bs

instance (bs : List UInt8) : Decidable (NoSync bs) :=
  inferInstanceAs (Decidable (¬ _))

/-- The sync byte that noise leaves pending: its last byte, if that is one. -/
def trailingSync (bs : List UInt8) : List UInt8 :=
  if bs.getLast? = some SYNC_BYTE_1 then [SYNC_BYTE_1] else []

theorem trailingSync_append (l : List UInt8) (hbs : bs ≠ []) :
    trailingSync (l ++ bs) = trailingSync bs := by
  unfold trailingSync
  rw [List.getLast?_append_of_ne_nil l hbs]

/-- What a byte leaves pending stands for the byte. -/
theorem trailingSync_trailingSync_append (b : UInt8) (bs : List UInt8) :
    trailingSync (trailingSync [b] ++ bs) = trailingSync ([b] ++ bs) := by
  by_cases hbs : bs = []
  · rw [hbs, List.append_nil, List.append_nil]
    by_cases hb : b = SYNC_BYTE_1 <;> simp [trailingSync, hb]
  · rw [trailingSync_append _ hbs, trailingSync_append _ hbs]

/-- One byte of noise, after noise. -/
theorem feedByte_noise (hp : Pending p w) (hw : w = [] ∨ w = [SYNC_BYTE_1]) {b : UInt8}
    (hb : w = [SYNC_BYTE_1] → b ≠ SYNC_BYTE_2) :
    (p.feedByte b).2 = none ∧ Pending (p.feedByte b).1 (trailingSync [b]) := by
  have hlast : trailingSync [b] = if b = SYNC_BYTE_1 then [SYNC_BYTE_1] else [] := by
    simp [trailingSync]
  rw [hlast]
  rcases hw with rfl | rfl
  · have hstate := pending_nil.mp hp
    unfold Parser.feedByte
    rw [hstate]
    simp only
    split <;> exact ⟨rfl, rfl⟩
  · have hstate : p.state = .waitSync2 := by
      unfold Pending at hp
      cases hs : p.state <;> simp [hs] at hp ⊢
    unfold Parser.feedByte
    rw [hstate]
    simp only [hb rfl, if_false]
    split
    · exact ⟨rfl, by simp [Pending]⟩
    · exact ⟨rfl, rfl⟩

/-- **Noise gives no frame**, and all that can be pending after it is its last byte. -/
theorem feed_noise (hp : Pending p w) (hw : w = [] ∨ w = [SYNC_BYTE_1]) (hno : NoSync (w ++ bs)) :
    (p.feed bs).2 = [] ∧ Pending (p.feed bs).1 (trailingSync (w ++ bs)) := by
  induction bs generalizing p w with
  | nil =>
    refine ⟨rfl, ?_⟩
    have hself : trailingSync (w ++ []) = w := by
      rcases hw with rfl | rfl <;> rfl
    rw [hself]
    exact hp
  | cons b bs ih =>
    have hb : w = [SYNC_BYTE_1] → b ≠ SYNC_BYTE_2 := by
      rintro rfl rfl
      exact hno ⟨[], bs, rfl⟩
    obtain ⟨hnone, hkeep⟩ := feedByte_noise hp hw hb
    have hidle : trailingSync [b] = [] ∨ trailingSync [b] = [SYNC_BYTE_1] := by
      unfold trailingSync
      split
      · exact .inr rfl
      · exact .inl rfl
    -- what is pending now is the last byte of what has been fed, if anything
    obtain ⟨front, hfront⟩ : ∃ front, w ++ [b] = front ++ trailingSync [b] := by
      unfold trailingSync
      split
      · next hlast => exact ⟨w, by simpa using hlast⟩
      · exact ⟨w ++ [b], (List.append_nil _).symm⟩
    have hsplit : w ++ b :: bs = front ++ (trailingSync [b] ++ bs) := by
      rw [← List.append_assoc, ← hfront, List.append_assoc]
      rfl
    have hno' : NoSync (trailingSync [b] ++ bs) := by
      intro hin
      rw [hsplit] at hno
      exact hno (hin.trans (List.suffix_append front _).isInfix)
    obtain ⟨hempty, hdone⟩ := ih hkeep hidle hno'
    rw [feed_cons, hnone, hempty]
    refine ⟨rfl, ?_⟩
    rw [trailingSync_trailingSync_append] at hdone
    rw [trailingSync_append w (List.cons_ne_nil b bs)]
    exact hdone

/-! ### Frames between noise -/

/-- A frame is recognised right after noise, whatever the noise has left pending. -/
theorem feed_frameBytes_of_noise {payload : List UInt8} (hfits : Fits maxPayload payload)
    (hp : Pending p w) (hw : w = [] ∨ w = [SYNC_BYTE_1]) :
    (p.feed (frameBytes payload)).2 = [payload] ∧ Pending (p.feed (frameBytes payload)).1 [] := by
  -- after the first sync byte the two cases are one
  have hsync : SYNC_BYTE_1 ≠ SYNC_BYTE_2 := by decide
  obtain ⟨hnone, hkeep⟩ := feedByte_noise hp hw (b := SYNC_BYTE_1) fun _ => hsync
  obtain ⟨bs, hbs⟩ : ∃ bs, frameBytes payload = SYNC_BYTE_1 :: bs := ⟨_, rfl⟩
  have hwhole : [SYNC_BYTE_1] ++ bs = frameBytes payload := hbs.symm
  obtain ⟨hone, hdone⟩ := feed_completes hfits hkeep hwhole
  rw [hbs, feed_cons, hnone, hone]
  exact ⟨rfl, hdone⟩

/-- Noise, and then for each item the frame of its payload and more noise. -/
def noisyStream (cap : ℕ) (noise : List UInt8) (items : List (List UInt8 × List UInt8)) :
    List UInt8 :=
  noise ++ (items.map fun x => encode x.1 cap ++ x.2).flatten

/-- The noise behind the last frame. -/
def lastNoise (noise : List UInt8) : List (List UInt8 × List UInt8) → List UInt8
  | [] => noise
  | x :: items => lastNoise x.2 items

/-- The length of all noise. -/
def noiseTotal (noise : List UInt8) (items : List (List UInt8 × List UInt8)) : ℕ :=
  noise.length + (items.map fun x => x.2.length).sum

variable {noise : List UInt8} {items : List (List UInt8 × List UInt8)} {cap : ℕ}

/-- The frames of the items are encoded as they should be, and what is between them is noise. -/
def GoodItems (maxPayload cap : ℕ) (items : List (List UInt8 × List UInt8)) : Prop :=
  ∀ x ∈ items, Fits maxPayload x.1 ∧ encode x.1 cap = frameBytes x.1 ∧ NoSync x.2

theorem length_noisyStream (h : GoodItems maxPayload cap items) :
    (noisyStream cap noise items).length
      = noiseTotal noise items + frameBytesTotal (items.map Prod.fst) := by
  induction items generalizing noise with
  | nil => simp [noisyStream, noiseTotal, frameBytesTotal]
  | cons x items ih =>
    have hrest : (noisyStream cap x.2 items).length
        = noiseTotal x.2 items + frameBytesTotal (items.map Prod.fst) :=
      ih fun y hy => h y (List.mem_cons_of_mem x hy)
    have hframe := (h x List.mem_cons_self).2.1
    unfold noisyStream noiseTotal frameBytesTotal at hrest ⊢
    rw [List.length_append] at hrest
    simp only [List.map_cons, List.flatten_cons, List.length_append, List.sum_cons, hframe,
      length_frameBytes]
    omega

/-- **The payloads come out in order**, and the noise does not matter. -/
theorem feed_noisyStream (hp : Pending p []) (hnoise : NoSync noise)
    (h : GoodItems maxPayload cap items) :
    (p.feed (noisyStream cap noise items)).2 = items.map Prod.fst ∧
      Pending (p.feed (noisyStream cap noise items)).1 (trailingSync (lastNoise noise items)) := by
  induction items generalizing p noise with
  | nil =>
    have hstream : noisyStream cap noise [] = noise := List.append_nil noise
    rw [hstream]
    exact feed_noise hp (.inl rfl) hnoise
  | cons x items ih =>
    obtain ⟨hfits, hencode, hbehind⟩ := h x List.mem_cons_self
    have hstream : noisyStream cap noise (x :: items)
        = noise ++ (frameBytes x.1 ++ noisyStream cap x.2 items) := by
      unfold noisyStream
      rw [List.map_cons, List.flatten_cons, hencode, List.append_assoc]
    have hidle : trailingSync noise = [] ∨ trailingSync noise = [SYNC_BYTE_1] := by
      unfold trailingSync
      split
      · exact .inr rfl
      · exact .inl rfl
    -- noise yields no frame, and leaves a sync byte at most
    obtain ⟨hempty, hquiet⟩ := feed_noise hp (.inl rfl) hnoise
    obtain ⟨hone, hdone⟩ := feed_frameBytes_of_noise hfits hquiet hidle
    obtain ⟨hrest, hend⟩ := ih hdone hbehind fun y hy => h y (List.mem_cons_of_mem x hy)
    rw [hstream, feed_append, feed_append, hempty, hone, hrest]
    exact ⟨rfl, hend⟩

/-- **A stream of frames with noise in between.** However it is cut into calls, a fresh parser hands
over exactly the payloads, in order, has counted them, and has dropped all of the noise but a sync
byte at its end, which is pending. -/
theorem noisy_stream_decoded (maxPayload cap : ℕ) (noise : List UInt8)
    (items : List (List UInt8 × List UInt8)) (hnoise : NoSync noise)
    (hitems : ∀ x ∈ items, x.1.length ≤ MAX_PAYLOAD_BYTES ∧ x.1.length ≤ maxPayload ∧
      FRAME_HEADER_BYTES + x.1.length ≤ cap ∧ NoSync x.2)
    (pieces : List (List UInt8)) (hpieces : pieces.flatten = noisyStream cap noise items) :
    (({} : Parser maxPayload).feedAll pieces).2 = items.map Prod.fst ∧
    (({} : Parser maxPayload).feedAll pieces).1.framesDecoded = UInt64.ofNat items.length ∧
    Pending (({} : Parser maxPayload).feedAll pieces).1 (trailingSync (lastNoise noise items)) ∧
    ∃ dropped : ℕ,
      (({} : Parser maxPayload).feedAll pieces).1.bytesDropped = UInt64.ofNat dropped ∧
      dropped + (trailingSync (lastNoise noise items)).length = noiseTotal noise items := by
  have hgood : GoodItems maxPayload cap items := by
    intro x hx
    obtain ⟨hmax, hroom, hcap, hbehind⟩ := hitems x hx
    have hlt : x.1.length < 2 ^ 16 := lt_of_le_of_lt hmax (by decide)
    exact ⟨⟨hroom, hlt⟩, encode_eq hmax hcap, hbehind⟩
  rw [feedAll_eq, hpieces]
  obtain ⟨hframes, hpending⟩ := feed_noisyStream pending_new hnoise hgood
  obtain ⟨w', d, hp', hdropped, hdecoded, hsum⟩ :=
    feed_accounts (p := ({} : Parser maxPayload)) pending_new (noisyStream cap noise items)
  -- both descriptions of the end are of the same pending bytes
  obtain rfl := hp'.unique hpending
  rw [hframes] at hdecoded hsum
  rw [List.length_map] at hdecoded
  refine ⟨hframes, ?_, hpending, d, ?_, ?_⟩
  · rw [hdecoded]
    exact UInt64.zero_add _
  · rw [hdropped]
    exact UInt64.zero_add _
  · rw [length_noisyStream hgood, List.length_nil] at hsum
    omega

/-- Noise that ends in a sync byte, a frame, and noise again; cut behind the first sync byte. -/
theorem noise_before_frame :
    (({} : Parser 2).feedAll [[0x00, 0xA5], [0xA5, 0x5A, 0x01, 0x00, 0x07, 0x11]]).2 = [[0x07]] :=
  (noisy_stream_decoded 2 5 [0x00, 0xA5] [([0x07], [0x11])] (by decide) (by decide)
    [[0x00, 0xA5], [0xA5, 0x5A, 0x01, 0x00, 0x07, 0x11]] (by decide)).1

end SerialFraming

end MithAtomas
