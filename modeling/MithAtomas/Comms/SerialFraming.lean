import MithAtomas.Framework.ByteCodec
import MithAtomas.Framework.Ring

/-!
# Framing of a byte stream

`src/comms/serial_framing.cpp`. `encode` puts two sync bytes and a little-endian length in front of
a payload; `Parser.feedByte` is one turn of the decoder's loop, with the frame it hands to the
callback, and `Parser.feed` is the loop.

The decoder is followed through `Pending p w`: the parser `p` has taken the bytes `w` of a frame
that is not complete. One more byte is kept, completes the frame or is dropped with what it does not
fit to (`ByteOutcome`, `feedByte_outcome`). So a parser that is fed the rest of a frame hands over
its payload and has nothing pending (`feed_completes`), and it hands over nothing before the last
byte (`feed_pending`). Neither depends on how the bytes are cut into calls (`feed_append`).
-/

namespace MithAtomas

open ByteCodec

namespace SerialFraming

def SYNC_BYTE_1 : UInt8 := 0xA5
def SYNC_BYTE_2 : UInt8 := 0x5A

/-- Two sync bytes and two length bytes. -/
def FRAME_HEADER_BYTES : ℕ := 4

def MAX_PAYLOAD_BYTES : ℕ := 1500

/-- `encode`; no bytes where the source returns 0. -/
def encode (payload : List UInt8) (cap : ℕ) : List UInt8 :=
  if payload.length > MAX_PAYLOAD_BYTES then []
  else if cap < FRAME_HEADER_BYTES + payload.length then []
  else
    SYNC_BYTE_1 :: SYNC_BYTE_2 :: UInt8.ofNat (payload.length &&& 0xFF) ::
      UInt8.ofNat (payload.length >>> 8 &&& 0xFF) :: payload

/-- `Parser::State`. -/
inductive State
  | waitSync1
  | waitSync2
  | waitLenLo
  | waitLenHi
  | readPayload
  deriving DecidableEq, Repr

/-- `Parser`, with room for payloads of `maxPayload` bytes. -/
structure Parser (maxPayload : ℕ) where
  state : State := .waitSync1
  expectedLen : UInt16 := 0
  filled : UInt16 := 0
  buffer : Vector UInt8 maxPayload := Vector.replicate maxPayload 0
  framesDecoded : UInt64 := 0
  bytesDropped : UInt64 := 0
  deriving DecidableEq, Repr

namespace Parser

variable {maxPayload : ℕ}

def reset (p : Parser maxPayload) : Parser maxPayload :=
  { p with state := .waitSync1, expectedLen := 0, filled := 0 }

/-- The body of `feed`'s loop: the parser after the byte, and what the callback is given. -/
def feedByte (p : Parser maxPayload) (b : UInt8) : Parser maxPayload × Option (List UInt8) :=
  match p.state with
  | .waitSync1 =>
    if b = SYNC_BYTE_1 then ({ p with state := .waitSync2 }, none)
    else ({ p with bytesDropped := p.bytesDropped + 1 }, none)
  | .waitSync2 =>
    if b = SYNC_BYTE_2 then ({ p with state := .waitLenLo }, none)
    -- could be the start of a new frame; stay open
    else if b = SYNC_BYTE_1 then ({ p with bytesDropped := p.bytesDropped + 1 }, none)
    else ({ p with state := .waitSync1, bytesDropped := p.bytesDropped + 2 }, none)
  | .waitLenLo => ({ p with expectedLen := b.toUInt16, state := .waitLenHi }, none)
  | .waitLenHi =>
    let p : Parser maxPayload := { p with expectedLen := p.expectedLen ||| (b.toUInt16 <<< 8) }
    if p.expectedLen.toNat > maxPayload then
      -- oversize: drop the frame header and resync
      ({ p with bytesDropped := p.bytesDropped + UInt64.ofNat FRAME_HEADER_BYTES }.reset, none)
    else if p.expectedLen = 0 then
      -- zero-length frame: emit immediately
      ({ p with framesDecoded := p.framesDecoded + 1 }.reset, some [])
    else ({ p with filled := 0, state := .readPayload }, none)
  | .readPayload =>
    let p : Parser maxPayload :=
      { p with buffer := p.buffer.setIfInBounds p.filled.toNat b, filled := p.filled + 1 }
    if p.filled = p.expectedLen then
      ({ p with framesDecoded := p.framesDecoded + 1 }.reset,
        some (p.buffer.toList.take p.filled.toNat))
    else (p, none)

/-- `feed`: the parser after the bytes, and the frames handed to the callback, in order. -/
def feed (p : Parser maxPayload) : List UInt8 → Parser maxPayload × List (List UInt8)
  | [] => (p, [])
  | b :: bs =>
    let (p', frame) := p.feedByte b
    let (p'', frames) := feed p' bs
    (p'', frame.toList ++ frames)

end Parser

/-! ### Calls -/

variable {maxPayload : ℕ} {p : Parser maxPayload}

theorem feed_cons (b : UInt8) (bs : List UInt8) : p.feed (b :: bs)
    = (((p.feedByte b).1.feed bs).1, (p.feedByte b).2.toList ++ ((p.feedByte b).1.feed bs).2) :=
  rfl

/-- Feeding does not depend on where the stream is cut. -/
theorem feed_append (bs bs' : List UInt8) : p.feed (bs ++ bs')
    = (((p.feed bs).1.feed bs').1, (p.feed bs).2 ++ ((p.feed bs).1.feed bs').2) := by
  induction bs generalizing p with
  | nil => rfl
  | cons b bs ih =>
    rw [List.cons_append, feed_cons, feed_cons, ih, List.append_assoc]

/-! ### Encoded frames -/

/-- The bytes of a frame: what `encode` writes when it has room. -/
def frameBytes (payload : List UInt8) : List UInt8 :=
  SYNC_BYTE_1 :: SYNC_BYTE_2 :: (u16.put (UInt16.ofNat payload.length) ++ payload)

@[simp] theorem length_frameBytes (payload : List UInt8) :
    (frameBytes payload).length = FRAME_HEADER_BYTES + payload.length := by
  unfold frameBytes FRAME_HEADER_BYTES
  rw [List.length_cons, List.length_cons, List.length_append, u16.length_put,
    show u16.width = 2 from rfl]
  omega

theorem encode_eq {payload : List UInt8} {cap : ℕ} (hlen : payload.length ≤ MAX_PAYLOAD_BYTES)
    (hcap : FRAME_HEADER_BYTES + payload.length ≤ cap) :
    encode payload cap = frameBytes payload := by
  have hlen' : payload.length ≤ 1500 := hlen
  have hmod : payload.length % 2 ^ 16 = payload.length := Nat.mod_eq_of_lt (by omega)
  -- the two length bytes are those of the 16-bit length
  have hlo : UInt8.ofNat (payload.length &&& 0xFF) = (UInt16.ofNat payload.length).toUInt8 := by
    apply UInt8.toNat_inj.mp
    show (payload.length &&& 0xFF) % 2 ^ 8 = payload.length % 2 ^ 16 % 2 ^ 8
    rw [hmod, show 0xFF = 2 ^ 8 - 1 from rfl, Nat.and_two_pow_sub_one_eq_mod, Nat.mod_mod]
  have hhi : UInt8.ofNat (payload.length >>> 8 &&& 0xFF)
      = (UInt16.ofNat payload.length >>> 8).toUInt8 := by
    apply UInt8.toNat_inj.mp
    show (payload.length >>> 8 &&& 0xFF) % 2 ^ 8 = (payload.length % 2 ^ 16) >>> 8 % 2 ^ 8
    rw [hmod, show 0xFF = 2 ^ 8 - 1 from rfl, Nat.and_two_pow_sub_one_eq_mod, Nat.mod_mod]
  unfold encode
  rw [if_neg (not_lt.mpr hlen), if_neg (not_lt.mpr hcap), hlo, hhi]
  rfl

/-! ### Incomplete frames -/

/-- The parser has taken the bytes `w` of a frame that is not complete. -/
def Pending (p : Parser maxPayload) (w : List UInt8) : Prop :=
  match p.state with
  | .waitSync1 => w = []
  | .waitSync2 => w = [SYNC_BYTE_1]
  | .waitLenLo => w = [SYNC_BYTE_1, SYNC_BYTE_2]
  | .waitLenHi => ∃ lo, w = [SYNC_BYTE_1, SYNC_BYTE_2, lo] ∧ p.expectedLen = lo.toUInt16
  | .readPayload =>
    ∃ done, w = SYNC_BYTE_1 :: SYNC_BYTE_2 :: (u16.put p.expectedLen ++ done) ∧
      done = p.buffer.toList.take p.filled.toNat ∧
      p.filled < p.expectedLen ∧ p.expectedLen.toNat ≤ maxPayload

theorem pending_nil : Pending p [] ↔ p.state = .waitSync1 := by
  unfold Pending
  cases hs : p.state <;> simp

theorem pending_reset (p : Parser maxPayload) : Pending p.reset [] :=
  pending_nil.mpr rfl

/-- A fresh parser has nothing pending. -/
theorem pending_new : Pending ({} : Parser maxPayload) [] :=
  pending_nil.mpr rfl

/-- The payloads a parser accepts. -/
def Fits (maxPayload : ℕ) (payload : List UInt8) : Prop :=
  payload.length ≤ maxPayload ∧ payload.length < 2 ^ 16

variable {payload payload' w rest : List UInt8}

theorem toNat_length (h : Fits maxPayload payload) :
    (UInt16.ofNat payload.length).toNat = payload.length :=
  Nat.mod_eq_of_lt h.2

/-- No encoded frame is the beginning of another. -/
theorem frameBytes_prefix_free (h : Fits maxPayload payload) (h' : Fits maxPayload payload')
    (heq : frameBytes payload ++ rest = frameBytes payload') : payload = payload' ∧ rest = [] := by
  have hput : u16.put (UInt16.ofNat payload.length) ++ (payload ++ rest)
      = u16.put (UInt16.ofNat payload'.length) ++ payload' := by
    rw [← List.append_assoc]
    exact List.tail_eq_of_cons_eq (List.tail_eq_of_cons_eq heq)
  have hlen : payload.length = payload'.length := by
    rw [← toNat_length h, ← toNat_length h', ← u16.get_put (UInt16.ofNat payload.length), hput,
      u16.get_put]
  rw [hlen] at hput
  have hrest : payload ++ rest = payload' := List.append_cancel_left hput
  have hnil : rest = [] := by
    rw [← List.length_eq_zero_iff]
    have := congrArg List.length hrest
    rw [List.length_append] at this
    omega
  rw [hnil, List.append_nil] at hrest
  exact ⟨hrest, hnil⟩

/-- A pending frame is not complete. -/
theorem Pending.ne_frameBytes (hp : Pending p w) (h : Fits maxPayload payload) :
    w ≠ frameBytes payload := by
  intro hw
  unfold Pending at hp
  cases hs : p.state with
  | waitSync1 => rw [hs] at hp; rw [hp] at hw; cases hw
  | waitSync2 => rw [hs] at hp; rw [hp] at hw; cases hw
  | waitLenLo => rw [hs] at hp; rw [hp] at hw; cases hw
  | waitLenHi =>
    rw [hs] at hp
    obtain ⟨lo, hlo, -⟩ := hp
    rw [hlo] at hw
    cases hw
  | readPayload =>
    rw [hs] at hp
    obtain ⟨done, hdone, htake, hlt, hmax⟩ := hp
    rw [hdone] at hw
    have hput : u16.put p.expectedLen ++ done
        = u16.put (UInt16.ofNat payload.length) ++ payload :=
      List.tail_eq_of_cons_eq (List.tail_eq_of_cons_eq hw)
    -- the length in the header is read, so the payload would be complete
    have hlen : p.expectedLen = UInt16.ofNat payload.length := by
      rw [← u16.get_put p.expectedLen, hput, u16.get_put]
    rw [hlen] at hput
    have heq := List.append_cancel_left hput
    have hshort : done.length ≤ p.filled.toNat := by
      rw [htake]
      exact List.length_take_le _ _
    rw [heq, ← toNat_length h, ← hlen] at hshort
    exact absurd (UInt16.lt_iff_toNat_lt.mp hlt) (not_lt.mpr hshort)

/-- The 16-bit length that two bytes stand for, and back. -/
theorem put_length (lo hi : UInt8) :
    u16.put (lo.toUInt16 ||| (hi.toUInt16 <<< 8)) = [lo, hi] :=
  putU16_getU16 lo hi []

/-- What one byte does to a parser that has taken the bytes `w` of a frame, with what the callback
is given. -/
inductive ByteOutcome (p : Parser maxPayload) (w : List UInt8) (b : UInt8)
    (p' : Parser maxPayload) : Option (List UInt8) → Prop
  | kept (hpending : Pending p' (w ++ [b])) (hdropped : p'.bytesDropped = p.bytesDropped)
      (hdecoded : p'.framesDecoded = p.framesDecoded) : ByteOutcome p w b p' none
  | complete {payload : List UInt8} (hfits : Fits maxPayload payload)
      (hframe : w ++ [b] = frameBytes payload) (hpending : Pending p' [])
      (hdropped : p'.bytesDropped = p.bytesDropped)
      (hdecoded : p'.framesDecoded = p.framesDecoded + 1) : ByteOutcome p w b p' (some payload)
  /-- no frame has the byte at this place; `w'` is what can still be the beginning of one -/
  | dropped {w' : List UInt8} (hpending : Pending p' w') (hle : w'.length ≤ w.length + 1)
      (hleft : w' = [] ∨ w' = [b] ∧ b = SYNC_BYTE_1)
      (hdropped : p'.bytesDropped = p.bytesDropped + UInt64.ofNat (w.length + 1 - w'.length))
      (hdecoded : p'.framesDecoded = p.framesDecoded)
      (hno : ∀ payload rest, Fits maxPayload payload → w ++ b :: rest ≠ frameBytes payload) :
      ByteOutcome p w b p' none

/-- **One byte**, in each of the five states. -/
theorem feedByte_outcome (hp : Pending p w) (b : UInt8) :
    ByteOutcome p w b (p.feedByte b).1 (p.feedByte b).2 := by
  obtain ⟨state, expectedLen, filled, buffer, framesDecoded, bytesDropped⟩ := p
  cases state with
  | waitSync1 =>
    obtain rfl : w = [] := hp
    by_cases hb : b = SYNC_BYTE_1
    · simp only [Parser.feedByte, if_pos hb]
      exact .kept (by rw [hb]; rfl) rfl rfl
    · simp only [Parser.feedByte, if_neg hb]
      refine .dropped (show Pending _ [] from pending_nil.mpr rfl) (Nat.zero_le _)
        (.inl rfl) rfl rfl
        ?_
      intro payload rest _ heq
      exact hb (List.head_eq_of_cons_eq heq)
  | waitSync2 =>
    obtain rfl : w = [SYNC_BYTE_1] := hp
    by_cases hb : b = SYNC_BYTE_2
    · simp only [Parser.feedByte, if_pos hb]
      exact .kept (by rw [hb]; rfl) rfl rfl
    · have hno : ∀ payload rest, Fits maxPayload payload →
          [SYNC_BYTE_1] ++ b :: rest ≠ frameBytes payload := by
        intro payload rest _ heq
        exact hb (List.head_eq_of_cons_eq (List.tail_eq_of_cons_eq heq))
      by_cases hb' : b = SYNC_BYTE_1
      · simp only [Parser.feedByte, if_neg hb, if_pos hb']
        have hleft : [SYNC_BYTE_1] = [] ∨ [SYNC_BYTE_1] = [b] ∧ b = SYNC_BYTE_1 :=
          .inr ⟨by rw [hb'], hb'⟩
        exact .dropped (show Pending _ [SYNC_BYTE_1] from rfl) (Nat.le_succ _) hleft rfl rfl hno
      · simp only [Parser.feedByte, if_neg hb, if_neg hb']
        exact .dropped (show Pending _ [] from pending_nil.mpr rfl) (Nat.zero_le _) (.inl rfl) rfl
          rfl hno
  | waitLenLo =>
    obtain rfl : w = [SYNC_BYTE_1, SYNC_BYTE_2] := hp
    exact .kept ⟨b, rfl, rfl⟩ rfl rfl
  | waitLenHi =>
    obtain ⟨lo, rfl, rfl⟩ : ∃ lo, w = [SYNC_BYTE_1, SYNC_BYTE_2, lo] ∧ expectedLen = lo.toUInt16 :=
      hp
    have hput := put_length lo b
    by_cases hbig : (lo.toUInt16 ||| (b.toUInt16 <<< 8)).toNat > maxPayload
    · simp only [Parser.feedByte, if_pos hbig]
      refine .dropped (pending_reset _) (Nat.zero_le _) (.inl rfl) rfl rfl ?_
      -- the length bytes of a frame that fits are those of its payload
      intro payload rest hfits heq
      have hget : lo :: b :: rest = u16.put (UInt16.ofNat payload.length) ++ payload :=
        List.tail_eq_of_cons_eq (List.tail_eq_of_cons_eq heq)
      have hlen : lo.toUInt16 ||| (b.toUInt16 <<< 8) = UInt16.ofNat payload.length := by
        rw [← u16.get_put (UInt16.ofNat payload.length) payload, ← hget]
        rfl
      rw [hlen, toNat_length hfits] at hbig
      exact absurd hbig (not_lt.mpr hfits.1)
    · by_cases hzero : lo.toUInt16 ||| (b.toUInt16 <<< 8) = 0
      · simp only [Parser.feedByte, if_neg hbig, if_pos hzero]
        refine .complete ⟨Nat.zero_le _, by decide⟩ ?_ (pending_reset _) rfl rfl
        rw [hzero] at hput
        show SYNC_BYTE_1 :: SYNC_BYTE_2 :: [lo, b] = SYNC_BYTE_1 :: SYNC_BYTE_2 :: u16.put 0
        rw [hput]
      · have hpos : (0 : UInt16) < lo.toUInt16 ||| (b.toUInt16 <<< 8) :=
          UInt16.pos_iff_ne_zero.mpr hzero
        simp only [Parser.feedByte, if_neg hbig, if_neg hzero]
        refine .kept ⟨[], ?_, rfl, hpos, not_lt.mp hbig⟩ rfl rfl
        rw [List.append_nil, hput]
        rfl
  | readPayload =>
    obtain ⟨done, rfl, hdone, hlt, hmax⟩ : ∃ done,
        w = SYNC_BYTE_1 :: SYNC_BYTE_2 :: (u16.put expectedLen ++ done) ∧
          done = buffer.toList.take filled.toNat ∧ filled < expectedLen ∧
          expectedLen.toNat ≤ maxPayload := hp
    have hlt' := UInt16.lt_iff_toNat_lt.mp hlt
    have hbound := expectedLen.toNat_lt
    have hsucc : (filled + 1).toNat = filled.toNat + 1 := by
      rw [UInt16.toNat_add]
      exact Nat.mod_eq_of_lt (show filled.toNat + 1 < 2 ^ 16 by omega)
    have hin : filled.toNat < buffer.toList.length := by
      rw [Vector.length_toList]
      omega
    have htake : (buffer.setIfInBounds filled.toNat b).toList.take (filled + 1).toNat
        = done ++ [b] := by
      rw [Vector.toList_setIfInBounds, hsucc, Ring.take_set_succ hin, hdone]
    have hlen : (done ++ [b]).length = filled.toNat + 1 := by
      rw [← htake, List.length_take, Vector.length_toList, hsucc]
      omega
    by_cases hlast : filled + 1 = expectedLen
    · have hlast' : filled.toNat + 1 = expectedLen.toNat := by rw [← hlast, hsucc]
      simp only [Parser.feedByte, if_pos hlast, htake]
      refine .complete ⟨by omega, by omega⟩ ?_ (pending_reset _) rfl rfl
      rw [frameBytes, hlen, hlast', UInt16.ofNat_toNat, ← List.append_assoc]
      rfl
    · have hmore : filled + 1 < expectedLen := by
        apply UInt16.lt_iff_toNat_lt.mpr
        have : (filled + 1).toNat ≠ expectedLen.toNat := fun h => hlast (UInt16.toNat_inj.mp h)
        omega
      simp only [Parser.feedByte, if_neg hlast]
      refine .kept ⟨done ++ [b], ?_, htake.symm, hmore, hmax⟩ rfl rfl
      rw [← List.append_assoc]
      rfl

/-- It is kept, it completes a frame, or no frame has it at this place. -/
theorem feedByte_cases (hp : Pending p w) (b : UInt8) :
    ((p.feedByte b).2 = none ∧ Pending (p.feedByte b).1 (w ++ [b])) ∨
    (∃ payload, Fits maxPayload payload ∧ w ++ [b] = frameBytes payload ∧
      (p.feedByte b).2 = some payload ∧ Pending (p.feedByte b).1 []) ∨
    ((p.feedByte b).2 = none ∧
      ∀ payload rest, Fits maxPayload payload → w ++ b :: rest ≠ frameBytes payload) := by
  have houtcome := feedByte_outcome hp b
  generalize (p.feedByte b).1 = p', (p.feedByte b).2 = frame at houtcome ⊢
  cases houtcome with
  | kept hpending => exact .inl ⟨rfl, hpending⟩
  | complete hfits hframe hpending => exact .inr (.inl ⟨_, hfits, hframe, rfl, hpending⟩)
  | dropped _ _ _ _ _ hno => exact .inr (.inr ⟨rfl, hno⟩)

/-! ### Frames that are fed -/

/-- What is pending of a frame, before its last byte. -/
theorem feed_pending (hfits : Fits maxPayload payload) {bs : List UInt8} (hp : Pending p w)
    (hrest : rest ≠ []) (hw : w ++ bs ++ rest = frameBytes payload) :
    (p.feed bs).2 = [] ∧ Pending (p.feed bs).1 (w ++ bs) := by
  induction bs generalizing p w with
  | nil =>
    rw [List.append_nil]
    exact ⟨rfl, hp⟩
  | cons b bs ih =>
    have hw' : w ++ [b] ++ (bs ++ rest) = frameBytes payload := by
      rw [← hw]
      simp
    obtain ⟨hnone, hkeep⟩ | ⟨payload', hfits', heq, -, -⟩ | ⟨-, hno⟩ := feedByte_cases hp b
    · obtain ⟨hempty, hpend⟩ := ih hkeep (by rw [← hw', List.append_assoc])
      rw [feed_cons, hnone, hempty]
      refine ⟨rfl, ?_⟩
      rwa [List.append_assoc] at hpend
    · -- the frame would end here, with bytes of it to come
      rw [heq] at hw'
      have hnil := (frameBytes_prefix_free hfits' hfits hw').2
      exact absurd (List.append_eq_nil_iff.mp hnil).2 hrest
    · exact absurd (by rw [← hw]; simp) (hno payload (bs ++ rest) hfits)

/-- **The rest of a frame completes it**: the payload is handed over, and nothing is pending. -/
theorem feed_completes (hfits : Fits maxPayload payload) {bs : List UInt8} (hp : Pending p w)
    (hw : w ++ bs = frameBytes payload) :
    (p.feed bs).2 = [payload] ∧ Pending (p.feed bs).1 [] := by
  obtain rfl | ⟨bs, b, rfl⟩ := List.eq_nil_or_concat' bs
  · rw [List.append_nil] at hw
    exact absurd hw (hp.ne_frameBytes hfits)
  rw [← List.append_assoc] at hw
  obtain ⟨hempty, hpend⟩ := feed_pending hfits hp (by rintro ⟨⟩) hw
  rw [feed_append, hempty]
  obtain ⟨-, hkeep⟩ | ⟨payload', hfits', heq, hsome, hdone⟩ | ⟨-, hno⟩ := feedByte_cases hpend b
  · exact absurd hw (hkeep.ne_frameBytes hfits)
  · rw [hw] at heq
    have hsame : frameBytes payload ++ [] = frameBytes payload' := by
      rw [List.append_nil]
      exact heq
    obtain ⟨rfl, -⟩ := frameBytes_prefix_free hfits hfits' hsame
    refine ⟨?_, hdone⟩
    rw [feed_cons, hsome]
    rfl
  · exact absurd hw (hno payload [] hfits)

/-- **A parser with nothing pending hands over the payload of a frame it is fed.** -/
theorem feed_frameBytes (hfits : Fits maxPayload payload) (hp : Pending p []) :
    (p.feed (frameBytes payload)).2 = [payload] ∧ Pending (p.feed (frameBytes payload)).1 [] :=
  feed_completes hfits hp rfl

/-! ### Streams of frames -/

section Stream

variable {A : Type} (frame : A → List UInt8)

/-- The items whose frames end within the first `n` bytes of the stream of their frames. -/
def fullyRead : List A → ℕ → List A
  | [], _ => []
  | a :: as, n =>
    if (frame a).length ≤ n then a :: fullyRead as (n - (frame a).length) else []

/-- **The beginning of a stream of frames gives the payloads of the frames that are complete.** -/
theorem feed_stream {payload : A → List UInt8} {as : List A} {bs : List UInt8}
    (hfits : ∀ a ∈ as, Fits maxPayload (payload a)) (hp : Pending p [])
    (hbs : bs <+: (as.map fun a => frameBytes (payload a)).flatten) :
    (p.feed bs).2 = (fullyRead (fun a => frameBytes (payload a)) as bs.length).map payload := by
  induction as generalizing p bs with
  | nil =>
    obtain rfl : bs = [] := List.prefix_nil.mp hbs
    rfl
  | cons a as ih =>
    rw [List.map_cons, List.flatten_cons] at hbs
    have ha := hfits a List.mem_cons_self
    rw [fullyRead]
    by_cases hfull : (frameBytes (payload a)).length ≤ bs.length
    · -- the first frame is complete, and its successors are a stream of their own
      obtain ⟨bs', rfl⟩ : frameBytes (payload a) <+: bs :=
        List.prefix_of_prefix_length_le (List.prefix_append _ _) hbs hfull
      have hbs' := (List.prefix_append_right_inj _).mp hbs
      obtain ⟨hone, hdone⟩ := feed_frameBytes ha hp
      rw [if_pos hfull, feed_append, hone,
        ih (fun a' ha' => hfits a' (List.mem_cons_of_mem _ ha')) hdone hbs', List.length_append,
        Nat.add_sub_cancel_left]
      rfl
    · obtain ⟨rest, hrest⟩ : bs <+: frameBytes (payload a) :=
        List.prefix_of_prefix_length_le hbs (List.prefix_append _ _) (by omega)
      have hne : rest ≠ [] := by
        intro hnil
        rw [hnil, List.append_nil] at hrest
        exact hfull (by rw [hrest])
      rw [if_neg hfull, (feed_pending ha hp hne (by rw [List.nil_append, hrest])).1]
      rfl

end Stream

end SerialFraming

end MithAtomas
