import MithAtomas.Comms.SerialTransport
import MithAtomas.Comms.Transport
import MithAtomas.Framework.Runs

/-!
# Two serial transports on one line

A `Link` is a transport that sends, the byte queue, and a transport that reads. A poll of the peer
is some reads followed by handing over one inbox (`pollBeacons_run`, `pollMessages_run`); sends,
single reads and hand-overs happen here in any order (`Call`), and a read may end anywhere in a
frame.

`Tracks` is the invariant: the peer's parser is where the bytes read have brought it, and what each
channel has handed over and still holds is what the frames among those bytes carry. With the frames
of a stream known (`feed_stream`), every channel has exactly its packets.
-/

namespace MithAtomas

open SerialFraming UdpWire Runs

namespace Packet

/-- The bytes of a packet on the line. -/
def frame (p : Packet UInt32) : List UInt8 :=
  frameBytes p.datagram

/-- `send_beacon` or `send_message`. -/
def sendOn (p : Packet UInt32) (impl : SerialTransport) : Option (SerialTransport × List UInt8) :=
  match p with
  | beacon sv => impl.sendBeacon sv
  | message msg => impl.sendMessage msg

end Packet

/-- One transport sending to another. The last four fields are the history of the run: the calls
to send, the bytes read, and the results of the polls. -/
structure Link where
  sender : SerialTransport := {}
  wire : List UInt8 := []
  peer : SerialTransport := {}
  sent : List (Packet UInt32) := []
  received : List UInt8 := []
  polledBeacons : List (StateVector UInt32) := []
  polledMessages : List (Message UInt32) := []
  deriving DecidableEq, Repr

/-- What the two sides do. -/
inductive Call
  | send (p : Packet UInt32)
  /-- a read of the peer's `drain_fd` that returns `n` bytes -/
  | read (n : ℕ)
  /-- the end of `poll_beacons` -/
  | handOverBeacons
  /-- the end of `poll_messages` -/
  | handOverMessages
  deriving DecidableEq, Repr

namespace Link

/-- A call, if it can happen: a read returns bytes that are there, and no more than it asked for. -/
def exec (l : Link) : Call → Option Link
  | .send p =>
    match p.sendOn l.sender with
    | some (sender, bytes) =>
      some { l with sender := sender, wire := l.wire ++ bytes, sent := l.sent ++ [p] }
    | none => some { l with sent := l.sent ++ [p] }
  | .read n =>
    if 0 < n ∧ n ≤ SerialTransport.READ_BYTES ∧ n ≤ l.wire.length then
      some { l with
        wire := l.wire.drop n
        peer := l.peer.drainStep (l.wire.take n)
        received := l.received ++ l.wire.take n }
    else none
  | .handOverBeacons =>
    let (peer, out) := l.peer.takeBeacons
    some { l with peer := peer, polledBeacons := l.polledBeacons ++ out }
  | .handOverMessages =>
    let (peer, out) := l.peer.takeMessages
    some { l with peer := peer, polledMessages := l.polledMessages ++ out }

def Step (l : Link) (c : Call) (l' : Link) : Prop :=
  l.exec c = some l'

/-! ### The invariant -/

variable {l l' : Link}

/-- The frames among the bytes that have been read. -/
def frames (l : Link) : List (List UInt8) :=
  (Parser.feed ({} : Parser MAX_PAYLOAD_BYTES) l.received).2

/-- The peer is where the bytes read have brought it. -/
structure Tracks (l : Link) : Prop where
  stream : l.received ++ l.wire = (l.sent.map Packet.frame).flatten
  parser : l.peer.parser = (Parser.feed ({} : Parser MAX_PAYLOAD_BYTES) l.received).1
  beacons : l.polledBeacons ++ l.peer.inboxBeacons = l.frames.filterMap beaconOf
  messages : l.polledMessages ++ l.peer.inboxMessages
    = l.frames.filterMap messageOf
  errors : l.peer.parseErrors = UInt64.ofNat (l.frames.countP malformed)

theorem tracks_init : Tracks {} where
  stream := rfl
  parser := rfl
  beacons := rfl
  messages := rfl
  errors := rfl

/-! ### Steps -/

/-- A call to send puts the packet's frame on the line. -/
theorem step_send {p : Packet UInt32} (h : Step l (.send p) l') : ∃ sender, l' =
    { l with sender := sender, wire := l.wire ++ p.frame, sent := l.sent ++ [p] } := by
  have hsend : ∃ sender, p.sendOn l.sender = some (sender, p.frame) := by
    cases p with
    | beacon sv => exact SerialTransport.sendBeacon_eq l.sender sv
    | message msg => exact SerialTransport.sendMessage_eq l.sender msg
  obtain ⟨sender, hsender⟩ := hsend
  simp only [Step, exec, hsender] at h
  exact ⟨sender, (Option.some.inj h).symm⟩

/-- A read takes bytes off the line. -/
theorem step_read {n : ℕ} (h : Step l (.read n) l') : l' =
    { l with
      wire := l.wire.drop n
      peer := l.peer.drainStep (l.wire.take n)
      received := l.received ++ l.wire.take n } := by
  simp only [Step, exec] at h
  split at h
  · exact (Option.some.inj h).symm
  · cases h

theorem tracks_read {n : ℕ} (h : Tracks l) (hstep : Step l (.read n) l') : Tracks l' := by
  obtain rfl := step_read hstep
  have hfeed := feed_append (p := ({} : Parser MAX_PAYLOAD_BYTES)) l.received (l.wire.take n)
  rw [← h.parser] at hfeed
  -- the parser goes on where it stopped
  have hframes : (Parser.feed ({} : Parser MAX_PAYLOAD_BYTES) (l.received ++ l.wire.take n)).2
      = l.frames ++ (l.peer.parser.feed (l.wire.take n)).2 := by
    rw [hfeed]
    rfl
  have hpeer := SerialTransport.drainStep_eq l.peer (l.wire.take n)
  constructor
  · show l.received ++ l.wire.take n ++ l.wire.drop n = _
    rw [List.append_assoc, List.take_append_drop]
    exact h.stream
  · show (l.peer.drainStep _).parser = (Parser.feed {} (l.received ++ _)).1
    rw [hpeer, hfeed]
  · show l.polledBeacons ++ (l.peer.drainStep _).inboxBeacons = List.filterMap _ (frames _)
    unfold frames
    rw [hpeer, hframes, List.filterMap_append, ← h.beacons, List.append_assoc]
  · show l.polledMessages ++ (l.peer.drainStep _).inboxMessages = List.filterMap _ (frames _)
    unfold frames
    rw [hpeer, hframes, List.filterMap_append, ← h.messages, List.append_assoc]
  · show (l.peer.drainStep _).parseErrors = UInt64.ofNat (List.countP _ (frames _))
    unfold frames
    rw [hpeer, hframes, List.countP_append, UInt64.ofNat_add, ← h.errors]

/-- **One step.** -/
theorem tracks_step {c : Call} (h : Tracks l) (hstep : Step l c l') : Tracks l' := by
  cases c with
  | send p =>
    obtain ⟨sender, rfl⟩ := step_send hstep
    -- the bytes read, and so everything the peer has, are as before
    refine ⟨?_, h.parser, h.beacons, h.messages, h.errors⟩
    show l.received ++ (l.wire ++ p.frame) = ((l.sent ++ [p]).map Packet.frame).flatten
    rw [← List.append_assoc, h.stream, List.map_append, List.flatten_append, List.map_singleton,
      List.flatten_singleton]
  | read n => exact tracks_read h hstep
  | handOverBeacons =>
    obtain rfl := Option.some.inj hstep
    refine ⟨h.stream, h.parser, ?_, h.messages, h.errors⟩
    show l.polledBeacons ++ l.peer.inboxBeacons ++ [] = _
    rw [List.append_nil]
    exact h.beacons
  | handOverMessages =>
    obtain rfl := Option.some.inj hstep
    refine ⟨h.stream, h.parser, h.beacons, ?_, h.errors⟩
    show l.polledMessages ++ l.peer.inboxMessages ++ [] = _
    rw [List.append_nil]
    exact h.messages

/-- The frames among the bytes read are those of the packets that have been read completely. -/
theorem Tracks.frames_eq (h : Tracks l) :
    l.frames = (fullyRead Packet.frame l.sent l.received.length).map Packet.datagram := by
  have hfits : ∀ p ∈ l.sent, Fits MAX_PAYLOAD_BYTES (Packet.datagram p) := by
    rintro (sv | msg) -
    · exact SerialTransport.fits_encodeBeacon sv
    · exact SerialTransport.fits_encodeMessage msg
  exact feed_stream hfits pending_new ⟨l.wire, h.stream⟩

/-! ### Polls -/

/-- What the reads of a `drain_fd` return: some bytes each, at most `READ_BYTES`. -/
def IsRead (r : List UInt8) : Prop :=
  r ≠ [] ∧ r.length ≤ SerialTransport.READ_BYTES

variable {reads : List (List UInt8)} {rest : List UInt8}

/-- `drain_fd` is its reads, one after the other. -/
theorem drainFd_run (hreads : ∀ r ∈ reads, IsRead r) (hwire : l.wire = reads.flatten ++ rest) :
    Run Step l (reads.map fun r => .read r.length)
      { l with
        wire := rest
        peer := l.peer.drainFd reads
        received := l.received ++ reads.flatten } := by
  -- on the reads: each is one step of the line
  induction reads generalizing l with
  | nil =>
    rw [List.flatten_nil, List.append_nil]
    obtain rfl : l.wire = rest := hwire
    exact Run.nil
  | cons r reads ih =>
    obtain ⟨hne, hmax⟩ := hreads r List.mem_cons_self
    rw [List.flatten_cons, List.append_assoc] at hwire
    have hlen : r.length ≤ l.wire.length := by
      rw [hwire, List.length_append]
      exact Nat.le_add_right _ _
    have hguard : 0 < r.length ∧ r.length ≤ SerialTransport.READ_BYTES ∧
        r.length ≤ l.wire.length := ⟨List.length_pos_iff.mpr hne, hmax, hlen⟩
    have hstep : Step l (.read r.length)
        { l with
          wire := reads.flatten ++ rest
          peer := l.peer.drainStep r
          received := l.received ++ r } := by
      simp only [Step, exec, if_pos hguard]
      rw [hwire, List.drop_left, List.take_left]
    have hrest := ih (fun r' hr' => hreads r' (List.mem_cons_of_mem _ hr'))
      (l := { l with
        wire := reads.flatten ++ rest
        peer := l.peer.drainStep r
        received := l.received ++ r }) rfl
    rw [List.flatten_cons, ← List.append_assoc]
    exact (Run.single hstep).trans hrest

/-- **A call of `poll_beacons`** is its reads and the hand-over of the beacons. -/
theorem pollBeacons_run (hreads : ∀ r ∈ reads, IsRead r)
    (hwire : l.wire = reads.flatten ++ rest) :
    Run Step l (reads.map (fun r => .read r.length) ++ [.handOverBeacons])
      { l with
        wire := rest
        peer := (l.peer.pollBeacons reads).1
        received := l.received ++ reads.flatten
        polledBeacons := l.polledBeacons ++ (l.peer.pollBeacons reads).2 } :=
  (drainFd_run hreads hwire).snoc rfl

/-- **A call of `poll_messages`** is its reads and the hand-over of the messages. -/
theorem pollMessages_run (hreads : ∀ r ∈ reads, IsRead r)
    (hwire : l.wire = reads.flatten ++ rest) :
    Run Step l (reads.map (fun r => .read r.length) ++ [.handOverMessages])
      { l with
        wire := rest
        peer := (l.peer.pollMessages reads).1
        received := l.received ++ reads.flatten
        polledMessages := l.polledMessages ++ (l.peer.pollMessages reads).2 } :=
  (drainFd_run hreads hwire).snoc rfl

/-! ### Runs -/

/-- **Nothing is lost, duplicated, reordered or routed to the wrong channel.** -/
theorem serial_link_faithful {cs : List Call} (h : Run Step {} cs l) :
    l.polledBeacons ++ l.peer.inboxBeacons
      = (fullyRead Packet.frame l.sent l.received.length).filterMap Packet.beacon? ∧
    l.polledMessages ++ l.peer.inboxMessages
      = (fullyRead Packet.frame l.sent l.received.length).filterMap Packet.message? ∧
    l.peer.parseErrors = 0 := by
  have htracks : Tracks l := h.invariant (fun _ _ _ => tracks_step) tracks_init
  refine ⟨?_, ?_, ?_⟩
  · rw [htracks.beacons, htracks.frames_eq, filterMap_beaconOf]
  · rw [htracks.messages, htracks.frames_eq, filterMap_messageOf]
  · rw [htracks.errors, htracks.frames_eq, countP_malformed]
    rfl

/-- A beacon and a message, read in two pieces that do not end where a frame does. -/
theorem beacon_and_message_link : ∃ l,
    [Call.send (.beacon .empty), .send (.message .empty), .read 100, .handOverBeacons, .read 249,
      .handOverBeacons].foldlM exec {} = some l ∧
    l.polledBeacons ++ l.peer.inboxBeacons
      = (fullyRead Packet.frame l.sent l.received.length).filterMap Packet.beacon? ∧
    l.polledMessages ++ l.peer.inboxMessages
      = (fullyRead Packet.frame l.sent l.received.length).filterMap Packet.message? ∧
    l.peer.parseErrors = 0 := by
  have hrun : ([Call.send (.beacon .empty), .send (.message .empty), .read 100, .handOverBeacons,
      .read 249, .handOverBeacons].foldlM exec {}).isSome = true := by
    decide +kernel
  obtain ⟨l, hl⟩ := Option.isSome_iff_exists.mp hrun
  exact ⟨l, hl, serial_link_faithful (Run.of_foldlM (fun h => h) hl)⟩

end Link

end MithAtomas
