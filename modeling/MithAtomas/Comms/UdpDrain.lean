import MithAtomas.Comms.UdpMulticastTransport

/-!
# Polls and arrivals

`drain_socket` calls `recv` once per turn, and datagrams go on arriving meanwhile. `UdpHistory` is
the transport, its socket, the poll that is running, if any, and what has arrived, been received and
been handed over so far; `UdpHistory.next` does one thing at a time. With no arrivals in between,
the turns of a poll are the drain of `UdpMulticastTransport` (`foldl_recv`).

`LosesNothing` says that nothing is lost. It is kept by everything but the receipt of an empty
datagram (`LosesNothing.next`), which ends the drain early and is not counted; so it holds all along
a history if and only if no poll receives one (`udp_drain_iff`).
-/

namespace MithAtomas

open UdpWire UdpMulticastTransport

/-- The two inboxes. -/
inductive UdpChannel where
  | beacons
  | messages
  deriving DecidableEq, Repr

/-- The last poll there was. -/
inductive UdpPoll where
  | none
  | running (channel : UdpChannel)
  | finished (channel : UdpChannel)
  deriving DecidableEq, Repr

inductive SocketEvent where
  | arrive (datagram : List UInt8)
  /-- `poll_beacons` or `poll_messages` is called -/
  | beginPoll (channel : UdpChannel)
  /-- one turn of the loop in `drain_socket`, and the rest of the poll if it is the last one -/
  | recv
  deriving DecidableEq, Repr

/-- The transport, its socket and what has become of the datagrams. -/
structure UdpHistory where
  impl : UdpMulticastTransport
  socket : List (List UInt8) := []
  poll : UdpPoll := .none
  /-- nothing has arrived since the last poll began -/
  quiet : Bool := true
  arrived : List (List UInt8) := []
  received : List (List UInt8) := []
  /-- what `poll_beacons` has returned -/
  beacons : List (StateVector UInt32) := []
  /-- what `poll_messages` has returned -/
  messages : List (Message UInt32) := []
  deriving DecidableEq, Repr

namespace UdpHistory

/-- The end of a poll: it returns the inbox. -/
def handOver (s : UdpHistory) : UdpChannel → UdpHistory
  | .beacons =>
    { s with
      poll := .finished .beacons
      beacons := s.beacons ++ s.impl.inboxBeacons
      impl := { s.impl with inboxBeacons := [] } }
  | .messages =>
    { s with
      poll := .finished .messages
      messages := s.messages ++ s.impl.inboxMessages
      impl := { s.impl with inboxMessages := [] } }

/-- A turn of the loop, in a poll of `channel`. -/
def turn (s : UdpHistory) (channel : UdpChannel) : UdpHistory :=
  match s.socket with
  | [] => s.handOver channel
  | datagram :: socket =>
    let buf := datagram.take MAX_FRAME_BYTES
    let s := { s with socket, received := s.received ++ [datagram] }
    if buf.length = 0 then s.handOver channel
    else { s with impl := s.impl.onDatagram buf }

/-- One event; what cannot happen now does nothing. -/
def next (s : UdpHistory) : SocketEvent → UdpHistory
  | .arrive datagram =>
    { s with socket := s.socket ++ [datagram], arrived := s.arrived ++ [datagram], quiet := false }
  | .beginPoll channel =>
    match s.poll with
    | .running _ => s
    | _ => { s with poll := .running channel, quiet := true }
  | .recv =>
    match s.poll with
    | .running channel => s.turn channel
    | _ => s

/-- A transport that has just been opened under `selfId`. -/
def opened (selfId : HierarchicalID) : UdpHistory where
  impl := { selfId }

def run (selfId : HierarchicalID) (es : List SocketEvent) : UdpHistory :=
  es.foldl next (opened selfId)

theorem run_concat (selfId : HierarchicalID) (es : List SocketEvent) (e : SocketEvent) :
    run selfId (es ++ [e]) = (run selfId es).next e :=
  List.foldl_concat _ _ _ _

/-! ### A poll without arrivals -/

/-- **The turns of a poll** during which nothing arrives are one drain of the socket. -/
theorem foldl_recv (s : UdpHistory) (channel : UdpChannel) (hpoll : s.poll = .running channel) :
    ∃ received, (List.replicate ((readable s.socket).length + 1) SocketEvent.recv).foldl next s
      = { s with
          impl := (s.impl.drainSocket s.socket).1
          socket := (s.impl.drainSocket s.socket).2
          received := s.received ++ received }.handOver channel := by
  generalize hsocket : s.socket = socket
  induction socket generalizing s with
  | nil =>
    refine ⟨[], ?_⟩
    show s.next .recv = _
    unfold next
    simp only [hpoll, turn, hsocket, drainSocket, List.append_nil]
    rw [← hsocket, ← hpoll]
  | cons datagram socket ih =>
    by_cases hempty : datagram.take MAX_FRAME_BYTES = []
    · -- an empty read ends the drain, and the datagram is gone
      have hread : readable (datagram :: socket) = [] := by simp [readable, hempty]
      refine ⟨[datagram], ?_⟩
      rw [hread]
      show s.next .recv = _
      unfold next
      simp [hpoll, turn, hsocket, drainSocket, hempty]
    · have hread : readable (datagram :: socket)
          = datagram.take MAX_FRAME_BYTES :: readable socket := by simp [readable, hempty]
      have hlen : ¬ (datagram.take MAX_FRAME_BYTES).length = 0 := by
        rwa [List.length_eq_zero_iff]
      have hturn : s.next .recv = { s with
          impl := s.impl.onDatagram (datagram.take MAX_FRAME_BYTES)
          socket
          received := s.received ++ [datagram] } := by
        unfold next
        simp only [hpoll, turn, hsocket, if_neg hlen]
      -- one round of the loop, and the rest of it
      obtain ⟨received, hrest⟩ := ih (s.next .recv) (by rw [hturn]; exact hpoll) (by rw [hturn])
      refine ⟨datagram :: received, ?_⟩
      rw [hread, List.length_cons, List.replicate_succ, List.foldl_cons, hrest, hturn, drainSocket]
      simp only [if_neg hlen, List.append_assoc, List.singleton_append]

theorem next_beginPoll {s : UdpHistory} (hidle : ∀ channel, s.poll ≠ .running channel)
    (channel : UdpChannel) :
    s.next (.beginPoll channel) = { s with poll := .running channel, quiet := true } := by
  unfold next
  cases hpoll : s.poll with
  | none | finished => rfl
  | running other => exact absurd hpoll (hidle other)

/-- Without a poll there is no `recv`. -/
theorem next_recv_of_idle {s : UdpHistory} (hidle : ∀ channel, s.poll ≠ .running channel) :
    s.next .recv = s := by
  unfold next
  cases hpoll : s.poll with
  | none | finished => rfl
  | running channel => exact absurd hpoll (hidle channel)

theorem next_recv_of_running {s : UdpHistory} {channel : UdpChannel}
    (hrunning : s.poll = .running channel) : s.next .recv = s.turn channel := by
  unfold next
  simp only [hrunning]

/-- **`poll_beacons`**, if nothing arrives during it. -/
theorem foldl_pollBeacons {s : UdpHistory} (hidle : ∀ channel, s.poll ≠ .running channel) :
    ∃ s' : UdpHistory,
      (.beginPoll .beacons :: List.replicate ((readable s.socket).length + 1)
        SocketEvent.recv).foldl
        next s = s' ∧
      s'.impl = (s.impl.pollBeacons s.socket).1 ∧
      s'.socket = (s.impl.pollBeacons s.socket).2.1 ∧
      s'.beacons = s.beacons ++ (s.impl.pollBeacons s.socket).2.2 := by
  rw [List.foldl_cons, next_beginPoll hidle]
  obtain ⟨received, hturns⟩ := foldl_recv { s with poll := .running .beacons, quiet := true }
    .beacons rfl
  exact ⟨_, hturns, rfl, rfl, rfl⟩

/-- **`poll_messages`**, too. -/
theorem foldl_pollMessages {s : UdpHistory} (hidle : ∀ channel, s.poll ≠ .running channel) :
    ∃ s' : UdpHistory,
      (.beginPoll .messages :: List.replicate ((readable s.socket).length + 1)
        SocketEvent.recv).foldl
        next s = s' ∧
      s'.impl = (s.impl.pollMessages s.socket).1 ∧
      s'.socket = (s.impl.pollMessages s.socket).2.1 ∧
      s'.messages = s.messages ++ (s.impl.pollMessages s.socket).2.2 := by
  rw [List.foldl_cons, next_beginPoll hidle]
  obtain ⟨received, hturns⟩ :=
    foldl_recv { s with poll := .running .messages, quiet := true } .messages rfl
  exact ⟨_, hturns, rfl, rfl, rfl⟩

/-! ### Nothing is lost -/

/-- **Nothing has been lost** so far. -/
structure LosesNothing (selfId : HierarchicalID) (s : UdpHistory) : Prop where
  selfId_eq : s.impl.selfId = selfId
  /-- what has not been received is still pending -/
  order : s.received ++ s.socket = s.arrived
  /-- the beacons of others have been returned, or wait in the inbox -/
  beacons : s.beacons ++ s.impl.inboxBeacons
    = s.received.filterMap fun datagram => foreignBeacon selfId (datagram.take MAX_FRAME_BYTES)
  messages : s.messages ++ s.impl.inboxMessages
    = s.received.filterMap fun datagram => foreignMessage selfId (datagram.take MAX_FRAME_BYTES)
  /-- a poll empties its inbox -/
  inboxBeacons : s.poll = .finished .beacons → s.impl.inboxBeacons = []
  inboxMessages : s.poll = .finished .messages → s.impl.inboxMessages = []
  parseErrors : s.impl.parseErrors = UInt64.ofNat (s.received.countP fun datagram =>
    malformed (datagram.take MAX_FRAME_BYTES))
  /-- a poll during which nothing arrives empties the socket -/
  drained : s.quiet = true → (∀ channel, s.poll ≠ .running channel) → s.socket = []

/-- The next event is not the receipt of an empty datagram. -/
def Guard (s : UdpHistory) (e : SocketEvent) : Prop :=
  e = .recv → (∃ channel, s.poll = .running channel) → s.socket.head? ≠ some []

section

variable {selfId : HierarchicalID} {s : UdpHistory}

theorem LosesNothing.handOver (h : LosesNothing selfId s) (hsocket : s.socket = [])
    (channel : UdpChannel) : LosesNothing selfId (s.handOver channel) := by
  have hparse := h.parseErrors
  cases channel with
  | beacons =>
    refine ⟨h.selfId_eq, h.order, ?_, h.messages, fun _ => rfl, nofun, hparse, fun _ _ => hsocket⟩
    show (s.beacons ++ s.impl.inboxBeacons) ++ [] = _
    rw [List.append_nil]
    exact h.beacons
  | messages =>
    refine ⟨h.selfId_eq, h.order, h.beacons, ?_, nofun, fun _ => rfl, hparse, fun _ _ => hsocket⟩
    show (s.messages ++ s.impl.inboxMessages) ++ [] = _
    rw [List.append_nil]
    exact h.messages

/-- A datagram that is not empty goes where it belongs. -/
theorem LosesNothing.receive (h : LosesNothing selfId s) {channel : UdpChannel}
    (hpoll : s.poll = .running channel) {datagram : List UInt8} {socket : List (List UInt8)}
    (hsocket : s.socket = datagram :: socket) :
    LosesNothing selfId { s with
      impl := s.impl.onDatagram (datagram.take MAX_FRAME_BYTES)
      socket
      received := s.received ++ [datagram] } := by
  rw [onDatagram_eq, h.selfId_eq]
  exact {
    selfId_eq := rfl
    order := by
      show (s.received ++ [datagram]) ++ socket = s.arrived
      rw [← h.order, hsocket, List.append_assoc, List.singleton_append]
    beacons := by
      show s.beacons ++ (s.impl.inboxBeacons ++ _) = _
      rw [← List.append_assoc, h.beacons, List.filterMap_append]
      cases hf : foreignBeacon selfId (datagram.take MAX_FRAME_BYTES) <;> simp [hf]
    messages := by
      show s.messages ++ (s.impl.inboxMessages ++ _) = _
      rw [← List.append_assoc, h.messages, List.filterMap_append]
      cases hf : foreignMessage selfId (datagram.take MAX_FRAME_BYTES) <;> simp [hf]
    -- a poll is running, so none has finished
    inboxBeacons := fun hfinished => nomatch hpoll.symm.trans hfinished
    inboxMessages := fun hfinished => nomatch hpoll.symm.trans hfinished
    parseErrors := by
      show (if malformed (datagram.take MAX_FRAME_BYTES) then s.impl.parseErrors + 1
        else s.impl.parseErrors) = _
      rw [List.countP_append, UInt64.ofNat_add, h.parseErrors]
      by_cases hmalformed : malformed (datagram.take MAX_FRAME_BYTES) = true
      · rw [if_pos hmalformed, List.countP_singleton, if_pos hmalformed]
        rfl
      · rw [if_neg hmalformed, List.countP_singleton, if_neg hmalformed]
        exact (UInt64.add_zero _).symm
    drained := fun _ hidle => absurd hpoll (hidle channel) }

/-- **One event** loses nothing, unless it is the receipt of an empty datagram. -/
theorem LosesNothing.next (h : LosesNothing selfId s) {e : SocketEvent} (hguard : Guard s e) :
    LosesNothing selfId (s.next e) := by
  cases e with
  | arrive datagram =>
    refine ⟨h.selfId_eq, ?_, h.beacons, h.messages, h.inboxBeacons, h.inboxMessages, h.parseErrors,
      nofun⟩
    show s.received ++ (s.socket ++ [datagram]) = s.arrived ++ [datagram]
    rw [← List.append_assoc, h.order]
  | beginPoll channel =>
    by_cases hidle : ∀ other, s.poll ≠ .running other
    · rw [next_beginPoll hidle]
      exact ⟨h.selfId_eq, h.order, h.beacons, h.messages, nofun, nofun, h.parseErrors,
        fun _ hnone => absurd rfl (hnone channel)⟩
    · push Not at hidle
      obtain ⟨other, hrunning⟩ := hidle
      unfold UdpHistory.next
      simp only [hrunning]
      exact h
  | recv =>
    by_cases hidle : ∀ other, s.poll ≠ .running other
    · rw [next_recv_of_idle hidle]
      exact h
    · push Not at hidle
      obtain ⟨channel, hrunning⟩ := hidle
      rw [next_recv_of_running hrunning]
      cases hsocket : s.socket with
      | nil =>
        -- `EAGAIN`: the poll is over
        have hdone : s.turn channel = s.handOver channel := by simp only [turn, hsocket]
        rw [hdone]
        exact h.handOver hsocket channel
      | cons datagram socket =>
        have hhead := hguard rfl ⟨channel, hrunning⟩
        rw [hsocket, List.head?_cons, Ne, Option.some_inj] at hhead
        -- the buffer is not empty, so what is received is empty only if the datagram is
        have hlen : ¬ (datagram.take MAX_FRAME_BYTES).length = 0 := by
          rw [List.length_eq_zero_iff, List.take_eq_nil_iff]
          rintro (hzero | hnil)
          · exact absurd hzero (by decide)
          · exact hhead hnil
        have hmore : s.turn channel = { s with
            impl := s.impl.onDatagram (datagram.take MAX_FRAME_BYTES)
            socket
            received := s.received ++ [datagram] } := by simp only [turn, hsocket, if_neg hlen]
        rw [hmore]
        exact h.receive hrunning hsocket

/-- **An empty datagram** decodes to nothing, and is not counted. -/
theorem LosesNothing.not_next (h : LosesNothing selfId s) {e : SocketEvent} (hguard : ¬ Guard s e) :
    ¬ LosesNothing selfId (s.next e) := by
  unfold Guard at hguard
  push Not at hguard
  obtain ⟨rfl, ⟨channel, hrunning⟩, hhead⟩ := hguard
  obtain ⟨socket, hsocket⟩ : ∃ socket, s.socket = [] :: socket := List.head?_eq_some_iff.mp hhead
  have hturn : s.next .recv
      = { s with socket, received := s.received ++ [[]] }.handOver channel := by
    rw [next_recv_of_running hrunning]
    simp [turn, hsocket]
  rw [hturn]
  -- one more malformed datagram has been received, and the counter is what it was
  intro hnext
  have hcount := hnext.parseErrors
  have hbefore := h.parseErrors
  have hsame : ∀ t : UdpHistory, (t.handOver channel).impl.parseErrors = t.impl.parseErrors ∧
      (t.handOver channel).received = t.received := by
    intro t
    cases channel <;> exact ⟨rfl, rfl⟩
  rw [(hsame _).1, (hsame _).2, List.countP_append, UInt64.ofNat_add, ← hbefore] at hcount
  have hone : UInt64.ofNat ([[]].countP fun datagram : List UInt8 =>
      malformed (datagram.take MAX_FRAME_BYTES)) = 1 := by decide
  rw [hone] at hcount
  exact absurd (left_eq_add.mp hcount) (by decide)

/-- **What a quiet poll returns**, with all that was returned before: everything that arrived. -/
theorem LosesNothing.returned (h : LosesNothing selfId s) (hquiet : s.quiet = true) :
    (s.poll = .finished .beacons → s.beacons = s.arrived.filterMap fun datagram =>
        foreignBeacon selfId (datagram.take MAX_FRAME_BYTES)) ∧
      (s.poll = .finished .messages → s.messages = s.arrived.filterMap fun datagram =>
        foreignMessage selfId (datagram.take MAX_FRAME_BYTES)) := by
  have hall : ∀ channel, s.poll = .finished channel → s.received = s.arrived := by
    intro channel hpoll
    have hsocket : s.socket = [] := h.drained hquiet fun other hrunning =>
      nomatch hpoll.symm.trans hrunning
    have horder := h.order
    rwa [hsocket, List.append_nil] at horder
  constructor
  · intro hpoll
    have hbeacons := h.beacons
    rwa [h.inboxBeacons hpoll, List.append_nil, hall .beacons hpoll] at hbeacons
  · intro hpoll
    have hmessages := h.messages
    rwa [h.inboxMessages hpoll, List.append_nil, hall .messages hpoll] at hmessages

theorem losesNothing_opened (selfId : HierarchicalID) : LosesNothing selfId (opened selfId) :=
  ⟨rfl, rfl, rfl, rfl, nofun, nofun, rfl, fun _ _ => rfl⟩

end

end UdpHistory

open UdpHistory in
/-- **A history loses nothing all along** if and only if no poll receives an empty datagram. -/
theorem udp_drain_iff (selfId : HierarchicalID) (es : List SocketEvent) :
    (∀ es', es' <+: es → LosesNothing selfId (run selfId es')) ↔
      ∀ es' e, es' ++ [e] <+: es → Guard (run selfId es') e := by
  constructor
  · intro hall es' e hprefix
    by_contra hguard
    have hbefore := hall es' ((List.prefix_append es' [e]).trans hprefix)
    refine hbefore.not_next hguard ?_
    rw [← run_concat]
    exact hall (es' ++ [e]) hprefix
  · intro hguards es'
    induction es' using List.reverseRecOn with
    | nil => exact fun _ => losesNothing_opened selfId
    | append_singleton es' e ih =>
      intro hprefix
      rw [run_concat]
      exact (ih ((List.prefix_append es' [e]).trans hprefix)).next (hguards es' e hprefix)

open UdpHistory in
/-- Robot 1 has an empty datagram in its socket, and behind it a beacon of robot 2. `poll_beacons`
takes the first one, counts no error and returns nothing; the beacon stays where it is. -/
theorem empty_datagram_ends_drain :
    let self : HierarchicalID := { unitId := ⟨Vector.replicate 16 1⟩ }
    let other : HierarchicalID := { unitId := ⟨Vector.replicate 16 2⟩ }
    let beacon := encodeBeacon { (.empty : StateVector UInt32) with id := other } MAX_FRAME_BYTES
    let s := run self [.arrive [], .arrive beacon, .beginPoll .beacons, .recv]
    s.poll = .finished .beacons ∧ s.quiet = true ∧ s.socket = [beacon] ∧ s.beacons = [] ∧
      s.impl.parseErrors = 0 ∧ ¬ LosesNothing self s := by
  refine ⟨rfl, rfl, rfl, rfl, rfl, fun h => ?_⟩
  have hdrained : [_] = [] := h.drained rfl nofun
  cases hdrained

end MithAtomas
