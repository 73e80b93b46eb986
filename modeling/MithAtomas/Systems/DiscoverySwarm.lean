import MithAtomas.Comms.NeighbourTableHistory
import MithAtomas.Framework.Runs
import MithAtomas.Systems.DiscoveryBootstrap

/-!
# Bootstrap in a swarm

Any number of `DiscoverySystem`s on a medium that makes finitely many copies of what is sent, for
whom it likes, and delivers them in any order. A welcome is not answered, and a hello with one
welcome; so once all systems are active, the discovery messages that are still sent are paid for by
the hellos that are still under way (`BootstrapStep.settles`, `settles_of_run`).

`discovery_bootstrap` puts this and the laws of a single system together.
-/


namespace MithAtomas

open Runs DiscoverySystem

/-- The systems, and the copies of messages that are under way, each with its receiver. -/
structure DiscoverySwarm (I : Type) where
  systems : I → DiscoverySystem ℚ
  inFlight : Multiset (I × Message ℚ)
  /-- all that has been sent -/
  sent : List (Message ℚ) := []

inductive BootstrapEvent (I : Type) where
  | tick (i : I) (t : DiscoveryTick)
  | deliver (i : I) (m : Message ℚ)

/-- The medium has made copies of what was sent, and of nothing else. -/
def CopiesOf {I : Type} (sent : List (Message ℚ)) (copies : Multiset (I × Message ℚ)) : Prop :=
  ∀ copy ∈ copies, copy.2 ∈ sent

/-- One event in a swarm. What a system finds in its world, and which copies the medium makes, is
arbitrary. -/
inductive BootstrapStep {I : Type} [DecidableEq I] (auth : Option SignatureScheme) :
    DiscoverySwarm I → BootstrapEvent I → DiscoverySwarm I → Prop
  | tick (s : DiscoverySwarm I) (i : I) (t : DiscoveryTick) {sys : DiscoverySystem ℚ}
      {sent : List (Message ℚ)} (copies : Multiset (I × Message ℚ))
      (htick : (s.systems i).tick auth t.identity t.keypair t.messageTransport t.entries t.deltaTime
        = (sys, sent))
      (hcopies : CopiesOf sent copies) :
      BootstrapStep auth s (.tick i t)
        { systems := Function.update s.systems i sys
          inFlight := s.inFlight + copies
          sent := s.sent ++ sent }
  | deliver (s : DiscoverySwarm I) (i : I) (m : Message ℚ) (rest copies : Multiset (I × Message ℚ))
      (keys : PeerKeyRegistry) (keypair : Option IdentityKeyPair)
      (messageTransport : Option Channel) {inbox : Inbox ℚ}
      (hflight : s.inFlight = (i, m) ::ₘ rest)
      (hhandle : (handleMessage auth keypair messageTransport ⟨s.systems i, keys, []⟩ m).1 = inbox)
      (hcopies : CopiesOf inbox.sent copies) :
      BootstrapStep auth s (.deliver i m)
        { systems := Function.update s.systems i inbox.sys
          inFlight := rest + copies
          sent := s.sent ++ inbox.sent }

namespace DiscoverySwarm

variable {I : Type}

def AllActive (s : DiscoverySwarm I) : Prop :=
  ∀ i, (s.systems i).state = .active

/-- The hellos under way. -/
def hellosInFlight (s : DiscoverySwarm I) : ℕ :=
  s.inFlight.countP fun copy => copy.2.type = messages.DISCOVERY_HELLO

end DiscoverySwarm

/-- Without a hello among what was sent, there is none among the copies. -/
theorem CopiesOf.countP_hello {I : Type} {sent : List (Message ℚ)}
    {copies : Multiset (I × Message ℚ)}
    (h : CopiesOf sent copies) (hnone : ∀ m ∈ sent, m.type ≠ messages.DISCOVERY_HELLO) :
    copies.countP (fun copy => copy.2.type = messages.DISCOVERY_HELLO) = 0 :=
  Multiset.countP_eq_zero.mpr fun copy hcopy => hnone copy.2 (h copy hcopy)

section

variable {I : Type} [DecidableEq I] {auth : Option SignatureScheme} {s s' : DiscoverySwarm I}
  {e : BootstrapEvent I}

/-- **A welcome is not answered**, whatever the state of its receiver. -/
theorem BootstrapStep.sent_of_welcome {i : I} {m : Message ℚ}
    (h : BootstrapStep auth s (.deliver i m) s') (hwelcome : m.type = messages.DISCOVERY_WELCOME) :
    s'.sent = s.sent := by
  have hdiffer : m.type ≠ messages.DISCOVERY_HELLO := by
    rw [hwelcome]
    decide
  cases h with
  | deliver _ _ rest copies keys keypair messageTransport hflight hhandle hcopies =>
    rw [← hhandle, sent_handleMessage, if_neg fun hhello => hdiffer hhello.1]
    simp

/-- A system that takes the place of an active one and is active. -/
theorem DiscoverySwarm.AllActive.update (hactive : s.AllActive) {i : I} {sys : DiscoverySystem ℚ}
    (hsys : sys.state = .active) (j : I) : (Function.update s.systems i sys j).state = .active := by
  by_cases hj : j = i
  · subst hj
    rw [Function.update_self]
    exact hsys
  · rw [Function.update_of_ne hj]
    exact hactive j

/-- **One event among active systems**: they stay active, and what is sent is paid for by a
hello. -/
theorem BootstrapStep.settles (h : BootstrapStep auth s e s') (hactive : s.AllActive) :
    s'.AllActive ∧ s'.sent.length + s'.hellosInFlight ≤ s.sent.length + s.hellosInFlight := by
  cases h with
  | tick i t copies htick hcopies =>
    rw [tick_of_active _ _ _ _ _ (hactive i), Prod.mk.injEq] at htick
    obtain ⟨rfl, rfl⟩ := htick
    have hcount := hcopies.countP_hello nofun
    refine ⟨hactive.update ?_, ?_⟩
    · exact hactive i
    · -- it sends nothing
      show (s.sent ++ []).length + (s.inFlight + copies).countP _ ≤ _
      rw [Multiset.countP_add, hcount, List.append_nil]
      exact le_rfl
  | @deliver i m rest copies keys keypair messageTransport inbox hflight hhandle hcopies =>
    have hsent := sent_handleMessage auth keypair messageTransport ⟨s.systems i, keys, []⟩ m
    rw [hhandle, List.nil_append] at hsent
    have hdiffer : messages.DISCOVERY_WELCOME ≠ messages.DISCOVERY_HELLO := by decide
    -- what it sends is a welcome, so no hello comes to be under way
    have hcount := hcopies.countP_hello fun m' hm' => by
      rw [hsent] at hm'
      split at hm'
      · rw [List.mem_singleton.mp hm', type_announce]
        exact hdiffer
      · cases hm'
    refine ⟨hactive.update ?_, ?_⟩
    · rw [← hhandle]
      exact (sameBootstrap_handleMessage auth keypair messageTransport
        ⟨s.systems i, keys, []⟩ m).state.trans (hactive i)
    · -- a hello is gone, and a welcome has come for it at most
      have hreply : inbox.sent.length
          ≤ if m.type = messages.DISCOVERY_HELLO then 1 else 0 := by
        rw [hsent]
        by_cases hhello : m.type = messages.DISCOVERY_HELLO
        · rw [if_pos hhello]
          split
          · exact le_rfl
          · exact Nat.zero_le _
        · rw [if_neg fun hboth => hhello hboth.1]
          exact Nat.zero_le _
      unfold DiscoverySwarm.hellosInFlight
      rw [hflight, Multiset.countP_add, hcount, Multiset.countP_cons, List.length_append]
      dsimp only
      omega

/-- **No reply storm.** In a run from active systems on, at most one message is sent for each hello
that was under way. -/
theorem settles_of_run {ls : List (BootstrapEvent I)} (h : Run (BootstrapStep auth) s ls s')
    (hactive : s.AllActive) :
    s'.AllActive ∧ s'.sent.length + s'.hellosInFlight ≤ s.sent.length + s.hellosInFlight :=
  h.invariant (I := fun m => m.AllActive ∧
      m.sent.length + m.hellosInFlight ≤ s.sent.length + s.hellosInFlight)
    (fun _ _ _ hm hstep =>
      ⟨(hstep.settles hm.1).1, (hstep.settles hm.1).2.trans hm.2⟩) ⟨hactive, le_rfl⟩

/-- What has been sent stays sent. -/
theorem sent_prefix_of_run {ls : List (BootstrapEvent I)} (h : Run (BootstrapStep auth) s ls s') :
    s.sent <+: s'.sent :=
  h.invariant (I := fun m => s.sent <+: m.sent) (fun m _ m' hm hstep => by
    cases hstep with
    | tick | deliver => exact hm.trans (List.prefix_append _ _)) List.prefix_rfl

end

/-! ### The laws of the bootstrap -/

open DiscoveryRun

/-- **The laws of one system**, in every state that the events `es` lead through. -/
structure BootstrapLaws (auth : Option SignatureScheme) (params : Params ℚ)
    (es : List DiscoveryEvent) : Prop where
  active : ∀ es', es' <+: es →
    ((run auth params es').sys.state = .active ↔ Promoted params (ticks es'))
  /-- once active, it stays so, sends no hello and leaves its bootstrap time alone -/
  stays : ∀ es' es'', es' ++ es'' <+: es → (run auth params es').sys.state = .active →
    SameBootstrap (run auth params es').sys (run auth params (es' ++ es'')).sys ∧
      (run auth params (es' ++ es'')).hellos = (run auth params es').hellos
  hellosSent : ∀ es', es' <+: es →
    (run auth params es').sys.hellosSent = UInt64.ofNat (run auth params es').hellos
  hellos : ∀ es', es' <+: es → 0 < params.helloPeriodS → (∀ t ∈ ticks es', 0 ≤ t.deltaTime) →
    ((run auth params es').hellos : ℤ)
      ≤ ⌊(run auth params es').sys.timeInBootstrapS / params.helloPeriodS⌋
  disabled : ∀ es', es' <+: es → ¬ 0 < params.helloPeriodS → (run auth params es').hellos = 0

/-- **Bootstrap.** A system obeys its laws in a run if and only if no tick's count of the entries
hides a table that is large enough. In a swarm a welcome is never answered; and from active systems
on, there is at most one message for each hello that is under way, and none if there is no hello. -/
theorem discovery_bootstrap_iff (auth : Option SignatureScheme) (params : Params ℚ) :
    (∀ es, BootstrapLaws auth params es ↔
      ∀ es' t, es' ++ [.tick t] <+: es → Counted (run auth params es').sys t) ∧
    ∀ (I : Type) [DecidableEq I] (s s' : DiscoverySwarm I),
      (∀ i m, m.type = messages.DISCOVERY_WELCOME → BootstrapStep auth s (.deliver i m) s' →
        s'.sent = s.sent) ∧
      (s.AllActive → ∀ ls, Run (BootstrapStep auth) s ls s' →
        s'.AllActive ∧ s'.sent.length + s'.hellosInFlight ≤ s.sent.length + s.hellosInFlight ∧
          (s.hellosInFlight = 0 → s'.sent = s.sent)) := by
  refine ⟨fun es => ⟨fun h => (active_iff_promoted auth params es).mp h.active, fun hcounted => ?_⟩,
    fun I _ s s' => ⟨fun i m hwelcome hstep => hstep.sent_of_welcome hwelcome, ?_⟩⟩
  · exact {
      active := (active_iff_promoted auth params es).mpr hcounted
      stays := fun es' es'' _ hactive => sameBootstrap_run es'' hactive
      hellosSent := fun es' _ => (bootstraps_run auth params es').hellosSent
      hellos := fun es' _ => (bootstraps_run auth params es').hellos_le
      disabled := fun es' _ => (bootstraps_run auth params es').disabled }
  · intro hactive ls hrun
    obtain ⟨hactive', hpaid⟩ := settles_of_run hrun hactive
    refine ⟨hactive', hpaid, fun hnone => ?_⟩
    have hlength : s'.sent.length ≤ s.sent.length := by omega
    exact ((sent_prefix_of_run hrun).eq_of_length_le hlength).symm

/-- A tick of one twentieth of a second, by itself. -/
def soleTick (entries : List (Entry ℚ)) : List DiscoveryEvent :=
  [.tick ⟨⟨1, .nil⟩, none, none, entries, 1 / 20⟩]

/-- A quorum of one, and a tick that finds entries and counts none of them. -/
theorem stays_of_count_zero {entries : List (Entry ℚ)} (hpos : 1 ≤ entries.length)
    (hcount : UInt32.ofNat entries.length = 0) :
    (run none Params.default (soleTick entries)).sys.state = .bootstrapping ∧
      ¬ BootstrapLaws none Params.default (soleTick entries) := by
  have hstays : ¬ (run none Params.default []).sys.Promotes entries (1 / 20) := by
    rintro (hquorum | htimeout)
    · rw [hcount] at hquorum
      exact absurd hquorum (by decide)
    · change ((30 : ℕ) : ℚ) ≤ 0 + 1 / 20 at htimeout
      norm_num at htimeout
  have hboot : (run none (Params.default : Params ℚ) []).sys.state = .bootstrapping := rfl
  have hactive : (run none Params.default (soleTick entries)).sys.state ≠ .active :=
    fun h => hstays ((active_next_tick hboot _).mp h)
  have hpromoted : Promoted Params.default (ticks (soleTick entries)) :=
    ⟨[], _, List.prefix_rfl, .inl hpos⟩
  refine ⟨?_, fun laws => hactive ((laws.active _ List.prefix_rfl).mpr hpromoted)⟩
  cases hstate : (run none Params.default (soleTick entries)).sys.state with
  | bootstrapping => rfl
  | active => exact absurd hstate hactive

/-- 2^32 peers have been heard, and the quorum is one; but the count of the entries is zero, and the
system goes on bootstrapping. -/
theorem crowd_hides_quorum :
    (Params.default : Params ℚ).bootstrapQuorum = 1 ∧
      (crowdedTable .empty (2 ^ 32)).entries.length = 2 ^ 32 ∧
      UInt32.ofNat (crowdedTable .empty (2 ^ 32)).entries.length = 0 ∧
      (run none Params.default (soleTick (crowdedTable .empty (2 ^ 32)).entries)).sys.state
        = .bootstrapping ∧
      ¬ BootstrapLaws none Params.default (soleTick (crowdedTable .empty (2 ^ 32)).entries) := by
  have hn : 2 ^ 32 ≤ 2 ^ 40 := Nat.pow_le_pow_right (by decide) (by decide)
  have hlength := length_crowdedTable .empty hn
  have hpos : 1 ≤ (crowdedTable .empty (2 ^ 32)).entries.length := by
    rw [hlength]
    decide
  have hcount : UInt32.ofNat (crowdedTable .empty (2 ^ 32)).entries.length = 0 := by
    rw [hlength]
    decide
  exact ⟨rfl, hlength, hcount, stays_of_count_zero hpos hcount⟩

end MithAtomas
