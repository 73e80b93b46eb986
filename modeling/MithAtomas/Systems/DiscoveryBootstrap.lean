import MithAtomas.Systems.DiscoverySystem

/-!
# Bootstrap

A `DiscoverySystem` from its construction on: ticks with any table, and messages that arrive in
between. `tick_of_active` and `tick_of_bootstrapping` are what a tick does; a message only counts
and answers (`frame_handleMessage`).

How long a system has been at it and how often it has said hello are invariants of its runs
(`Bootstraps`). It is active from the first tick on whose table is large enough or that reaches the
timeout, provided that the count of the entries, which has 32 bits, does not hide a table that is
large enough (`active_iff_promoted`).
-/

namespace MithAtomas

namespace DiscoverySystem

/-! ### One tick, one message -/

section Tick

variable {F : Type} [Scalar F] {auth : Option SignatureScheme} {sys : DiscoverySystem F}
  (identity : HierarchicalID) (keypair : Option IdentityKeyPair) (messageTransport : Option Channel)
  (entries : List (Entry F)) (deltaTime : F)

/-- **An active system** does nothing but look up its id. -/
theorem tick_of_active (h : sys.state = .active) :
    sys.tick auth identity keypair messageTransport entries deltaTime
      = ({ sys with selfId := sys.capture identity }, []) := by
  obtain ⟨selfId, params, state⟩ := sys
  cases h
  unfold tick capture
  by_cases hnil : selfId.unitId.isNil = true
  · simp [hnil]
  · simp [hnil]

/-- A tick ends the bootstrap. -/
def Promotes (sys : DiscoverySystem F) (entries : List (Entry F)) (deltaTime : F) : Prop :=
  sys.params.bootstrapQuorum ≤ UInt32.ofNat entries.length ∨
    sys.params.bootstrapTimeoutS ≤ sys.timeInBootstrapS + deltaTime

instance (sys : DiscoverySystem F) (deltaTime : F) : Decidable (sys.Promotes entries deltaTime) :=
  inferInstanceAs (Decidable (_ ∨ _))

/-- **A system that is bootstrapping.** -/
theorem tick_of_bootstrapping (h : sys.state = .bootstrapping) :
    (sys.tick auth identity keypair messageTransport entries deltaTime).1
      = { sys with
          selfId := sys.capture identity
          state := if sys.Promotes entries deltaTime then .active else .bootstrapping
          peersSeen := UInt32.ofNat entries.length
          timeInBootstrapS := sys.timeInBootstrapS + deltaTime
          timeSinceLastHelloS :=
            if sys.HelloDue messageTransport deltaTime then 0
            else sys.timeSinceLastHelloS + deltaTime
          hellosSent :=
            if sys.HelloDue messageTransport deltaTime then sys.hellosSent + 1
            else sys.hellosSent } := by
  obtain ⟨selfId, params, state, peersSeen, time, sinceHello⟩ := sys
  cases h
  unfold tick capture HelloDue Promotes
  -- the tick's four questions: the id, the hello, the quorum and the timeout
  by_cases hnil : selfId.unitId.isNil = true <;>
  by_cases hdue : 0 < params.helloPeriodS ∧ params.helloPeriodS ≤ sinceHello + deltaTime ∧
    usable messageTransport = true <;>
  by_cases hquorum : params.bootstrapQuorum ≤ UInt32.ofNat entries.length <;>
  by_cases htimeout : params.bootstrapTimeoutS ≤ time + deltaTime <;>
  simp [hnil, hdue, hquorum, htimeout]

end Tick

/-- The systems differ in ids and counters at most, and not in the count of hellos. -/
structure SameBootstrap {F : Type} (sys sys' : DiscoverySystem F) : Prop where
  params : sys'.params = sys.params
  state : sys'.state = sys.state
  time : sys'.timeInBootstrapS = sys.timeInBootstrapS
  sinceHello : sys'.timeSinceLastHelloS = sys.timeSinceLastHelloS
  hellosSent : sys'.hellosSent = sys.hellosSent

/-- **A message** leaves the bootstrap alone. -/
theorem sameBootstrap_handleMessage {F : Type} [Scalar F] (auth : Option SignatureScheme)
    (keypair : Option IdentityKeyPair) (messageTransport : Option Channel) (inbox : Inbox F)
    (m : Message F) :
    SameBootstrap inbox.sys (handleMessage auth keypair messageTransport inbox m).1.sys := by
  unfold handleMessage
  split
  · split <;> exact ⟨rfl, rfl, rfl, rfl, rfl⟩
  · split <;> exact ⟨rfl, rfl, rfl, rfl, rfl⟩

end DiscoverySystem

/-! ### Runs -/

/-- What a tick of `DiscoverySystem` finds. -/
structure DiscoveryTick where
  identity : HierarchicalID
  keypair : Option IdentityKeyPair
  messageTransport : Option Channel
  entries : List (Entry ℚ)
  deltaTime : ℚ

inductive DiscoveryEvent where
  | tick (t : DiscoveryTick)
  /-- the router calls the handler -/
  | message (keys : PeerKeyRegistry) (keypair : Option IdentityKeyPair)
      (messageTransport : Option Channel) (m : Message ℚ)

/-- A system, and all that it has sent. -/
structure DiscoveryRun where
  sys : DiscoverySystem ℚ
  sent : List (Message ℚ) := []

namespace DiscoveryRun

open DiscoverySystem

variable (auth : Option SignatureScheme)

def next (r : DiscoveryRun) : DiscoveryEvent → DiscoveryRun
  | .tick t =>
    let (sys, sent) :=
      r.sys.tick auth t.identity t.keypair t.messageTransport t.entries t.deltaTime
    { sys, sent := r.sent ++ sent }
  | .message keys keypair messageTransport m =>
    let inbox := (handleMessage auth keypair messageTransport ⟨r.sys, keys, []⟩ m).1
    { sys := inbox.sys, sent := r.sent ++ inbox.sent }

/-- The run of a system that has been constructed with `params`. -/
def run (params : Params ℚ) (es : List DiscoveryEvent) : DiscoveryRun :=
  es.foldl (next auth) { sys := { params, timeInBootstrapS := 0, timeSinceLastHelloS := 0 } }

/-- The hellos that have been sent. -/
def hellos (r : DiscoveryRun) : ℕ :=
  r.sent.countP fun m => m.type = messages.DISCOVERY_HELLO

end DiscoveryRun

/-- The ticks among the events. -/
def ticks (es : List DiscoveryEvent) : List DiscoveryTick :=
  es.filterMap fun
    | .tick t => some t
    | .message .. => none

/-- One of the ticks had a table of at least `bootstrap_quorum` entries, or came when the ticks had
taken `bootstrap_timeout_s`. -/
def Promoted (params : DiscoverySystem.Params ℚ) (ts : List DiscoveryTick) : Prop :=
  ∃ ts' t, ts' ++ [t] <+: ts ∧ (params.bootstrapQuorum.toNat ≤ t.entries.length ∨
    params.bootstrapTimeoutS ≤ ((ts' ++ [t]).map DiscoveryTick.deltaTime).sum)

/-- The system is still bootstrapping, and the tick's table is large enough; then so is the count of
its entries, which has 32 bits, or the timeout has been reached. -/
def Counted (sys : DiscoverySystem ℚ) (t : DiscoveryTick) : Prop :=
  sys.state = .bootstrapping → sys.params.bootstrapQuorum.toNat ≤ t.entries.length →
    sys.params.bootstrapQuorum ≤ UInt32.ofNat t.entries.length ∨
      sys.params.bootstrapTimeoutS ≤ sys.timeInBootstrapS + t.deltaTime

section

variable {params : DiscoverySystem.Params ℚ} {ts : List DiscoveryTick} {t : DiscoveryTick}

theorem not_promoted_nil : ¬ Promoted params [] := by
  rintro ⟨ts', t, hprefix, -⟩
  exact absurd (List.prefix_nil.mp hprefix) (by simp)

/-- One more tick. -/
theorem promoted_concat : Promoted params (ts ++ [t]) ↔ Promoted params ts ∨
    params.bootstrapQuorum.toNat ≤ t.entries.length ∨
      params.bootstrapTimeoutS ≤ ((ts ++ [t]).map DiscoveryTick.deltaTime).sum := by
  constructor
  · rintro ⟨ts', t', hprefix, hreason⟩
    rcases List.prefix_concat_iff.mp hprefix with heq | hprefix
    · obtain ⟨rfl, hlast⟩ := List.append_inj' heq rfl
      obtain rfl : t' = t := List.head_eq_of_cons_eq hlast
      exact .inr hreason
    · exact .inl ⟨ts', t', hprefix, hreason⟩
  · rintro (⟨ts', t', hprefix, hreason⟩ | hreason)
    · exact ⟨ts', t', hprefix.trans (List.prefix_append ts [t]), hreason⟩
    · exact ⟨ts, t, List.prefix_rfl, hreason⟩

end

/-! ### What holds of every run -/

namespace DiscoveryRun

open DiscoverySystem

variable {auth : Option SignatureScheme} {params : Params ℚ} {r : DiscoveryRun}
  {es : List DiscoveryEvent}

theorem run_concat (auth : Option SignatureScheme) (params : Params ℚ) (es : List DiscoveryEvent)
    (e : DiscoveryEvent) : run auth params (es ++ [e]) = (run auth params es).next auth e :=
  List.foldl_concat _ _ _ _

/-- The hellos of a tick. -/
theorem hellos_next_tick (auth : Option SignatureScheme) (r : DiscoveryRun) (t : DiscoveryTick) :
    (r.next auth (.tick t)).hellos
      = r.hellos + if r.sys.HelloDue t.messageTransport t.deltaTime then 1 else 0 := by
  show (r.sent ++ (r.sys.tick auth _ _ _ _ _).2).countP _ = _
  rw [List.countP_append, sent_tick]
  split
  · simp [hellos]
  · rfl

/-- A message is not answered with a hello. -/
theorem hellos_next_message (auth : Option SignatureScheme) (r : DiscoveryRun)
    (keys : PeerKeyRegistry) (keypair : Option IdentityKeyPair) (messageTransport : Option Channel)
    (m : Message ℚ) : (r.next auth (.message keys keypair messageTransport m)).hellos =
      r.hellos := by
  show (r.sent ++ (handleMessage auth keypair messageTransport _ m).1.sent).countP _ = _
  rw [List.countP_append, sent_handleMessage]
  have hdiffer : messages.DISCOVERY_WELCOME ≠ messages.DISCOVERY_HELLO := by decide
  split
  · simp [hellos, hdiffer]
  · rfl

/-- **The bootstrap so far**, after the events `es`. -/
structure Bootstraps (params : Params ℚ) (r : DiscoveryRun) (es : List DiscoveryEvent) : Prop where
  sameParams : r.sys.params = params
  time : r.sys.state = .bootstrapping →
    r.sys.timeInBootstrapS = ((ticks es).map DiscoveryTick.deltaTime).sum
  hellosSent : r.sys.hellosSent = UInt64.ofNat r.hellos
  /-- the hellos have taken a period each -/
  bounded : 0 < params.helloPeriodS → (∀ t ∈ ticks es, 0 ≤ t.deltaTime) →
    0 ≤ r.sys.timeSinceLastHelloS ∧
      r.hellos * params.helloPeriodS + r.sys.timeSinceLastHelloS ≤ r.sys.timeInBootstrapS
  disabled : ¬ 0 < params.helloPeriodS → r.hellos = 0

/-- Nothing has happened to the bootstrap. -/
theorem Bootstraps.of_same (h : Bootstraps params r es) {r' : DiscoveryRun}
    {es' : List DiscoveryEvent} (hsame : SameBootstrap r.sys r'.sys)
    (hhellos : r'.hellos = r.hellos)
    (hticks : ticks es <+: ticks es')
    (hboot : r.sys.state = .bootstrapping → ticks es' = ticks es) : Bootstraps params r' es' where
  sameParams := hsame.params.trans h.sameParams
  time hstate := by
    rw [hsame.state] at hstate
    rw [hsame.time, hboot hstate]
    exact h.time hstate
  hellosSent := by
    rw [hsame.hellosSent, hhellos]
    exact h.hellosSent
  bounded hperiod hticks' := by
    rw [hsame.sinceHello, hsame.time, hhellos]
    exact h.bounded hperiod fun t ht => hticks' t (hticks.subset ht)
  disabled hperiod := hhellos.trans (h.disabled hperiod)

/-- A tick of a system that is bootstrapping. -/
theorem Bootstraps.tick (h : Bootstraps params r es) (hboot : r.sys.state = .bootstrapping)
    (t : DiscoveryTick) :
    Bootstraps params (r.next auth (.tick t)) (es ++ [.tick t]) := by
  have hhellos := hellos_next_tick auth r t
  have hticks : ticks (es ++ [.tick t]) = ticks es ++ [t] := by simp [ticks]
  have hsys : (r.next auth (.tick t)).sys = _ :=
    tick_of_bootstrapping t.identity t.keypair t.messageTransport t.entries t.deltaTime hboot
  refine ⟨?_, ?_, ?_, ?_, ?_⟩
  · rw [hsys]
    exact h.sameParams
  · -- the tick's time is added, also if it ends the bootstrap
    intro _
    rw [hsys, hticks, List.map_append, List.sum_append, ← h.time hboot]
    simp
  · rw [hsys, hhellos]
    show (if r.sys.HelloDue t.messageTransport t.deltaTime then r.sys.hellosSent + 1
      else r.sys.hellosSent) = _
    split
    · rw [h.hellosSent, UInt64.ofNat_add]
      rfl
    · exact h.hellosSent
  · intro hperiod hnonneg
    rw [hticks] at hnonneg
    obtain ⟨hsince, hsum⟩ := h.bounded hperiod fun t ht => hnonneg t (List.mem_append_left _ ht)
    have hdt := hnonneg t (List.mem_append_right _ (List.mem_singleton_self t))
    rw [hsys, hhellos]
    show 0 ≤ (if r.sys.HelloDue t.messageTransport t.deltaTime then 0
        else r.sys.timeSinceLastHelloS + t.deltaTime) ∧
      _ + (if r.sys.HelloDue t.messageTransport t.deltaTime then 0
        else r.sys.timeSinceLastHelloS + t.deltaTime) ≤ r.sys.timeInBootstrapS + t.deltaTime
    by_cases hdue : r.sys.HelloDue t.messageTransport t.deltaTime
    · -- the period has passed since the last one
      have hpassed : params.helloPeriodS ≤ r.sys.timeSinceLastHelloS + t.deltaTime := by
        rw [← h.sameParams]
        exact hdue.2.2.1
      rw [if_pos hdue, if_pos hdue]
      refine ⟨le_rfl, ?_⟩
      push_cast
      linarith
    · rw [if_neg hdue, if_neg hdue, Nat.add_zero]
      exact ⟨add_nonneg hsince hdt, by linarith⟩
  · -- a period that is not positive turns the hellos off
    intro hperiod
    have hnot : ¬ r.sys.HelloDue t.messageTransport t.deltaTime := fun hdue =>
      hperiod (h.sameParams ▸ hdue.2.1)
    rw [hhellos, if_neg hnot]
    exact h.disabled hperiod

/-- **Once active, always active**; and then nothing of the bootstrap changes. -/
theorem sameBootstrap_of_active (auth : Option SignatureScheme) (hactive : r.sys.state = .active)
    (e : DiscoveryEvent) :
    SameBootstrap r.sys (r.next auth e).sys ∧ (r.next auth e).hellos = r.hellos := by
  cases e with
  | message keys keypair messageTransport m =>
    exact ⟨sameBootstrap_handleMessage auth keypair messageTransport ⟨r.sys, keys, []⟩ m,
      hellos_next_message auth r keys keypair messageTransport m⟩
  | tick t =>
    have hnot : ¬ r.sys.HelloDue t.messageTransport t.deltaTime := fun hdue => hdue.1 hactive
    have hhellos := hellos_next_tick auth r t
    rw [if_neg hnot, Nat.add_zero] at hhellos
    refine ⟨?_, hhellos⟩
    show SameBootstrap r.sys (r.sys.tick auth _ _ _ _ _).1
    rw [tick_of_active _ _ _ _ _ hactive]
    exact ⟨rfl, rfl, rfl, rfl, rfl⟩

/-- **Every event** keeps it. -/
theorem Bootstraps.next (h : Bootstraps params r es) (e : DiscoveryEvent) :
    Bootstraps params (r.next auth e) (es ++ [e]) := by
  cases e with
  | message keys keypair messageTransport m =>
    have hticks : ticks (es ++ [.message keys keypair messageTransport m]) = ticks es := by
      simp [ticks]
    refine h.of_same ?_ (hellos_next_message auth r keys keypair messageTransport m) ?_ fun _ =>
      hticks
    · exact sameBootstrap_handleMessage auth keypair messageTransport ⟨r.sys, keys, []⟩ m
    · rw [hticks]
  | tick t =>
    cases hstate : r.sys.state with
    | bootstrapping => exact h.tick hstate t
    | active =>
      obtain ⟨hsame, hhellos⟩ := sameBootstrap_of_active auth hstate (.tick t)
      refine h.of_same hsame hhellos ?_ fun hboot => nomatch hstate.symm.trans hboot
      simp [ticks]

theorem bootstraps_run (auth : Option SignatureScheme) (params : Params ℚ)
    (es : List DiscoveryEvent) : Bootstraps params (run auth params es) es := by
  induction es using List.reverseRecOn with
  | nil => exact ⟨rfl, fun _ => rfl, rfl, fun _ _ => ⟨le_rfl, by simp [run, hellos]⟩, fun _ => rfl⟩
  | append_singleton es e ih =>
    rw [run_concat]
    exact ih.next e

/-- **The hellos sent** are at most one for each period. -/
theorem Bootstraps.hellos_le (h : Bootstraps params r es) (hperiod : 0 < params.helloPeriodS)
    (hticks : ∀ t ∈ ticks es, 0 ≤ t.deltaTime) :
    (r.hellos : ℤ) ≤ ⌊r.sys.timeInBootstrapS / params.helloPeriodS⌋ := by
  obtain ⟨hsince, hsum⟩ := h.bounded hperiod hticks
  rw [Int.le_floor, le_div_iff₀ hperiod]
  push_cast
  linarith

/-! ### Activation -/

/-- **A tick activates** a system that is bootstrapping if the count or the time says so. -/
theorem active_next_tick (hboot : r.sys.state = .bootstrapping) (t : DiscoveryTick) :
    (r.next auth (.tick t)).sys.state = .active ↔ r.sys.Promotes t.entries t.deltaTime := by
  have hsys : (r.next auth (.tick t)).sys = _ :=
    tick_of_bootstrapping t.identity t.keypair t.messageTransport t.entries t.deltaTime hboot
  rw [hsys]
  show (if r.sys.Promotes t.entries t.deltaTime then DiscoveryState.active else .bootstrapping)
    = .active ↔ _
  split
  · next hpromotes => exact iff_of_true rfl hpromotes
  · next hstays => exact iff_of_false nofun hstays

theorem sameBootstrap_run (es' : List DiscoveryEvent)
    (hactive : (run auth params es).sys.state = .active) :
    SameBootstrap (run auth params es).sys (run auth params (es ++ es')).sys ∧
      (run auth params (es ++ es')).hellos = (run auth params es).hellos := by
  induction es' using List.reverseRecOn with
  | nil =>
    rw [List.append_nil]
    exact ⟨⟨rfl, rfl, rfl, rfl, rfl⟩, rfl⟩
  | append_singleton es' e ih =>
    obtain ⟨hsame, hhellos⟩ := ih
    obtain ⟨hnext, hhellos'⟩ := sameBootstrap_of_active auth (hsame.state.trans hactive) e
    rw [← List.append_assoc, run_concat]
    exact ⟨⟨hnext.params.trans hsame.params, hnext.state.trans hsame.state,
      hnext.time.trans hsame.time, hnext.sinceHello.trans hsame.sinceHello,
      hnext.hellosSent.trans hsame.hellosSent⟩, hhellos'.trans hhellos⟩

/-- The tick that comes next promotes the ticks up to it, as far as the table and the time go. -/
theorem promotes_iff (hboot : (run auth params es).sys.state = .bootstrapping) {t : DiscoveryTick}
    (hcounted : Counted (run auth params es).sys t) :
    (run auth params es).sys.Promotes t.entries t.deltaTime ↔
      params.bootstrapQuorum.toNat ≤ t.entries.length ∨
        params.bootstrapTimeoutS ≤ ((ticks es ++ [t]).map DiscoveryTick.deltaTime).sum := by
  have hI := bootstraps_run auth params es
  have hsum : ((ticks es ++ [t]).map DiscoveryTick.deltaTime).sum
      = (run auth params es).sys.timeInBootstrapS + t.deltaTime := by
    rw [List.map_append, List.sum_append, hI.time hboot]
    simp
  have hcount := hcounted hboot
  rw [hI.sameParams] at hcount
  rw [hsum, Promotes, hI.sameParams]
  constructor
  · rintro (hquorum | htimeout)
    · -- the count is at most the number of the entries
      have hle : params.bootstrapQuorum.toNat ≤ (UInt32.ofNat t.entries.length).toNat := hquorum
      have hmod : (UInt32.ofNat t.entries.length).toNat ≤ t.entries.length := Nat.mod_le _ _
      exact .inl (hle.trans hmod)
    · exact .inr htimeout
  · rintro (hlarge | htimeout)
    · exact hcount hlarge
    · exact .inr htimeout

/-- **When a system is active**: from the first tick with a large enough table or at the timeout, if
and only if no tick's count hides a table that is large enough. -/
theorem active_iff_promoted (auth : Option SignatureScheme) (params : Params ℚ)
    (es : List DiscoveryEvent) :
    (∀ es', es' <+: es →
      ((run auth params es').sys.state = .active ↔ Promoted params (ticks es'))) ↔
      ∀ es' t, es' ++ [.tick t] <+: es → Counted (run auth params es').sys t := by
  have hticks : ∀ es' t, ticks (es' ++ [.tick t]) = ticks es' ++ [t] := fun es' t => by simp [ticks]
  constructor
  · intro hall es' t hprefix hboot hlarge
    rw [(bootstraps_run auth params es').sameParams] at hlarge
    have hpromoted : Promoted params (ticks (es' ++ [.tick t])) := by
      rw [hticks, promoted_concat]
      exact .inr (.inl hlarge)
    have hactive := (hall _ hprefix).mpr hpromoted
    rw [run_concat] at hactive
    exact (active_next_tick hboot t).mp hactive
  · -- by induction on the events, so that the ticks before this one need not be looked at
    intro hcounted es' hprefix
    induction es' using List.reverseRecOn with
    | nil => exact iff_of_false nofun not_promoted_nil
    | append_singleton es' e ih =>
      have hbefore := ih ((List.prefix_append es' [e]).trans hprefix)
      rw [run_concat]
      cases e with
      | message keys keypair messageTransport m =>
        have hsame := sameBootstrap_handleMessage auth keypair messageTransport
          ⟨(run auth params es').sys, keys, []⟩ m
        have hnone : ticks (es' ++ [.message keys keypair messageTransport m]) = ticks es' := by
          simp [ticks]
        rw [hnone, ← hbefore]
        exact Eq.congr_left hsame.state
      | tick t =>
        rw [hticks, promoted_concat, ← hbefore]
        cases hstate : (run auth params es').sys.state with
        | active =>
          refine iff_of_true ?_ (.inl rfl)
          exact (sameBootstrap_of_active auth hstate (.tick t)).1.state.trans hstate
        | bootstrapping =>
          have hnot : ¬ DiscoveryState.bootstrapping = .active := nofun
          rw [active_next_tick hstate, promotes_iff hstate (hcounted es' t hprefix),
            or_iff_right hnot]

end DiscoveryRun

end MithAtomas
