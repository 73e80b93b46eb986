import MithAtomas.Core.World
import MithAtomas.Framework.Runs

/-!
# Registering systems

`World::register_system` takes an object that has been constructed before, and destroys it when its
name is already in use (`DuplicateName`). Of the shipped systems the constructor of
`DiscoverySystem` does more than to set fields: it appends a message handler, with `this` captured,
to the world's list. Nothing takes a handler out of that list again.

A run of `RegistrationStep` constructs objects and passes them on, in any order. `untraced_iff` says
when a rejected registration leaves no trace in it: if no second `DiscoverySystem` is constructed.
What `BeaconSystem` does with a handler list is `dispatch`, with an outcome only if no handler that
is asked belongs to a destroyed object.
-/

namespace MithAtomas

open Runs

/-- `enum class SchedulerStatus`. -/
inductive SchedulerStatus where
  | ok
  | duplicateName
  | alreadyBuilt
  deriving DecidableEq, Repr

/-- An object of a shipped system. -/
structure SystemObject where
  object : ℕ
  system : ShippedSystem
  deriving DecidableEq, Repr

/-- The scheduler and the handler list of a world, and the objects constructed for it. -/
structure SystemRegistration where
  systems : List SystemObject := []
  built : Bool := false
  /-- the `this` of each handler -/
  messageHandlers : List SystemObject := []
  constructed : List SystemObject := []
  /-- those that have not been passed to `register_system` -/
  pending : List SystemObject := []
  deriving DecidableEq, Repr

namespace SystemRegistration

variable (s : SystemRegistration)

/-- The constructors: `DiscoverySystem`'s calls `register_message_handler`. -/
def construct (o : SystemObject) : SystemRegistration :=
  { s with
    messageHandlers :=
      if o.system = .discovery then s.messageHandlers ++ [o] else s.messageHandlers
    constructed := s.constructed ++ [o]
    pending := s.pending ++ [o] }

/-- `SystemScheduler::register_system`; the object is gone when it is not stored. -/
def registerSystem (o : SystemObject) : SystemRegistration × SchedulerStatus :=
  let pending := s.pending.filter (· ≠ o)
  if ∃ existing ∈ s.systems, existing.system.describe.name = o.system.describe.name then
    ({ s with pending }, .duplicateName)
  else ({ s with built := false, systems := s.systems ++ [o], pending }, .ok)

/-- `SystemScheduler::build_graph`, called by `World::init`. -/
def buildGraph : SystemRegistration × SchedulerStatus :=
  if s.built then (s, .alreadyBuilt) else ({ s with built := true }, .ok)

end SystemRegistration

inductive RegistrationLabel where
  | construct (o : SystemObject)
  | registerSystem (o : SystemObject) (status : SchedulerStatus)
  | buildGraph (status : SchedulerStatus)
  deriving DecidableEq, Repr

/-- The call is for `o`. -/
def RegistrationLabel.IsFor (o : SystemObject) : RegistrationLabel → Prop
  | construct o' | registerSystem o' _ => o' = o
  | buildGraph _ => False

instance (o : SystemObject) : DecidablePred (RegistrationLabel.IsFor o)
  | .construct o' => inferInstanceAs (Decidable (o' = o))
  | .registerSystem o' _ => inferInstanceAs (Decidable (o' = o))
  | .buildGraph _ => inferInstanceAs (Decidable False)

/-- The call constructs a `DiscoverySystem`. -/
def RegistrationLabel.MakesDiscovery : RegistrationLabel → Bool
  | construct o => o.system = .discovery
  | _ => false

/-- Every object is constructed once, and passed on after that. -/
inductive RegistrationStep (s : SystemRegistration) : RegistrationLabel → SystemRegistration → Prop
  | construct {o : SystemObject} (hnew : o ∉ s.constructed) :
      RegistrationStep s (.construct o) (s.construct o)
  | registerSystem {o : SystemObject} (hpending : o ∈ s.pending) :
      RegistrationStep s (.registerSystem o (s.registerSystem o).2) (s.registerSystem o).1
  | buildGraph : RegistrationStep s (.buildGraph s.buildGraph.2) s.buildGraph.1

/-! ### The handlers at work -/

variable {F : Type} [FloatScalar F]

/-- The discovery systems of the objects, and what their handlers share. -/
structure Discoveries (F : Type) where
  systems : SystemObject → DiscoverySystem F
  keys : PeerKeyRegistry
  sent : List (Message F)

section

variable (auth : Option SignatureScheme) (keypair : Option IdentityKeyPair)
  (messageTransport : Option Channel) (alive : List SystemObject)

/-- The handler that `o` has registered. On an object that is not alive it has no outcome. -/
def handlerOf (o : SystemObject) :
    Option (Discoveries F) → Message F → Option (Discoveries F) × Bool
  | none, _ => (none, true)
  | some d, m =>
    if o ∈ alive then
      let (inbox, claimed) := DiscoverySystem.handleMessage auth keypair messageTransport
        ⟨d.systems o, d.keys, d.sent⟩ m
      (some ⟨Function.update d.systems o inbox.sys, inbox.keys, inbox.sent⟩, claimed)
    else (none, true)

/-- The handlers of a list of objects are offered a message. -/
def dispatch (messageHandlers : List SystemObject) (d : Discoveries F) (m : Message F) :
    Option (Discoveries F) :=
  (offer (messageHandlers.map (handlerOf auth keypair messageTransport alive)) (some d) m).1

end

/-- A message has an outcome, and is answered at most once. -/
def AnsweredOnce (F : Type) [FloatScalar F] (s : SystemRegistration) : Prop :=
  ∀ (auth : Option SignatureScheme) (keypair : Option IdentityKeyPair)
    (messageTransport : Option Channel) (d : Discoveries F) (m : Message F),
    ∃ d' answers, dispatch auth keypair messageTransport s.systems s.messageHandlers d m = some d' ∧
      d'.sent = d.sent ++ answers ∧ answers.length ≤ 1

/-- The run that led to `s` would have led to the same world without the calls for `o`. -/
def Unaffected (ls : List RegistrationLabel) (s : SystemRegistration) (o : SystemObject) : Prop :=
  ∃ t, Run RegistrationStep {} (ls.filter fun l => ¬ l.IsFor o) t ∧
    t.systems = s.systems ∧ t.built = s.built ∧ t.messageHandlers = s.messageHandlers

/-- **No trace of a failure** in the world at the end of a run. -/
structure Untraced (F : Type) [FloatScalar F] (ls : List RegistrationLabel)
    (s : SystemRegistration) :
    Prop where
  /-- every handler belongs to a system in the scheduler -/
  owned : ∀ o ∈ s.messageHandlers, o ∈ s.systems
  /-- a rejected system has changed nothing -/
  unaffected : ∀ o, RegistrationLabel.registerSystem o .duplicateName ∈ ls → Unaffected ls s o
  answered : AnsweredOnce F s

/-! ### What registration does -/

/-- The names of the shipped systems are all different. -/
theorem ShippedSystem.describe_name_injective :
    Function.Injective fun s : ShippedSystem => s.describe.name := by
  decide

theorem SystemRegistration.registerSystem_cases (s : SystemRegistration) (o : SystemObject) :
    ((∃ o' ∈ s.systems, o'.system = o.system) ∧
      s.registerSystem o = ({ s with pending := s.pending.filter (· ≠ o) }, .duplicateName)) ∨
    ((∀ o' ∈ s.systems, o'.system ≠ o.system) ∧
      s.registerSystem o = ({ s with
        built := false
        systems := s.systems ++ [o]
        pending := s.pending.filter (· ≠ o) }, .ok)) := by
  have hname : ∀ o' : SystemObject,
      o'.system.describe.name = o.system.describe.name ↔ o'.system = o.system :=
    fun o' => ShippedSystem.describe_name_injective.eq_iff
  unfold registerSystem
  simp only [hname]
  split
  · next htaken => exact .inl ⟨htaken, rfl⟩
  · next hfree =>
    push Not at hfree
    exact .inr ⟨hfree, rfl⟩

/-- The objects of a registration. -/
structure SystemRegistration.Wf (s : SystemRegistration) : Prop where
  constructed_of_mem : ∀ o ∈ s.systems, o ∈ s.constructed
  constructed_of_pending : ∀ o ∈ s.pending, o ∈ s.constructed
  /-- an object is not passed on twice -/
  passed : ∀ o ∈ s.systems, o ∉ s.pending
  unique : ∀ o ∈ s.systems, ∀ o' ∈ s.systems, o.system = o'.system → o = o'
  mem_messageHandlers : ∀ o, o ∈ s.messageHandlers ↔ o ∈ s.constructed ∧ o.system = .discovery
  nodup : s.messageHandlers.Nodup

theorem SystemRegistration.Wf.empty : SystemRegistration.Wf {} where
  constructed_of_mem := by simp
  constructed_of_pending := by simp
  passed := by simp
  unique := by simp
  mem_messageHandlers := by simp
  nodup := List.nodup_nil

section Steps

variable {s s' : SystemRegistration} {l : RegistrationLabel} {ls : List RegistrationLabel}

theorem SystemRegistration.Wf.construct {o : SystemObject} (h : s.Wf) (hnew : o ∉ s.constructed) :
    (s.construct o).Wf where
  constructed_of_mem o' ho' := List.mem_append_left _ (h.constructed_of_mem o' ho')
  constructed_of_pending o' ho' := by
    rcases List.mem_append.mp ho' with hold | hone
    · exact List.mem_append_left _ (h.constructed_of_pending o' hold)
    · exact List.mem_append_right _ hone
  passed o' ho' hpending := by
    rcases List.mem_append.mp hpending with hold | hone
    · exact h.passed o' ho' hold
    · obtain rfl := List.mem_singleton.mp hone
      exact hnew (h.constructed_of_mem o' ho')
  unique := h.unique
  mem_messageHandlers o' := by
    unfold SystemRegistration.construct
    -- only the constructor of `DiscoverySystem` registers a handler
    by_cases hd : o.system = .discovery
    · simp only [hd, if_true, List.mem_append, h.mem_messageHandlers, List.mem_singleton]
      constructor
      · rintro (⟨hold, hsys⟩ | rfl)
        · exact ⟨.inl hold, hsys⟩
        · exact ⟨.inr rfl, hd⟩
      · rintro ⟨hold | rfl, hsys⟩
        · exact .inl ⟨hold, hsys⟩
        · exact .inr rfl
    · simp only [hd, if_false, h.mem_messageHandlers, List.mem_append, List.mem_singleton]
      constructor
      · rintro ⟨hold, hsys⟩
        exact ⟨.inl hold, hsys⟩
      · rintro ⟨hold | rfl, hsys⟩
        · exact ⟨hold, hsys⟩
        · exact absurd hsys hd
  nodup := by
    unfold SystemRegistration.construct
    split
    · refine List.nodup_append.mpr ⟨h.nodup, List.nodup_singleton o, ?_⟩
      rintro a ha b hb rfl
      obtain rfl := List.mem_singleton.mp hb
      exact hnew ((h.mem_messageHandlers a).mp ha).1
    · exact h.nodup

theorem SystemRegistration.Wf.registerSystem {o : SystemObject} (h : s.Wf)
    (hpending : o ∈ s.pending) :
    (s.registerSystem o).1.Wf := by
  have hsub : ∀ o' ∈ s.pending.filter (· ≠ o), o' ∈ s.pending :=
    fun o' ho' => List.mem_of_mem_filter ho'
  -- rejected, the object is gone; accepted, its name was free
  rcases s.registerSystem_cases o with ⟨-, heq⟩ | ⟨hfree, heq⟩ <;> rw [heq]
  · exact
      { constructed_of_mem := h.constructed_of_mem
        constructed_of_pending := fun o' ho' => h.constructed_of_pending o' (hsub o' ho')
        passed := fun o' ho' hp => h.passed o' ho' (hsub o' hp)
        unique := h.unique
        mem_messageHandlers := h.mem_messageHandlers
        nodup := h.nodup }
  · refine
      { constructed_of_mem := ?_
        constructed_of_pending := fun o' ho' => h.constructed_of_pending o' (hsub o' ho')
        passed := ?_
        unique := ?_
        mem_messageHandlers := h.mem_messageHandlers
        nodup := h.nodup }
    · intro o' ho'
      rcases List.mem_append.mp ho' with hold | hone
      · exact h.constructed_of_mem o' hold
      · obtain rfl := List.mem_singleton.mp hone
        exact h.constructed_of_pending o' hpending
    · intro o' ho' hp
      rcases List.mem_append.mp ho' with hold | hone
      · exact h.passed o' hold (hsub o' hp)
      · obtain rfl := List.mem_singleton.mp hone
        simp at hp
    · intro a ha b hb hab
      rcases List.mem_append.mp ha with haold | haone <;>
        rcases List.mem_append.mp hb with hbold | hbone
      · exact h.unique a haold b hbold hab
      · obtain rfl := List.mem_singleton.mp hbone
        exact absurd hab (hfree a haold)
      · obtain rfl := List.mem_singleton.mp haone
        exact absurd hab.symm (hfree b hbold)
      · rw [List.mem_singleton.mp haone, List.mem_singleton.mp hbone]

theorem SystemRegistration.Wf.buildGraph (h : s.Wf) : s.buildGraph.1.Wf := by
  unfold SystemRegistration.buildGraph
  split
  · exact h
  · exact ⟨h.1, h.2, h.3, h.4, h.5, h.6⟩

theorem RegistrationStep.wf (h : s.Wf) (hst : RegistrationStep s l s') : s'.Wf := by
  cases hst with
  | construct hnew => exact h.construct hnew
  | registerSystem hpending => exact h.registerSystem hpending
  | buildGraph => exact h.buildGraph

theorem SystemRegistration.Wf.length_le_one_iff (h : s.Wf) :
    s.messageHandlers.length ≤ 1 ↔ ∀ o ∈ s.messageHandlers, ∀ o' ∈ s.messageHandlers, o = o' := by
  rw [← List.toFinset_card_of_nodup h.nodup, Finset.card_le_one]
  simp only [List.mem_toFinset]

/-- Two discovery systems have two handlers. -/
theorem RegistrationStep.length_messageHandlers (hst : RegistrationStep s l s') :
    s'.messageHandlers.length = s.messageHandlers.length + if l.MakesDiscovery then 1 else 0 := by
  cases hst with
  | @construct o hnew =>
    unfold SystemRegistration.construct RegistrationLabel.MakesDiscovery
    by_cases hd : o.system = .discovery
    · simp [hd]
    · simp [hd]
  | @registerSystem o hpending =>
    rcases s.registerSystem_cases o with ⟨-, heq⟩ | ⟨-, heq⟩ <;> rw [heq] <;> rfl
  | buildGraph =>
    unfold SystemRegistration.buildGraph
    split <;> rfl

/-- The handlers of systems that are in the scheduler or about to be. -/
def SystemRegistration.Owned (s : SystemRegistration) : Prop :=
  ∀ o ∈ s.messageHandlers, o ∈ s.systems ∨ o ∈ s.pending

/-- A step that leaves one handler at most leaves no handler behind. -/
theorem RegistrationStep.owned (hwf : s.Wf) (h : s.Owned) (hst : RegistrationStep s l s')
    (hone : s'.messageHandlers.length ≤ 1) : s'.Owned := by
  cases hst with
  | @construct o hnew =>
    intro o' ho'
    unfold SystemRegistration.construct at ho'
    split at ho'
    · rcases List.mem_append.mp ho' with hold | hlast
      · exact (h o' hold).imp_right (List.mem_append_left _)
      · exact .inr (List.mem_append_right _ hlast)
    · exact (h o' ho').imp_right (List.mem_append_left _)
  | @registerSystem o hpending =>
    rcases s.registerSystem_cases o with ⟨⟨taken, htaken, hsys⟩, heq⟩ | ⟨-, heq⟩ <;>
      rw [heq] at hone ⊢ <;> intro o' ho'
    · rcases h o' ho' with hin | hp
      · exact .inl hin
      · refine .inr (List.mem_filter.mpr ⟨hp, ?_⟩)
        -- the object with the same name would have a second handler
        suffices hne : o' ≠ o by simpa using hne
        rintro rfl
        have hd := ((hwf.mem_messageHandlers o').mp ho').2
        have hhandler : taken ∈ s.messageHandlers :=
          (hwf.mem_messageHandlers taken).mpr ⟨hwf.constructed_of_mem taken htaken, hsys.trans hd⟩
        obtain rfl : taken = o' := hwf.length_le_one_iff.mp hone taken hhandler o' ho'
        exact hwf.passed taken htaken hpending
    · rcases h o' ho' with hin | hp
      · exact .inl (List.mem_append_left _ hin)
      · by_cases hsame : o' = o
        · exact .inl (List.mem_append_right _ (List.mem_singleton.mpr hsame))
        · exact .inr (List.mem_filter.mpr ⟨hp, by simpa using hsame⟩)
  | buildGraph =>
    unfold SystemRegistration.buildGraph
    split
    · exact h
    · exact h

/-! ### Runs -/

theorem SystemRegistration.wf_of_run (hrun : Run RegistrationStep {} ls s) : s.Wf :=
  hrun.invariant (fun _ _ _ h hst => hst.wf h) SystemRegistration.Wf.empty

theorem length_messageHandlers_of_run (hrun : Run RegistrationStep {} ls s) :
    s.messageHandlers.length = ls.countP RegistrationLabel.MakesDiscovery := by
  induction hrun with
  | nil => rfl
  | snoc _ hst ih =>
    rw [hst.length_messageHandlers, ih, List.countP_append, List.countP_singleton]

theorem SystemRegistration.owned_of_run (hrun : Run RegistrationStep {} ls s)
    (hone : s.messageHandlers.length ≤ 1) : s.Owned := by
  induction hrun with
  | nil => simp [SystemRegistration.Owned]
  | snoc hrun hst ih =>
    have hle := hst.length_messageHandlers
    exact hst.owned (SystemRegistration.wf_of_run hrun) (ih (by omega)) hone

/-- A rejected object is neither in the scheduler nor with the mission, from then on. -/
theorem gone_of_rejected {o : SystemObject} (hrun : Run RegistrationStep {} ls s)
    (hrejected : RegistrationLabel.registerSystem o .duplicateName ∈ ls) :
    o ∈ s.constructed ∧ o ∉ s.systems ∧ o ∉ s.pending := by
  induction hrun with
  | nil => simp at hrejected
  | @snoc ls m l s' hrun hst ih =>
    have hwf := SystemRegistration.wf_of_run hrun
    -- rejected before, and the step does not bring it back; or rejected just now
    rcases List.mem_append.mp hrejected with hold | hnow
    · obtain ⟨hcon, hsys, hpend⟩ := ih hold
      cases hst with
      | @construct o' hnew =>
        refine ⟨List.mem_append_left _ hcon, hsys, ?_⟩
        rintro hp
        rcases List.mem_append.mp hp with hp | hp
        · exact hpend hp
        · obtain rfl := List.mem_singleton.mp hp
          exact hnew hcon
      | @registerSystem o' hpending =>
        have hne : o ≠ o' := by
          rintro rfl
          exact hpend hpending
        rcases m.registerSystem_cases o' with ⟨-, heq⟩ | ⟨-, heq⟩ <;> rw [heq]
        · exact ⟨hcon, hsys, fun hp => hpend (List.mem_of_mem_filter hp)⟩
        · refine ⟨hcon, ?_, fun hp => hpend (List.mem_of_mem_filter hp)⟩
          simp [hsys, hne]
      | buildGraph =>
        unfold SystemRegistration.buildGraph
        split
        · exact ⟨hcon, hsys, hpend⟩
        · exact ⟨hcon, hsys, hpend⟩
    · obtain rfl := (List.mem_singleton.mp hnow).symm
      generalize hl : RegistrationLabel.registerSystem o .duplicateName = l' at hst
      cases hst with
      | construct hnew => cases hl
      | @registerSystem o' hpending =>
        injection hl with ho hstatus
        subst ho
        rcases m.registerSystem_cases o with ⟨-, heq⟩ | ⟨-, heq⟩ <;> rw [heq] at hstatus ⊢
        · refine ⟨hwf.constructed_of_pending o hpending, fun hin => hwf.passed o hin hpending, ?_⟩
          simp
        · cases hstatus
      | buildGraph => cases hl

/-! ### The run without an object -/

/-- The same world, for which `o` has not been constructed. -/
def SystemRegistration.without (s : SystemRegistration) (o : SystemObject) : SystemRegistration :=
  { s with
    constructed := s.constructed.filter (· ≠ o)
    pending := s.pending.filter (· ≠ o) }

theorem SystemRegistration.registerSystem_without (s : SystemRegistration) (o o' : SystemObject) :
    (s.without o).registerSystem o'
      = ((s.registerSystem o').1.without o, (s.registerSystem o').2) := by
  have hcomm : (s.pending.filter (· ≠ o)).filter (· ≠ o')
      = (s.pending.filter (· ≠ o')).filter (· ≠ o) := List.filter_comm ..
  unfold SystemRegistration.registerSystem SystemRegistration.without
  by_cases htaken : ∃ existing ∈ s.systems, existing.system.describe.name = o'.system.describe.name
  · simp only [htaken, if_true, hcomm]
  · simp only [htaken, if_false, hcomm]

theorem SystemRegistration.buildGraph_without (s : SystemRegistration) (o : SystemObject) :
    (s.without o).buildGraph = (s.buildGraph.1.without o, s.buildGraph.2) := by
  unfold SystemRegistration.buildGraph SystemRegistration.without
  by_cases hbuilt : s.built
  · simp only [hbuilt, if_true]
  · simp only [hbuilt, if_false, Bool.false_eq_true]

/-- A call for another object does the same. -/
theorem RegistrationStep.without {o : SystemObject} (hst : RegistrationStep s l s')
    (hfor : ¬ l.IsFor o) : RegistrationStep (s.without o) l (s'.without o) := by
  -- each call commutes with the removal of another object
  cases hst with
  | @construct o' hnew =>
    have hne : o' ≠ o := hfor
    have hstep : (s.without o).construct o' = (s.construct o').without o := by
      simp [SystemRegistration.construct, SystemRegistration.without, List.filter_append, hne]
    rw [← hstep]
    exact .construct fun hin => hnew (List.mem_of_mem_filter hin)
  | @registerSystem o' hpending =>
    have hne : o' ≠ o := hfor
    have hpending' : o' ∈ (s.without o).pending :=
      List.mem_filter.mpr ⟨hpending, by simpa using hne⟩
    have hstep := s.registerSystem_without o o'
    have hstatus : ((s.without o).registerSystem o').2 = (s.registerSystem o').2 := by rw [hstep]
    have hstate : ((s.without o).registerSystem o').1 = (s.registerSystem o').1.without o := by
      rw [hstep]
    rw [← hstate, ← hstatus]
    exact .registerSystem hpending'
  | buildGraph =>
    have hstep := s.buildGraph_without o
    have hstatus : (s.without o).buildGraph.2 = s.buildGraph.2 := by rw [hstep]
    have hstate : (s.without o).buildGraph.1 = s.buildGraph.1.without o := by rw [hstep]
    rw [← hstate, ← hstatus]
    exact .buildGraph

/-- A call for an object without a handler that does not get into the scheduler does nothing. -/
theorem RegistrationStep.without_eq {o : SystemObject} (hst : RegistrationStep s l s')
    (hfor : l.IsFor o) (hkind : o.system ≠ .discovery) (hout : o ∉ s'.systems) :
    s'.without o = s.without o := by
  cases hst with
  | @construct o' hnew =>
    obtain rfl : o' = o := hfor
    simp [SystemRegistration.construct, SystemRegistration.without, List.filter_append, hkind]
  | @registerSystem o' hpending =>
    obtain rfl : o' = o := hfor
    rcases s.registerSystem_cases o' with ⟨-, heq⟩ | ⟨-, heq⟩ <;> rw [heq] at hout ⊢
    · simp [SystemRegistration.without, List.filter_filter]
    · simp at hout
  | buildGraph => exact hfor.elim

theorem RegistrationStep.systems_subset (hst : RegistrationStep s l s') :
    s.systems ⊆ s'.systems := by
  cases hst with
  | construct hnew => exact fun _ h => h
  | @registerSystem o hpending =>
    rcases s.registerSystem_cases o with ⟨-, heq⟩ | ⟨-, heq⟩ <;> rw [heq]
    · exact fun _ h => h
    · exact List.subset_append_left _ _
  | buildGraph =>
    unfold SystemRegistration.buildGraph
    split
    · exact fun _ h => h
    · exact fun _ h => h

theorem run_without {o : SystemObject} (hrun : Run RegistrationStep {} ls s)
    (hkind : o.system ≠ .discovery) (hout : o ∉ s.systems) :
    Run RegistrationStep {} (ls.filter fun l => ¬ l.IsFor o) (s.without o) := by
  induction hrun with
  | nil => exact Run.nil
  | @snoc ls m l s' hrun hst ih =>
    have ih := ih fun hin => hout (hst.systems_subset hin)
    rw [List.filter_append]
    by_cases hfor : l.IsFor o
    · rw [hst.without_eq hfor hkind hout]
      simpa [hfor] using ih
    · simpa [hfor] using ih.snoc (hst.without hfor)

end Steps

/-! ### Handlers of live systems -/

section Dispatch

variable {auth : Option SignatureScheme} {keypair : Option IdentityKeyPair}
  {messageTransport : Option Channel} {alive : List SystemObject}

/-- The first handler that answers a message claims it. -/
theorem offer_handlerOf {owners : List SystemObject} (howners : ∀ o ∈ owners, o ∈ alive)
    (d : Discoveries F) (m : Message F) :
    ∃ d' answers,
      (offer (owners.map (handlerOf auth keypair messageTransport alive)) (some d) m).1 = some d' ∧
        d'.sent = d.sent ++ answers ∧ answers.length ≤ 1 := by
  induction owners generalizing d with
  | nil => exact ⟨d, [], rfl, (List.append_nil _).symm, Nat.zero_le 1⟩
  | cons o owners ih =>
    have halive : o ∈ alive := howners o List.mem_cons_self
    have hsent := DiscoverySystem.sent_handleMessage auth keypair messageTransport
      ⟨d.systems o, d.keys, d.sent⟩ m
    generalize hresult : DiscoverySystem.handleMessage auth keypair messageTransport
      ⟨d.systems o, d.keys, d.sent⟩ m = result at hsent
    have hhandler : handlerOf auth keypair messageTransport alive o (some d) m
        = (some ⟨Function.update d.systems o result.1.sys, result.1.keys, result.1.sent⟩,
            result.2) := by
      rw [← hresult]
      exact if_pos halive
    rw [List.map_cons]
    unfold offer
    rw [hhandler]
    cases hclaimed : result.2 with
    | true =>
      refine ⟨_, _, rfl, hsent, ?_⟩
      split
      · exact le_rfl
      · exact Nat.zero_le 1
    | false =>
      -- an unclaimed message is no hello
      have hnone : m.type ≠ messages.DISCOVERY_HELLO := by
        intro hhello
        have : result.2 = true := by
          rw [← hresult]
          exact DiscoverySystem.handleMessage_hello auth keypair messageTransport _ hhello
        simp [this] at hclaimed
      rw [if_neg (fun h => hnone h.1), List.append_nil] at hsent
      obtain ⟨d', answers, hoffer, hrest, hle⟩ :=
        ih (fun o' ho' => howners o' (List.mem_cons_of_mem _ ho'))
          ⟨Function.update d.systems o result.1.sys, result.1.keys, result.1.sent⟩
      exact ⟨d', answers, hoffer, by rw [hrest]; exact congrArg (· ++ answers) hsent, hle⟩

theorem answeredOnce_of_owned {s : SystemRegistration}
    (howned : ∀ o ∈ s.messageHandlers, o ∈ s.systems) :
    AnsweredOnce F s := by
  intro auth keypair messageTransport d m
  exact offer_handlerOf howned d m

end Dispatch

/-- **Failed registration leaves no trace**, provided that no second `DiscoverySystem` is
constructed: the handler of the second stays behind when the scheduler rejects it. -/
theorem untraced_iff {ls : List RegistrationLabel} {s : SystemRegistration}
    (hrun : Run RegistrationStep {} ls s) (hpending : s.pending = []) :
    Untraced F ls s ↔ ls.countP RegistrationLabel.MakesDiscovery ≤ 1 := by
  have hwf := SystemRegistration.wf_of_run hrun
  rw [← length_messageHandlers_of_run hrun]
  constructor
  · intro h
    refine hwf.length_le_one_iff.mpr fun o ho o' ho' => ?_
    have hd := ((hwf.mem_messageHandlers o).mp ho).2
    have hd' := ((hwf.mem_messageHandlers o').mp ho').2
    exact hwf.unique o (h.owned o ho) o' (h.owned o' ho') (hd.trans hd'.symm)
  · intro hone
    have howned : ∀ o ∈ s.messageHandlers, o ∈ s.systems := by
      intro o ho
      rcases SystemRegistration.owned_of_run hrun hone o ho with hin | hp
      · exact hin
      · simp [hpending] at hp
    refine ⟨howned, ?_, answeredOnce_of_owned howned⟩
    intro o hrejected
    obtain ⟨hconstructed, hout, -⟩ := gone_of_rejected hrun hrejected
    have hkind : o.system ≠ .discovery :=
      fun hd => hout (howned o ((hwf.mem_messageHandlers o).mpr ⟨hconstructed, hd⟩))
    exact ⟨s.without o, run_without hrun hkind hout, rfl, rfl, rfl⟩

section Examples

/-- A call with the given status, if it is possible. -/
def SystemRegistration.exec (s : SystemRegistration) : RegistrationLabel → Option SystemRegistration
  | .construct o => if o ∈ s.constructed then none else some (s.construct o)
  | .registerSystem o status =>
    if o ∈ s.pending ∧ (s.registerSystem o).2 = status then some (s.registerSystem o).1 else none
  | .buildGraph status => if s.buildGraph.2 = status then some s.buildGraph.1 else none

theorem RegistrationStep.of_exec {s s' : SystemRegistration} {l : RegistrationLabel}
    (h : s.exec l = some s') : RegistrationStep s l s' := by
  cases l with
  | construct o =>
    obtain ⟨hnew, rfl⟩ : o ∉ s.constructed ∧ s.construct o = s' := by
      simpa [SystemRegistration.exec] using h
    exact .construct hnew
  | registerSystem o status =>
    obtain ⟨⟨hpending, rfl⟩, rfl⟩ :
        (o ∈ s.pending ∧ (s.registerSystem o).2 = status) ∧ (s.registerSystem o).1 = s' := by
      simpa [SystemRegistration.exec] using h
    exact .registerSystem hpending
  | buildGraph status =>
    obtain ⟨rfl, rfl⟩ : s.buildGraph.2 = status ∧ s.buildGraph.1 = s' := by
      simpa [SystemRegistration.exec] using h
    exact .buildGraph

/-- A discovery system and two flocking systems. -/
def flockingTwice : List RegistrationLabel :=
  [.construct ⟨0, .discovery⟩, .registerSystem ⟨0, .discovery⟩ .ok, .construct ⟨1, .flocking⟩,
    .registerSystem ⟨1, .flocking⟩ .ok, .construct ⟨2, .flocking⟩,
    .registerSystem ⟨2, .flocking⟩ .duplicateName, .buildGraph .ok]

theorem second_flocking_untraced :
    ∃ s : SystemRegistration, Run RegistrationStep {} flockingTwice s ∧ s.pending = [] ∧
      Untraced ℚ flockingTwice s := by
  have hexec : ∃ s, flockingTwice.foldlM SystemRegistration.exec {} = some s ∧ s.pending = [] :=
    ⟨_, rfl, rfl⟩
  obtain ⟨s, hexec, hpending⟩ := hexec
  have hrun : Run RegistrationStep {} flockingTwice s := .of_foldlM .of_exec hexec
  exact ⟨s, hrun, hpending, (untraced_iff hrun hpending).mpr (by decide)⟩

/-- Of two discovery systems the one that was constructed last is registered first. -/
def discoveryTwice : List RegistrationLabel :=
  [.construct ⟨0, .discovery⟩, .construct ⟨1, .discovery⟩, .registerSystem ⟨1, .discovery⟩ .ok,
    .registerSystem ⟨0, .discovery⟩ .duplicateName]

/-- The handler that is asked first belongs to the object that has been destroyed. -/
theorem first_handler_dangles :
    ¬ ∀ ls (s : SystemRegistration), Run RegistrationStep {} ls s → s.pending = [] →
      Untraced ℚ ls s := by
  intro h
  have hexec : ∃ s, discoveryTwice.foldlM SystemRegistration.exec {} = some s ∧ s.pending = [] ∧
      s.messageHandlers = [⟨0, .discovery⟩, ⟨1, .discovery⟩] ∧ s.systems = [⟨1, .discovery⟩] :=
    ⟨_, rfl, rfl, rfl, rfl⟩
  obtain ⟨s, hexec, hpending, hhandlers, hsystems⟩ := hexec
  have hfirst := (h discoveryTwice s (.of_foldlM .of_exec hexec) hpending).owned ⟨0, .discovery⟩
    (by simp [hhandlers])
  simp [hsystems] at hfirst

end Examples

end MithAtomas
