import MithAtomas.Core.ComponentOrigins

/-!
# The audit log of the registry

With a sink from the start, the registry reports every registration that returns `Ok` and nothing
else. `Audited` ties the registry to the list of these registrations: its stores are theirs, one for
each id, and the sink has their events. It holds initially and every call keeps it, whatever the
policy and whatever the ids are: a colliding id is refused, so two entries never have the same one.

The events are texts; `auditedRegistration` reads the registry back from them. `registry_audit` has
the laws of a whole run and of its next call.
-/

namespace MithAtomas

variable {Ty V : Type}

/-- A call that sets up the registry. -/
inductive SetupCall (Ty : Type) where
  | registerComponent (T : Ty)
  | registerBuiltinComponent (T : Ty)
  | lock
  deriving DecidableEq

/-- What a call asks for. -/
def SetupCall.registration : SetupCall Ty → Option (ComponentRegistration Ty)
  | .registerComponent T => some (T, .user)
  | .registerBuiltinComponent T => some (T, .builtIn)
  | .lock => none

/-! ### Reading the log -/

/-- The text of the first field with this key. -/
def TraceEvent.text (e : TraceEvent) (key : String) : Option String :=
  e.fields.findSome? fun
    | ⟨k, .str v⟩ => if k = key then some v else none
    | _ => none

/-- What a log says of the id `i`: the name of the type that was registered under it, and the
origin. -/
def auditedRegistration (log : TraceSink) (i : ComponentTypeID) :
    Option (String × ComponentOrigin) := do
  let e ← log.find? fun e =>
    e.event = "component_registered" ∧ e.text "type_id" = some (hex16 i)
  let typeName ← e.text "type_name"
  let origin ← e.text "origin"
  return (typeName, if origin = "built_in" then .builtIn else .user)

section

variable (types : ComponentTypes Ty)

theorem text_registeredEvent (origin : ComponentOrigin) (T : Ty) :
    (registeredEvent types origin T).text "type_id" = some (hex16 (types.id T)) ∧
      (registeredEvent types origin T).text "type_name" = some (types.typeName T) := by
  constructor <;> simp [TraceEvent.text, registeredEvent]

theorem origin_registeredEvent (origin : ComponentOrigin) (T : Ty) :
    ((registeredEvent types origin T).text "origin").map
      (fun text => if text = "built_in" then ComponentOrigin.builtIn else .user) = some origin := by
  cases origin <;> simp [TraceEvent.text, registeredEvent]

/-- **The log of registrations** names the first one with the id. -/
theorem auditedRegistration_map (regs : List (ComponentRegistration Ty)) (i : ComponentTypeID) :
    auditedRegistration (regs.map fun reg => registeredEvent types reg.2 reg.1) i
      = (regs.find? fun reg => types.id reg.1 = i).map
          fun reg => (types.typeName reg.1, reg.2) := by
  have hsame : ∀ reg : ComponentRegistration Ty,
      decide ((registeredEvent types reg.2 reg.1).event = "component_registered" ∧
        (registeredEvent types reg.2 reg.1).text "type_id" = some (hex16 i))
      = decide (types.id reg.1 = i) := by
    intro reg
    rw [(text_registeredEvent types reg.2 reg.1).1]
    refine decide_eq_decide.mpr ⟨fun h => hex16_injective (Option.some.inj h.2), ?_⟩
    rintro rfl
    exact ⟨rfl, rfl⟩
  unfold auditedRegistration
  rw [List.find?_map]
  simp only [Function.comp_def, hsame]
  cases regs.find? fun reg => types.id reg.1 = i with
  | none => rfl
  | some reg =>
    have horigin := origin_registeredEvent types reg.2 reg.1
    obtain ⟨text, htext, hread⟩ := Option.map_eq_some_iff.mp horigin
    simp [(text_registeredEvent types reg.2 reg.1).2, htext, hread]

end

/-! ### Runs -/

variable [DecidableEq Ty]

namespace EntityRegistry

/-- A call, with the status that it returns. -/
def setup (types : ComponentTypes Ty) (r : EntityRegistry Ty V) :
    SetupCall Ty → EntityRegistry Ty V × Option RegistrationStatus
  | .registerComponent T =>
    ((r.registerComponent types T).1, some (r.registerComponent types T).2)
  | .registerBuiltinComponent T =>
    ((r.registerBuiltinComponent types T).1, some (r.registerBuiltinComponent types T).2)
  | .lock => (r.lock, none)

omit [DecidableEq Ty] in
/-- The ids that have a store. -/
def registeredIds (r : EntityRegistry Ty V) : Set ComponentTypeID :=
  {i | r.stores i ≠ none}

omit [DecidableEq Ty] in
/-- `registered_count`. -/
noncomputable def registeredCount (r : EntityRegistry Ty V) : ℕ :=
  r.registeredIds.ncard

end EntityRegistry

/-- A registry after some calls, and the registrations that have returned `Ok`. -/
structure RegistrySetup (Ty V : Type) where
  registry : EntityRegistry Ty V
  granted : List (ComponentRegistration Ty)

namespace RegistrySetup

def next (types : ComponentTypes Ty) (s : RegistrySetup Ty V) (c : SetupCall Ty) :
    RegistrySetup Ty V where
  registry := (s.registry.setup types c).1
  granted :=
    if (s.registry.setup types c).2 = some .ok then s.granted ++ c.registration.toList
    else s.granted

/-- The calls, from the constructor on; the sink is set at once. -/
def run (types : ComponentTypes Ty) (policy : ComponentRegistrationPolicy)
    (cs : List (SetupCall Ty)) : RegistrySetup Ty V :=
  cs.foldl (next types) ⟨.init policy (some []), []⟩

end RegistrySetup

/-! ### One call -/

namespace EntityRegistry

variable {types : ComponentTypes Ty} {r : EntityRegistry Ty V}

/-- **A registration** adds a store under a free id, or does nothing. -/
theorem registerImpl_cases (types : ComponentTypes Ty) (r : EntityRegistry Ty V)
    (origin : ComponentOrigin) (T : Ty) :
    (r.Admits origin ∧ r.stores (types.id T) = none ∧
        r.registerImpl types origin T = (r.addStore types origin T, .ok)) ∨
      ((r.registerImpl types origin T).1 = r ∧ (r.registerImpl types origin T).2 ≠ .ok) := by
  by_cases hadmits : r.Admits origin
  · cases hstore : r.stores (types.id T) with
    | none => exact .inl ⟨hadmits, rfl, registerImpl_of_free hadmits hstore⟩
    | some store =>
      refine .inr ?_
      rw [registerImpl_of_taken hadmits hstore]
      refine ⟨rfl, ?_⟩
      -- already registered, or a collision
      show (if store.typeTag = T then _ else _) ≠ _
      split
      · nofun
      · nofun
  · have hrefused : (r.registerImpl types origin T).1 = r ∧
        (r.registerImpl types origin T).2 ∈ [.policyLocked, .policyForbidsUser] :=
      registerImpl_of_not_admits hadmits
    obtain ⟨hsame, hstatus⟩ := hrefused
    refine .inr ⟨hsame, fun hok => ?_⟩
    rw [hok] at hstatus
    revert hstatus
    decide

/-- What a call can do. -/
inductive SetupResult (types : ComponentTypes Ty) (r : EntityRegistry Ty V) (c : SetupCall Ty) :
    Prop
  | granted (T : Ty) (origin : ComponentOrigin) (hc : c.registration = some (T, origin))
      (hadmits : r.Admits origin) (hfree : r.stores (types.id T) = none)
      (hresult : r.setup types c = (r.addStore types origin T, some .ok))
  | refused (hc : c ≠ .lock) (hsame : (r.setup types c).1 = r)
      (hstatus : (r.setup types c).2 ≠ some .ok)
  | locked (hc : c = .lock)

theorem setup_cases (types : ComponentTypes Ty) (r : EntityRegistry Ty V) (c : SetupCall Ty) :
    SetupResult types r c := by
  have hregister : ∀ T origin, c.registration = some (T, origin) → c ≠ .lock →
      r.setup types c
        = ((r.registerImpl types origin T).1, some (r.registerImpl types origin T).2) →
      SetupResult types r c := by
    intro T origin hc hlock hsetup
    obtain ⟨hadmits, hfree, hok⟩ | ⟨hsame, hstatus⟩ := registerImpl_cases types r origin T
    · rw [hok] at hsetup
      exact .granted T origin hc hadmits hfree hsetup
    · refine .refused hlock ?_ ?_
      · rw [hsetup]
        exact hsame
      · rw [hsetup]
        exact fun hno => hstatus (Option.some.inj hno)
  cases c with
  | registerComponent T => exact hregister T .user rfl nofun rfl
  | registerBuiltinComponent T => exact hregister T .builtIn rfl nofun rfl
  | lock => exact .locked rfl

omit [DecidableEq Ty] in
/-- A new store has its id to itself. -/
theorem registeredIds_addStore (origin : ComponentOrigin) (T : Ty) :
    (r.addStore types origin T).registeredIds = insert (types.id T) r.registeredIds := by
  ext i
  show Function.update r.stores (types.id T) _ i ≠ none ↔ i = types.id T ∨ r.stores i ≠ none
  by_cases hi : i = types.id T
  · subst hi
    rw [Function.update_self]
    exact iff_of_true nofun (.inl rfl)
  · rw [Function.update_of_ne hi, or_iff_right hi]

omit [DecidableEq Ty] in
theorem registeredCount_addStore (origin : ComponentOrigin) {T : Ty}
    (hfree : r.stores (types.id T) = none) :
    (r.addStore types origin T).registeredCount = r.registeredCount + 1 := by
  unfold registeredCount
  rw [registeredIds_addStore]
  exact Set.ncard_insert_of_notMem (fun h => h hfree) (Set.toFinite _)

/-- A tag that is there stays. -/
theorem tags_setup (c : SetupCall Ty) {i : ComponentTypeID} {reg : ComponentRegistration Ty}
    (h : r.tags i = some reg) : (r.setup types c).1.tags i = some reg := by
  obtain ⟨T, origin, hc, hadmits, hfree, hresult⟩ | ⟨hc, hsame, hstatus⟩ | ⟨hc⟩ :=
    setup_cases types r c
  · have hne : i ≠ types.id T := by
      rintro rfl
      unfold tags at h
      rw [hfree] at h
      cases h
    rw [hresult, tags_addStore, Function.update_of_ne hne]
    exact h
  · rwa [hsame]
  · subst hc
    exact h

end EntityRegistry

/-! ### The registry and its log -/

/-- **The registry is the list of the registrations that returned `Ok`**, and so is the log. -/
structure Audited (types : ComponentTypes Ty) (policy : ComponentRegistrationPolicy)
    (s : RegistrySetup Ty V) : Prop where
  samePolicy : s.registry.policy = policy
  sink : s.registry.sink = some (s.granted.map fun reg => registeredEvent types reg.2 reg.1)
  tags : ∀ i, s.registry.tags i = s.granted.find? fun reg => types.id reg.1 = i
  /-- the stores are as many as the registrations -/
  count : s.registry.registeredCount = s.granted.length
  builtInOnly : policy = .builtInOnly → ∀ reg ∈ s.granted, reg.2 = .builtIn

section

variable {types : ComponentTypes Ty} {policy : ComponentRegistrationPolicy}
  {s : RegistrySetup Ty V}

omit [DecidableEq Ty] in
theorem Audited.grant (h : Audited types policy s) {origin : ComponentOrigin} {T : Ty}
    (hadmits : s.registry.Admits origin) (hfree : s.registry.stores (types.id T) = none) :
    Audited types policy ⟨s.registry.addStore types origin T, s.granted ++ [(T, origin)]⟩ where
  samePolicy := h.samePolicy
  sink := by
    show s.registry.sink.map _ = _
    rw [h.sink, List.map_append]
    rfl
  tags i := by
    have hnone : (s.granted.find? fun reg => types.id reg.1 = types.id T) = none := by
      rw [← h.tags]
      unfold EntityRegistry.tags
      rw [hfree]
      rfl
    rw [EntityRegistry.tags_addStore, List.find?_append]
    by_cases hi : i = types.id T
    · subst hi
      rw [Function.update_self, hnone]
      simp
    · have hlast : ([(T, origin)].find? fun reg => types.id reg.1 = i) = none := by
        simp [Ne.symm hi]
      rw [Function.update_of_ne hi, h.tags, hlast, Option.or_none]
  count := by
    rw [EntityRegistry.registeredCount_addStore origin hfree, h.count, List.length_append]
    rfl
  builtInOnly hpolicy reg hreg := by
    obtain hold | hnew := List.mem_append.mp hreg
    · exact h.builtInOnly hpolicy reg hold
    · -- the policy has let the new one through
      rw [List.mem_singleton.mp hnew]
      show origin = .builtIn
      cases origin with
      | builtIn => rfl
      | user => exact absurd ⟨rfl, h.samePolicy.trans hpolicy⟩ hadmits.2

/-- **One call** keeps it. -/
theorem Audited.next (h : Audited types policy s) (c : SetupCall Ty) :
    Audited types policy (s.next types c) := by
  unfold RegistrySetup.next
  obtain ⟨T, origin, hc, hadmits, hfree, hresult⟩ | ⟨hc, hsame, hstatus⟩ | ⟨hc⟩ :=
    EntityRegistry.setup_cases types s.registry c
  · rw [hresult, if_pos rfl, hc]
    exact h.grant hadmits hfree
  · rw [hsame, if_neg hstatus]
    exact h
  · subst hc
    exact ⟨h.samePolicy, h.sink, h.tags, h.count, h.builtInOnly⟩

end

section

variable (types : ComponentTypes Ty) (policy : ComponentRegistrationPolicy)

theorem RegistrySetup.run_concat (cs : List (SetupCall Ty)) (c : SetupCall Ty) :
    (RegistrySetup.run types policy (cs ++ [c]) : RegistrySetup Ty V)
      = (RegistrySetup.run types policy cs).next types c :=
  List.foldl_concat _ _ _ _

theorem audited_run (cs : List (SetupCall Ty)) :
    Audited types policy (RegistrySetup.run types policy cs : RegistrySetup Ty V) := by
  induction cs using List.reverseRecOn with
  | nil =>
    have hempty : (EntityRegistry.init policy (some []) : EntityRegistry Ty V).registeredIds = ∅ :=
      Set.eq_empty_of_forall_notMem fun i hi => hi rfl
    have hcount :
        (EntityRegistry.init policy (some []) : EntityRegistry Ty V).registeredCount = 0 := by
      unfold EntityRegistry.registeredCount
      rw [hempty, Set.ncard_empty]
    exact ⟨rfl, rfl, fun i => rfl, hcount, fun _ => nofun⟩
  | append_singleton cs c ih =>
    rw [RegistrySetup.run_concat]
    exact ih.next c

/-- Later calls keep every tag. -/
theorem tags_run_append (cs cs' : List (SetupCall Ty)) {i : ComponentTypeID}
    {reg : ComponentRegistration Ty}
    (h : (RegistrySetup.run types policy cs : RegistrySetup Ty V).registry.tags i = some reg) :
    (RegistrySetup.run types policy (cs ++ cs') : RegistrySetup Ty V).registry.tags i =
      some reg := by
  induction cs' using List.reverseRecOn with
  | nil => rwa [List.append_nil]
  | append_singleton cs' c ih =>
    rw [← List.append_assoc, RegistrySetup.run_concat]
    exact EntityRegistry.tags_setup c ih

/-- After the lock, `LockAfterInit` lets nothing through. -/
theorem registry_run_of_locked (cs cs' : List (SetupCall Ty)) :
    (RegistrySetup.run types .lockAfterInit (cs ++ .lock :: cs') : RegistrySetup Ty V).registry
      = (RegistrySetup.run types .lockAfterInit cs : RegistrySetup Ty V).registry.lock := by
  induction cs' using List.reverseRecOn with
  | nil =>
    rw [RegistrySetup.run_concat]
    rfl
  | append_singleton cs' c ih =>
    have hpolicy := (audited_run (V := V) types .lockAfterInit (cs ++ .lock :: cs')).samePolicy
    rw [← List.cons_append, ← List.append_assoc, RegistrySetup.run_concat]
    generalize RegistrySetup.run types .lockAfterInit (cs ++ .lock :: cs') = s at ih hpolicy ⊢
    have hlocked : s.registry.locked = true := by
      rw [ih]
      rfl
    show (s.registry.setup types c).1 = _
    obtain ⟨T, origin, hc, hadmits, hfree, hresult⟩ | ⟨hc, hsame, hstatus⟩ | ⟨hc⟩ :=
      EntityRegistry.setup_cases types s.registry c
    · -- a locked registry admits nothing
      exact absurd ⟨hlocked, hpolicy⟩ hadmits.1
    · rw [hsame]
      exact ih
    · subst hc
      show s.registry.lock = _
      rw [ih]
      rfl

end

/-- The law of one call `c` of the registry `r`. -/
structure SetupLaw (types : ComponentTypes Ty) (r : EntityRegistry Ty V) (c : SetupCall Ty) :
    Prop where
  /-- only a lock changes anything without returning `Ok`, and nothing but the lock -/
  refused : (r.setup types c).2 ≠ some .ok →
    (r.setup types c).1 = if c = .lock then { r with locked := true } else r
  /-- `Ok` stands for one more store, under a free id, and one more event -/
  granted : (r.setup types c).2 = some .ok → ∃ T origin,
    c.registration = some (T, origin) ∧
      types.id T ∉ r.registeredIds ∧
      (r.setup types c).1.registeredIds = insert (types.id T) r.registeredIds ∧
      (r.setup types c).1.registeredCount = r.registeredCount + 1 ∧
      (r.setup types c).1.sink = r.sink.map (· ++ [registeredEvent types origin T])

theorem setupLaw (types : ComponentTypes Ty) (r : EntityRegistry Ty V) (c : SetupCall Ty) :
    SetupLaw types r c := by
  obtain ⟨T, origin, hc, hadmits, hfree, hresult⟩ | ⟨hc, hsame, hstatus⟩ | ⟨hc⟩ :=
    EntityRegistry.setup_cases types r c
  · refine ⟨fun hno => absurd (congrArg Prod.snd hresult) hno, fun _ => ⟨T, origin, hc, ?_, ?_⟩⟩
    · exact fun h => h hfree
    · rw [hresult]
      exact ⟨EntityRegistry.registeredIds_addStore origin T,
        EntityRegistry.registeredCount_addStore origin hfree, rfl⟩
  · refine ⟨fun _ => ?_, fun hok => absurd hok hstatus⟩
    rw [if_neg hc]
    exact hsame
  · subst hc
    exact ⟨fun _ => rfl, nofun⟩

/-- **The registry and its audit log**, for every policy, all ids and all calls: the log has the
events of the registrations that returned `Ok`, in order, and the registry can be read back from it;
a tag that is there stays; `BuiltInOnly` keeps user types out, and `LockAfterInit` everything that
comes after the lock. Every call obeys `SetupLaw`. -/
theorem registry_audit (types : ComponentTypes Ty) (policy : ComponentRegistrationPolicy)
    (cs : List (SetupCall Ty)) :
    Audited types policy (RegistrySetup.run types policy cs : RegistrySetup Ty V) ∧
      (∀ i, auditedRegistration ((RegistrySetup.run types policy cs
          : RegistrySetup Ty V).registry.sink.getD []) i
        = ((RegistrySetup.run types policy cs : RegistrySetup Ty V).registry.tags i).map
            fun reg => (types.typeName reg.1, reg.2)) ∧
      (∀ cs' i reg,
        (RegistrySetup.run types policy cs : RegistrySetup Ty V).registry.tags i = some reg →
        (RegistrySetup.run types policy (cs ++ cs') : RegistrySetup Ty V).registry.tags i
          = some reg) ∧
      (policy = .builtInOnly → ∀ i T,
        (RegistrySetup.run types policy cs : RegistrySetup Ty V).registry.tags i
          ≠ some (T, .user)) ∧
      (policy = .lockAfterInit → ∀ cs',
        (RegistrySetup.run types policy (cs ++ .lock :: cs') : RegistrySetup Ty V).registry
          = (RegistrySetup.run types policy cs : RegistrySetup Ty V).registry.lock) ∧
      ∀ c, SetupLaw types (RegistrySetup.run types policy cs : RegistrySetup Ty V).registry c := by
  have h := audited_run (V := V) types policy cs
  refine ⟨h, ?_, fun cs' i reg => tags_run_append types policy cs cs', ?_, ?_,
    fun c => setupLaw types _ c⟩
  · intro i
    rw [h.sink, h.tags]
    exact auditedRegistration_map types _ i
  · -- all grants under this policy are of built-in types
    intro hpolicy i T htag
    rw [h.tags] at htag
    have hbuiltin : ComponentOrigin.user = .builtIn :=
      h.builtInOnly hpolicy _ (List.mem_of_find?_eq_some htag)
    cases hbuiltin
  · rintro rfl cs'
    exact registry_run_of_locked types cs cs'

end MithAtomas
