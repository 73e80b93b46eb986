import MithAtomas.Core.ComponentId
import MithAtomas.Core.Trace

/-!
# The component registry

`include/mith/core/registry.h`: one store for each registered component type, found under the type's
id. A store knows which type it was made for (`type_tag`); only the registration compares it. An
access finds the store by the id and casts it (`static_cast`), so it works on the value that is
there, whatever type the value was stored as. `none` is an abort.

A registration leaves the registry alone unless the policy admits it and the id is free
(`registerImpl_of_free`, `registerImpl_of_taken`, `registerImpl_of_not_admits`).
-/

namespace MithAtomas

abbrev EntityID := UInt32

/-- The only entity. -/
abbrev SELF_ENTITY : EntityID := 1

inductive ComponentOrigin where
  | builtIn
  | user
  deriving DecidableEq, Repr

inductive ComponentRegistrationPolicy where
  | open_
  | lockAfterInit
  | builtInOnly
  deriving DecidableEq, Repr

inductive RegistrationStatus where
  | ok
  | alreadyRegistered
  | typeIdCollision
  | policyForbidsUser
  | policyLocked
  deriving DecidableEq, Repr

/-- The component types `Ty` of a program, and what the compiler makes of them. -/
structure ComponentTypes (Ty : Type) where
  /-- `type_name<T>()` -/
  typeName : Ty → String
  /-- `component_id<T>()` -/
  id : Ty → ComponentTypeID

/-- `ComponentStore<T>`; a value is an object of any type. -/
structure ComponentStore (Ty V : Type) where
  typeTag : Ty
  origin : ComponentOrigin
  value : Option V

structure EntityRegistry (Ty V : Type) where
  /-- `stores_.find(id)` -/
  stores : ComponentTypeID → Option (ComponentStore Ty V)
  policy : ComponentRegistrationPolicy
  locked : Bool
  sink : Option TraceSink

variable {Ty V : Type}

/-- `snprintf("0x%016llx")`. -/
def hex16 (n : UInt64) : String :=
  "0x" ++ String.ofList ((List.range 16).map fun i => Nat.digitChar (n.toNat / 16 ^ (15 - i) % 16))

/-- Numbers are equal up to their first hex digits that differ. -/
theorem mod_eq_of_digits {n m : ℕ} (j : ℕ) (h : ∀ k < j, n / 16 ^ k % 16 = m / 16 ^ k % 16) :
    n % 16 ^ j = m % 16 ^ j := by
  induction j with
  | zero => rw [pow_zero, Nat.mod_one, Nat.mod_one]
  | succ j ih =>
    rw [Nat.mod_pow_succ, Nat.mod_pow_succ, ih fun k hk => h k (Nat.lt_succ_of_lt hk),
      h j (Nat.lt_succ_self j)]

/-- The text of an id tells which it is. -/
theorem hex16_injective : Function.Injective hex16 := by
  intro n m h
  have hdigits := String.ofList_injective (String.append_right_inj "0x" |>.mp h)
  have hsame : ∀ k < 16, n.toNat / 16 ^ k % 16 = m.toNat / 16 ^ k % 16 := by
    intro k hk
    have hdigit := List.map_inj_left.mp hdigits (15 - k) (List.mem_range.mpr (by omega))
    rw [show 15 - (15 - k) = k by omega] at hdigit
    have hdigitChar : ∀ a < 16, ∀ b < 16, Nat.digitChar a = Nat.digitChar b → a = b := by decide
    exact hdigitChar _ (Nat.mod_lt _ (by decide)) _ (Nat.mod_lt _ (by decide)) hdigit
  have hmod := mod_eq_of_digits 16 hsame
  rw [Nat.mod_eq_of_lt (show n.toNat < 16 ^ 16 from n.toNat_lt),
    Nat.mod_eq_of_lt (show m.toNat < 16 ^ 16 from m.toNat_lt)] at hmod
  exact UInt64.toNat_inj.mp hmod

/-- The event of `emit_registered_event_`. -/
def registeredEvent (types : ComponentTypes Ty) (origin : ComponentOrigin) (T : Ty) :
    TraceEvent where
  level := .info
  event := "component_registered"
  fields := [
    ⟨"origin", .str (match origin with | .builtIn => "built_in" | .user => "user")⟩,
    ⟨"type_name", .str (types.typeName T)⟩,
    ⟨"type_id", .str (hex16 (types.id T))⟩,
    ⟨"tick", .u64 0⟩]

/-- The event tells the origin and, without collisions, the type. -/
theorem registeredEvent_inj {types : ComponentTypes Ty} (hid : Function.Injective types.id)
    {o o' : ComponentOrigin} {T T' : Ty}
    (h : registeredEvent types o T = registeredEvent types o' T') :
    o = o' ∧ T = T' := by
  simp only [registeredEvent, TraceEvent.mk.injEq, List.cons.injEq, TraceField.mk.injEq,
    TraceValue.str.injEq, true_and, and_true] at h
  obtain ⟨horigin, -, htype⟩ := h
  refine ⟨?_, hid (hex16_injective htype)⟩
  cases o <;> cases o' <;> simp_all

namespace EntityRegistry

/-- `EntityRegistry(policy)`, with the sink that is set then. -/
def init (policy : ComponentRegistrationPolicy) (sink : Option TraceSink) :
    EntityRegistry Ty V where
  stores := fun _ => none
  policy
  locked := false
  sink

variable (types : ComponentTypes Ty) (r : EntityRegistry Ty V)

/-- A new store for `T`, and the event about it. -/
def addStore (origin : ComponentOrigin) (T : Ty) : EntityRegistry Ty V :=
  { r with
    stores := Function.update r.stores (types.id T) (some ⟨T, origin, none⟩)
    sink := r.sink.map (· ++ [registeredEvent types origin T]) }

variable [DecidableEq Ty]

/-- `register_impl`. -/
def registerImpl (origin : ComponentOrigin) (T : Ty) : EntityRegistry Ty V × RegistrationStatus :=
  if r.locked ∧ r.policy = .lockAfterInit then (r, .policyLocked)
  else if origin = .user ∧ r.policy = .builtInOnly then (r, .policyForbidsUser)
  else
    match r.stores (types.id T) with
    | some existing =>
      -- the same type once more, or another one with the same hash
      (r, if existing.typeTag = T then .alreadyRegistered else .typeIdCollision)
    | none => (r.addStore types origin T, .ok)

/-- `register_component`. -/
def registerComponent (T : Ty) : EntityRegistry Ty V × RegistrationStatus :=
  r.registerImpl types .user T

/-- `register_builtin_component`. -/
def registerBuiltinComponent (T : Ty) : EntityRegistry Ty V × RegistrationStatus :=
  r.registerImpl types .builtIn T

omit [DecidableEq Ty]

def lock : EntityRegistry Ty V :=
  { r with locked := true }

def isRegistered (T : Ty) : Bool :=
  (r.stores (types.id T)).isSome

def originOf (T : Ty) : Option ComponentOrigin :=
  (r.stores (types.id T)).map ComponentStore.origin

def has (id : EntityID) (T : Ty) : Bool :=
  if id ≠ SELF_ENTITY then false
  else
    match r.stores (types.id T) with
    | none => false
    | some store => store.value.isSome

/-- `get`, of either kind. -/
def get (id : EntityID) (T : Ty) : Option V :=
  if id ≠ SELF_ENTITY then none
  else
    match r.stores (types.id T) with
    | none => none
    | some typed => typed.value

def emplace (id : EntityID) (T : Ty) (component : V) : Option (EntityRegistry Ty V) :=
  if id ≠ SELF_ENTITY then none
  else
    match r.stores (types.id T) with
    | none => none
    | some typed =>
      some { r with
        stores := Function.update r.stores (types.id T)
          (some { typed with value := some component }) }

def remove (id : EntityID) (T : Ty) : EntityRegistry Ty V :=
  if id ≠ SELF_ENTITY then r
  else
    match r.stores (types.id T) with
    | none => r
    | some store =>
      { r with stores := Function.update r.stores (types.id T) (some { store with value := none }) }

/-! ### The tags of the stores -/

/-- What the registry says of its stores, apart from the values. -/
def tags (i : ComponentTypeID) : Option (Ty × ComponentOrigin) :=
  (r.stores i).map fun store => (store.typeTag, store.origin)

/-- The registries differ in the values at most. -/
structure SameTags (r r' : EntityRegistry Ty V) : Prop where
  tags : r'.tags = r.tags
  policy : r'.policy = r.policy
  locked : r'.locked = r.locked
  sink : r'.sink = r.sink

section

variable {types r} {T : Ty}

/-- A store that gets another value. -/
theorem sameTags_update {store : ComponentStore Ty V} {i : ComponentTypeID}
    (h : r.stores i = some store) (v : Option V) :
    r.SameTags
      { r with stores := Function.update r.stores i (some { store with value := v }) } := by
  refine ⟨funext fun j => ?_, rfl, rfl, rfl⟩
  show (Function.update r.stores _ _ j).map _ = (r.stores j).map _
  by_cases hj : j = i
  · subst hj
    rw [Function.update_self, h]
    rfl
  · rw [Function.update_of_ne hj]

theorem sameTags_emplace {id : EntityID} {v : V} {r' : EntityRegistry Ty V}
    (h : r.emplace types id T v = some r') : r.SameTags r' := by
  unfold emplace at h
  split at h
  · cases h
  · split at h
    · cases h
    · next typed htyped =>
      cases h
      exact sameTags_update htyped (some v)

theorem sameTags_remove (id : EntityID) : r.SameTags (r.remove types id T) := by
  unfold remove
  split
  · exact ⟨rfl, rfl, rfl, rfl⟩
  · split
    · exact ⟨rfl, rfl, rfl, rfl⟩
    · next store hstore => exact sameTags_update hstore none

/-- A new store has the tag of the type it is for. -/
theorem tags_addStore (origin : ComponentOrigin) :
    (r.addStore types origin T).tags
      = Function.update r.tags (types.id T) (some (T, origin)) := by
  refine funext fun i => ?_
  show (Function.update r.stores _ _ i).map _ = _
  by_cases hi : i = types.id T
  · subst hi
    rw [Function.update_self, Function.update_self]
    rfl
  · rw [Function.update_of_ne hi, Function.update_of_ne hi]
    rfl

end

/-! ### What a registration does -/

/-- The policy lets such a registration through. -/
def Admits (origin : ComponentOrigin) : Prop :=
  ¬ (r.locked = true ∧ r.policy = .lockAfterInit) ∧ ¬ (origin = .user ∧ r.policy = .builtInOnly)

instance (origin : ComponentOrigin) : Decidable (r.Admits origin) :=
  inferInstanceAs (Decidable (_ ∧ _))

variable {types r} [DecidableEq Ty] {origin : ComponentOrigin} {T : Ty}

theorem registerImpl_of_not_admits (h : ¬ r.Admits origin) :
    (r.registerImpl types origin T).1 = r ∧
      (r.registerImpl types origin T).2 ∈ [.policyLocked, .policyForbidsUser] := by
  unfold registerImpl
  by_cases hlocked : r.locked = true ∧ r.policy = .lockAfterInit
  · rw [if_pos hlocked]
    exact ⟨rfl, List.mem_cons_self⟩
  · have hforbids : origin = .user ∧ r.policy = .builtInOnly := by
      by_contra hno
      exact h ⟨hlocked, hno⟩
    rw [if_neg hlocked, if_pos hforbids]
    exact ⟨rfl, List.mem_cons_of_mem _ (List.mem_singleton_self _)⟩

/-- A free id gets a store. -/
theorem registerImpl_of_free (h : r.Admits origin) (hfree : r.stores (types.id T) = none) :
    r.registerImpl types origin T = (r.addStore types origin T, .ok) := by
  unfold registerImpl
  rw [if_neg h.1, if_neg h.2, hfree]

/-- An id that is taken stays as it is. -/
theorem registerImpl_of_taken (h : r.Admits origin) {store : ComponentStore Ty V}
    (htaken : r.stores (types.id T) = some store) :
    r.registerImpl types origin T =
      (r, if store.typeTag = T then .alreadyRegistered else .typeIdCollision) := by
  unfold registerImpl
  rw [if_neg h.1, if_neg h.2, htaken]

/-- A registration changes neither the policy nor the lock. -/
theorem settings_registerImpl (types : ComponentTypes Ty) (r : EntityRegistry Ty V)
    (origin : ComponentOrigin) (T : Ty) :
    (r.registerImpl types origin T).1.policy = r.policy ∧
      (r.registerImpl types origin T).1.locked = r.locked := by
  by_cases hadmits : r.Admits origin
  · cases hstore : r.stores (types.id T) with
    | none =>
      rw [registerImpl_of_free hadmits hstore]
      exact ⟨rfl, rfl⟩
    | some store =>
      rw [registerImpl_of_taken hadmits hstore]
      exact ⟨rfl, rfl⟩
  · rw [(registerImpl_of_not_admits hadmits).1]
    exact ⟨rfl, rfl⟩

end EntityRegistry

end MithAtomas
