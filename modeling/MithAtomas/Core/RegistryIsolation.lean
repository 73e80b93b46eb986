import MithAtomas.Core.Registry
import MithAtomas.Framework.Runs

/-!
# Types that share an id

Ids are hashes, so two types can have the same one. `register_impl` notices and rejects the second
type (`TypeIdCollision`); no other operation compares types, so each of them works on the first
type's store when it is called for the second.

`isolation_iff` says when a registry keeps types apart: if no two types with the same id are
registered, and never when a registration has been rejected. As long as the calls name no two types
with the same id at all, the registry is a map keyed by type: it gives the results of
`TypedRegistry` (`typed_run`).
-/

namespace MithAtomas

open Runs

variable {Ty V : Type}

/-- A call of a registry. -/
inductive RegistryCall (Ty V : Type) where
  | register (origin : ComponentOrigin) (T : Ty)
  | emplace (id : EntityID) (T : Ty) (component : V)
  | get (id : EntityID) (T : Ty)
  | has (id : EntityID) (T : Ty)
  | remove (id : EntityID) (T : Ty)
  | isRegistered (T : Ty)

/-- The type that a call is for. -/
def RegistryCall.component : RegistryCall Ty V → Ty
  | register _ T | emplace _ T _ | get _ T | has _ T | remove _ T | isRegistered T => T

inductive RegistryResult (V : Type) where
  | status (s : RegistrationStatus)
  | component (v : V)
  | flag (b : Bool)
  | done

variable [DecidableEq Ty] (types : ComponentTypes Ty)

/-- A call, with its result, unless it aborts. -/
def EntityRegistry.call (r : EntityRegistry Ty V) :
    RegistryCall Ty V → Option (EntityRegistry Ty V × RegistryResult V)
  | .register origin T =>
    some ((r.registerImpl types origin T).1, .status (r.registerImpl types origin T).2)
  | .emplace id T component => (r.emplace types id T component).map (·, .done)
  | .get id T => (r.get types id T).map fun v => (r, .component v)
  | .has id T => some (r, .flag (r.has types id T))
  | .remove id T => some (r.remove types id T, .done)
  | .isRegistered T => some (r, .flag (r.isRegistered types T))

/-- A call that does not abort, and its result. -/
def RegistryStep (r : EntityRegistry Ty V) (l : RegistryCall Ty V × RegistryResult V)
    (r' : EntityRegistry Ty V) : Prop :=
  r.call types l.1 = some (r', l.2)

/-! ### A map keyed by type -/

/-- The types that are registered, and the values of those that have one. A type with the id of
another one cannot be registered, but it is not mistaken for it. -/
structure TypedRegistry (Ty V : Type) where
  registered : List Ty
  values : Ty → Option V
  policy : ComponentRegistrationPolicy

namespace TypedRegistry

def init (policy : ComponentRegistrationPolicy) : TypedRegistry Ty V where
  registered := []
  values := fun _ => none
  policy

variable (t : TypedRegistry Ty V)

def register (origin : ComponentOrigin) (T : Ty) : TypedRegistry Ty V × RegistrationStatus :=
  if origin = .user ∧ t.policy = .builtInOnly then (t, .policyForbidsUser)
  else if T ∈ t.registered then (t, .alreadyRegistered)
  else if ∃ T' ∈ t.registered, types.id T' = types.id T then (t, .typeIdCollision)
  else ({ t with registered := t.registered ++ [T] }, .ok)

/-- The same calls. -/
def call : RegistryCall Ty V → Option (TypedRegistry Ty V × RegistryResult V)
  | .register origin T =>
    some ((t.register types origin T).1, .status (t.register types origin T).2)
  | .emplace id T component =>
    if id = SELF_ENTITY ∧ T ∈ t.registered then
      some ({ t with values := Function.update t.values T (some component) }, .done)
    else none
  | .get id T =>
    if id = SELF_ENTITY ∧ T ∈ t.registered then (t.values T).map fun v => (t, .component v)
    else none
  | .has id T =>
    some (t, .flag (decide (id = SELF_ENTITY ∧ T ∈ t.registered) && (t.values T).isSome))
  | .remove id T =>
    if id = SELF_ENTITY ∧ T ∈ t.registered then
      some ({ t with values := Function.update t.values T none }, .done)
    else some (t, .done)
  | .isRegistered T => some (t, .flag (decide (T ∈ t.registered)))

def Step (t : TypedRegistry Ty V) (l : RegistryCall Ty V × RegistryResult V)
    (t' : TypedRegistry Ty V) : Prop :=
  t.call types l.1 = some (t', l.2)

end TypedRegistry

/-- The registry holds what the map does, and the registered types are among `D`. -/
structure Matches (D : Set Ty) (r : EntityRegistry Ty V) (t : TypedRegistry Ty V) : Prop where
  /-- a registered type has its own store -/
  own : ∀ T ∈ t.registered, ∃ store, r.stores (types.id T) = some store ∧ store.typeTag = T ∧
    store.value = t.values T
  /-- there are no other stores -/
  foreign : ∀ i store, r.stores i = some store → i = types.id store.typeTag ∧
    store.typeTag ∈ t.registered
  /-- only registered types have values -/
  unset : ∀ T ∉ t.registered, t.values T = none
  among : ∀ T ∈ t.registered, T ∈ D
  policy : r.policy = t.policy
  unlocked : r.locked = false

section

variable {types} {D : Set Ty} {r : EntityRegistry Ty V} {t : TypedRegistry Ty V}

/-- With distinct ids a lookup finds a type's own store, or none. -/
theorem Matches.lookup (h : Matches types D r t) (hD : Set.InjOn types.id D) {T : Ty} (hT : T ∈ D) :
    if T ∈ t.registered then
      ∃ store, r.stores (types.id T) = some store ∧ store.typeTag = T ∧ store.value = t.values T
    else r.stores (types.id T) = none := by
  split
  · next hreg => exact h.own T hreg
  · next hnot =>
    cases hstore : r.stores (types.id T) with
    | none => rfl
    | some store =>
      obtain ⟨hid, hreg⟩ := h.foreign _ store hstore
      exact absurd (hD hT (h.among _ hreg) hid ▸ hreg) hnot

/-- A value changes, in the store of `T` and in the map. -/
theorem Matches.setValue (h : Matches types D r t) (hD : Set.InjOn types.id D) {T : Ty}
    (hreg : T ∈ t.registered) {store : ComponentStore Ty V}
    (hstore : r.stores (types.id T) = some store) (htag : store.typeTag = T) (v : Option V) :
    Matches types D
      { r with stores := Function.update r.stores (types.id T) (some { store with value := v }) }
      { t with values := Function.update t.values T v } := by
  refine ⟨?_, ?_, ?_, h.among, h.policy, h.unlocked⟩
  · intro T' hT'
    -- other types have other ids, so other stores
    by_cases hsame : T' = T
    · subst hsame
      refine ⟨_, Function.update_self .., htag, ?_⟩
      show v = Function.update t.values T' v T'
      rw [Function.update_self]
    · have hids : types.id T' ≠ types.id T := fun heq =>
        hsame (hD (h.among _ hT') (h.among _ hreg) heq)
      obtain ⟨store', hstore', htag', hvalue'⟩ := h.own T' hT'
      refine ⟨store', ?_, htag', ?_⟩
      · show Function.update r.stores _ _ _ = _
        rw [Function.update_of_ne hids, hstore']
      · show _ = Function.update t.values _ _ _
        rw [Function.update_of_ne hsame, hvalue']
  · intro i store' hstore'
    change Function.update r.stores _ _ i = some store' at hstore'
    by_cases hi : i = types.id T
    · subst hi
      rw [Function.update_self] at hstore'
      cases hstore'
      exact ⟨congrArg types.id htag.symm, htag ▸ hreg⟩
    · rw [Function.update_of_ne hi] at hstore'
      exact h.foreign i store' hstore'
  · intro T' hT'
    have hne : T' ≠ T := fun hsame => hT' (by rwa [hsame])
    show Function.update t.values _ _ _ = none
    rw [Function.update_of_ne hne, h.unset T' hT']

/-- A registration does the same to both. -/
theorem Matches.register (h : Matches types D r t) (hD : Set.InjOn types.id D)
    (origin : ComponentOrigin) {T : Ty} (hT : T ∈ D) :
    Matches types D (r.registerImpl types origin T).1 (t.register types origin T).1 ∧
      (r.registerImpl types origin T).2 = (t.register types origin T).2 := by
  have hlookup := h.lookup hD hT
  have hlocked : ¬ (r.locked = true ∧ r.policy = .lockAfterInit) := by
    rw [h.unlocked]
    exact fun hno => absurd hno.1 (by decide)
  unfold EntityRegistry.registerImpl TypedRegistry.register
  rw [if_neg hlocked, h.policy]
  split
  · exact ⟨h, rfl⟩
  · split at hlookup
    · next hreg =>
      obtain ⟨store, hstore, htag, -⟩ := hlookup
      rw [hstore, if_pos hreg]
      exact ⟨h, if_pos htag⟩
    · next hnot =>
      -- nobody in `D` has the id, so nothing collides
      have hfree : ¬ ∃ T' ∈ t.registered, types.id T' = types.id T := by
        rintro ⟨T', hT', hid⟩
        exact hnot (hD (h.among _ hT') hT hid ▸ hT')
      rw [hlookup, if_neg hnot, if_neg hfree]
      refine ⟨⟨?_, ?_, ?_, ?_, h.policy, h.unlocked⟩, rfl⟩
      · intro T' hT'
        rcases List.mem_append.mp hT' with hold | hnew
        · obtain ⟨store, hstore, hrest⟩ := h.own T' hold
          refine ⟨store, ?_, hrest⟩
          show Function.update r.stores _ _ _ = _
          rw [Function.update_of_ne (fun hid => hfree ⟨T', hold, hid⟩), hstore]
        · rw [List.mem_singleton.mp hnew]
          exact ⟨_, Function.update_self .., rfl, (h.unset T hnot).symm⟩
      · intro i store hstore
        change Function.update r.stores _ _ i = some store at hstore
        by_cases hi : i = types.id T
        · subst hi
          rw [Function.update_self] at hstore
          cases hstore
          exact ⟨rfl, List.mem_append_right _ (List.mem_singleton_self T)⟩
        · rw [Function.update_of_ne hi] at hstore
          obtain ⟨hid, hreg⟩ := h.foreign i store hstore
          exact ⟨hid, List.mem_append_left _ hreg⟩
      · exact fun T' hT' => h.unset T' fun hold => hT' (List.mem_append_left _ hold)
      · intro T' hT'
        rcases List.mem_append.mp hT' with hold | hnew
        · exact h.among _ hold
        · exact List.mem_singleton.mp hnew ▸ hT

theorem Matches.emplace (h : Matches types D r t) (hD : Set.InjOn types.id D) {T : Ty} (hT : T ∈ D)
    {id : EntityID} {v : V} {r' : EntityRegistry Ty V} (hr : r.emplace types id T v = some r') :
    ∃ t', t.call types (.emplace id T v) = some (t', .done) ∧ Matches types D r' t' := by
  have hlookup := h.lookup hD hT
  unfold EntityRegistry.emplace at hr
  by_cases hid : id = SELF_ENTITY
  · rw [if_neg (not_not.mpr hid)] at hr
    split at hlookup
    · next hreg =>
      obtain ⟨store, hstore, htag, -⟩ := hlookup
      rw [hstore] at hr
      cases hr
      exact ⟨_, if_pos ⟨hid, hreg⟩, h.setValue hD hreg hstore htag (some v)⟩
    · rw [hlookup] at hr
      cases hr
  · rw [if_pos hid] at hr
    cases hr

theorem Matches.get (h : Matches types D r t) (hD : Set.InjOn types.id D) {T : Ty} (hT : T ∈ D)
    {id : EntityID} {v : V} (hv : r.get types id T = some v) :
    t.call types (.get id T) = some (t, .component v) := by
  have hlookup := h.lookup hD hT
  unfold EntityRegistry.get at hv
  by_cases hid : id = SELF_ENTITY
  · rw [if_neg (not_not.mpr hid)] at hv
    split at hlookup
    · next hreg =>
      obtain ⟨store, hstore, -, hvalue⟩ := hlookup
      rw [hstore] at hv
      show (if _ then _ else _) = _
      rw [if_pos ⟨hid, hreg⟩, ← hvalue]
      exact congrArg (Option.map fun v => (t, RegistryResult.component v)) hv
    · rw [hlookup] at hv
      cases hv
  · rw [if_pos hid] at hv
    cases hv

theorem Matches.has (h : Matches types D r t) (hD : Set.InjOn types.id D) {T : Ty} (hT : T ∈ D)
    (id : EntityID) :
    r.has types id T = (decide (id = SELF_ENTITY ∧ T ∈ t.registered) && (t.values T).isSome) := by
  have hlookup := h.lookup hD hT
  unfold EntityRegistry.has
  by_cases hid : id = SELF_ENTITY
  · rw [if_neg (not_not.mpr hid)]
    split at hlookup
    · next hreg =>
      obtain ⟨store, hstore, -, hvalue⟩ := hlookup
      rw [hstore, decide_eq_true ⟨hid, hreg⟩, Bool.true_and, ← hvalue]
    · next hnot =>
      rw [hlookup, decide_eq_false fun hyes => hnot hyes.2, Bool.false_and]
  · rw [if_pos hid, decide_eq_false fun hyes => hid hyes.1, Bool.false_and]

theorem Matches.remove (h : Matches types D r t) (hD : Set.InjOn types.id D) {T : Ty} (hT : T ∈ D)
    (id : EntityID) :
    ∃ t', t.call types (.remove id T) = some (t', .done) ∧
      Matches types D (r.remove types id T) t' := by
  have hlookup := h.lookup hD hT
  unfold EntityRegistry.remove
  by_cases hid : id = SELF_ENTITY
  · rw [if_neg (not_not.mpr hid)]
    split at hlookup
    · next hreg =>
      obtain ⟨store, hstore, htag, -⟩ := hlookup
      rw [hstore]
      exact ⟨_, if_pos ⟨hid, hreg⟩, h.setValue hD hreg hstore htag none⟩
    · next hnot =>
      rw [hlookup]
      exact ⟨t, if_neg fun hyes => hnot hyes.2, h⟩
  · rw [if_pos hid]
    exact ⟨t, if_neg fun hyes => hid hyes.1, h⟩

theorem Matches.isRegistered (h : Matches types D r t) (hD : Set.InjOn types.id D) {T : Ty}
    (hT : T ∈ D) : r.isRegistered types T = decide (T ∈ t.registered) := by
  have hlookup := h.lookup hD hT
  unfold EntityRegistry.isRegistered
  split at hlookup
  · next hreg =>
    obtain ⟨store, hstore, -⟩ := hlookup
    rw [hstore, decide_eq_true hreg]
    rfl
  · next hnot =>
    rw [hlookup, decide_eq_false hnot]
    rfl

/-- **One call** on types with distinct ids does the same to both, with the same result. -/
theorem Matches.step (h : Matches types D r t) (hD : Set.InjOn types.id D)
    {l : RegistryCall Ty V × RegistryResult V} {r' : EntityRegistry Ty V} (hl : l.1.component ∈ D)
    (hstep : RegistryStep types r l r') : ∃ t', t.Step types l t' ∧ Matches types D r' t' := by
  obtain ⟨c, res⟩ := l
  change r.call types c = some (r', res) at hstep
  show ∃ t', t.call types c = some (t', res) ∧ _
  -- call by call; what only reads leaves both sides as they are
  cases c with
  | register origin T =>
    obtain ⟨hmatch, hstatus⟩ := h.register hD origin hl
    cases hstep
    exact ⟨_, congrArg (fun s => some (_, RegistryResult.status s)) hstatus.symm, hmatch⟩
  | emplace id T v =>
    obtain ⟨r'', hr'', hsame⟩ := Option.map_eq_some_iff.mp hstep
    cases hsame
    exact h.emplace hD hl hr''
  | get id T =>
    obtain ⟨v, hv, hsame⟩ := Option.map_eq_some_iff.mp hstep
    cases hsame
    exact ⟨t, h.get hD hl hv, h⟩
  | has id T =>
    cases hstep
    exact ⟨t, congrArg (fun b => some (t, RegistryResult.flag b)) (h.has hD hl id).symm, h⟩
  | remove id T =>
    cases hstep
    exact h.remove hD hl id
  | isRegistered T =>
    cases hstep
    exact ⟨t, congrArg (fun b => some (t, RegistryResult.flag b)) (h.isRegistered hD hl).symm, h⟩

omit [DecidableEq Ty] in
theorem matches_init (types : ComponentTypes Ty) (policy : ComponentRegistrationPolicy)
    (sink : Option TraceSink) :
    Matches types D (.init policy sink : EntityRegistry Ty V) (.init policy) :=
  ⟨nofun, nofun, fun _ _ => rfl, nofun, rfl, rfl⟩

end

/-- **Calls that name no two types with one id** have the results of a map keyed by type. -/
theorem typed_run (policy : ComponentRegistrationPolicy) (sink : Option TraceSink)
    {ls : List (RegistryCall Ty V × RegistryResult V)} {r : EntityRegistry Ty V}
    (hrun : Run (RegistryStep types) (.init policy sink) ls r)
    (hids : ∀ l ∈ ls, ∀ l' ∈ ls, types.id l.1.component = types.id l'.1.component →
      l.1.component = l'.1.component) :
    ∃ t, Run (TypedRegistry.Step types) (.init policy) ls t ∧
      Matches types {T | ∃ l ∈ ls, l.1.component = T} r t := by
  have hD : Set.InjOn types.id {T | ∃ l ∈ ls, l.1.component = T} := by
    rintro T ⟨l, hl, rfl⟩ T' ⟨l', hl', rfl⟩ hid
    exact hids l hl l' hl' hid
  exact hrun.simulate (P := fun l => ∃ l' ∈ ls, l'.1.component = l.1.component)
    (fun _ _ _ _ hmatch hl hstep => hmatch.step hD hl hstep) (fun l hl => ⟨l, hl, rfl⟩)
    (matches_init types policy sink)

/-! ### Rejected types -/

/-- The policy lets registrations of this origin through, before the lock. -/
def Permits (policy : ComponentRegistrationPolicy) (origin : ComponentOrigin) : Prop :=
  ¬ (origin = .user ∧ policy = .builtInOnly)

/-- A call that the policy permits registers `T`. -/
def Registers (policy : ComponentRegistrationPolicy)
    (ls : List (RegistryCall Ty V × RegistryResult V))
    (T : Ty) : Prop :=
  ∃ origin s, (.register origin T, .status s) ∈ ls ∧ Permits policy origin

/-- A registration of `U` has been rejected because of its id. -/
def Rejected (ls : List (RegistryCall Ty V × RegistryResult V)) (U : Ty) : Prop :=
  ∃ origin, (.register origin U, .status .typeIdCollision) ∈ ls

/-- `T` is registered: the store under its id is its own. -/
def EntityRegistry.Owns (r : EntityRegistry Ty V) (T : Ty) : Prop :=
  ∃ origin, r.tags (types.id T) = some (T, origin)

/-- **`U` does not get at the value of `T`.** -/
structure Isolated (r : EntityRegistry Ty V) (T U : Ty) : Prop where
  not_registered : r.isRegistered types U = false
  not_has : ∀ id, r.has types id U = false
  not_read : ∀ id, r.get types id U = none
  not_written : ∀ id v r', r.emplace types id U v = some r' →
    r'.stores (types.id T) = r.stores (types.id T)
  not_removed : ∀ id, (r.remove types id U).stores (types.id T) = r.stores (types.id T)

/-- What a registry's tags say of the calls that have been made. -/
structure History (policy : ComponentRegistrationPolicy)
    (ls : List (RegistryCall Ty V × RegistryResult V)) (r : EntityRegistry Ty V) : Prop where
  /-- a store belongs to a type that was registered -/
  owner : ∀ i S origin, r.tags i = some (S, origin) → i = types.id S ∧ Registers policy ls S
  /-- where a registration was permitted there is a store, another type's if it was rejected -/
  settled : ∀ origin X s, (RegistryCall.register origin X, RegistryResult.status s) ∈ ls →
    Permits policy origin →
    ∃ S origin', r.tags (types.id X) = some (S, origin') ∧ (s = .typeIdCollision ↔ S ≠ X)
  /-- a registration that was not permitted was not rejected for its id -/
  refused : ∀ origin X s, (RegistryCall.register origin X, RegistryResult.status s) ∈ ls →
    ¬ Permits policy origin → s ≠ .typeIdCollision
  policy_eq : r.policy = policy
  unlocked : r.locked = false

section

variable {types} {policy : ComponentRegistrationPolicy} {r r' : EntityRegistry Ty V}
  {ls : List (RegistryCall Ty V × RegistryResult V)}

omit [DecidableEq Ty] in
theorem Registers.snoc {T : Ty} (h : Registers policy ls T)
    (l : RegistryCall Ty V × RegistryResult V) : Registers policy (ls ++ [l]) T := by
  obtain ⟨origin, s, hmem, hpermits⟩ := h
  exact ⟨origin, s, List.mem_append_left _ hmem, hpermits⟩

omit [DecidableEq Ty] in
/-- A call that registers nothing and changes no tag. -/
theorem History.snoc_other (h : History types policy ls r) {c : RegistryCall Ty V}
    {res : RegistryResult V} (hc : ∀ origin T, c ≠ .register origin T) (hsame : r.SameTags r') :
    History types policy (ls ++ [(c, res)]) r' := by
  have hold : ∀ {origin X s}, (RegistryCall.register origin X, RegistryResult.status s)
      ∈ ls ++ [(c, res)] → (RegistryCall.register origin X, RegistryResult.status s) ∈ ls := by
    intro origin X s hmem
    rcases List.mem_append.mp hmem with hls | hlast
    · exact hls
    · cases List.mem_singleton.mp hlast
      exact absurd rfl (hc origin X)
  refine ⟨?_, ?_, ?_, hsame.policy.trans h.policy_eq, hsame.locked.trans h.unlocked⟩
  · intro i S origin htag
    obtain ⟨hid, hregisters⟩ := h.owner i S origin (hsame.tags ▸ htag)
    exact ⟨hid, hregisters.snoc _⟩
  · intro origin X s hmem hpermits
    rw [hsame.tags]
    exact h.settled origin X s (hold hmem) hpermits
  · exact fun origin X s hmem => h.refused origin X s (hold hmem)

omit [DecidableEq Ty] in
/-- A registration, by what it does to the tags: those that are there stay, and if it was permitted,
there is one under the id afterwards. -/
theorem History.snoc_register (h : History types policy ls r) {origin : ComponentOrigin} {T : Ty}
    {status : RegistrationStatus} (hpolicy : r'.policy = r.policy) (hlocked : r'.locked = r.locked)
    (hold : ∀ i S o, r.tags i = some (S, o) → r'.tags i = some (S, o))
    (hnew : ∀ i S o, r'.tags i = some (S, o) →
      r.tags i = some (S, o) ∨ (i = types.id T ∧ S = T ∧ Permits policy origin))
    (hsettled : Permits policy origin → ∃ S o, r'.tags (types.id T) = some (S, o) ∧
      (status = .typeIdCollision ↔ S ≠ T))
    (hrefused : ¬ Permits policy origin → status ≠ .typeIdCollision) :
    History types policy (ls ++ [(.register origin T, .status status)]) r' := by
  refine ⟨?_, ?_, ?_, hpolicy.trans h.policy_eq, hlocked.trans h.unlocked⟩
  · intro i S o htag
    -- a tag is an old one, or the one of this call
    rcases hnew i S o htag with hwas | ⟨rfl, rfl, hpermits⟩
    · obtain ⟨hid, hregisters⟩ := h.owner i S o hwas
      exact ⟨hid, hregisters.snoc _⟩
    · exact ⟨rfl, origin, status, List.mem_append_right _ (List.mem_singleton_self _), hpermits⟩
  · intro o X s hmem hpermits
    rcases List.mem_append.mp hmem with hls | hlast
    · obtain ⟨S, o', htag, hiff⟩ := h.settled o X s hls hpermits
      exact ⟨S, o', hold _ S o' htag, hiff⟩
    · cases List.mem_singleton.mp hlast
      exact hsettled hpermits
  · intro o X s hmem hforbidden
    rcases List.mem_append.mp hmem with hls | hlast
    · exact h.refused o X s hls hforbidden
    · cases List.mem_singleton.mp hlast
      exact hrefused hforbidden

/-- **A registration** adds a store, or finds out whose the store under its id is. -/
theorem History.register (h : History types policy ls r) (origin : ComponentOrigin) (T : Ty) :
    History types policy (ls ++ [(.register origin T, .status (r.registerImpl types origin T).2)])
      (r.registerImpl types origin T).1 := by
  obtain ⟨hpolicy, hlocked⟩ := r.settings_registerImpl types origin T
  have hadmits : r.Admits origin ↔ Permits policy origin := by
    unfold EntityRegistry.Admits Permits
    rw [h.policy_eq, h.unlocked]
    exact ⟨And.right, fun hperm => ⟨fun hno => absurd hno.1 (by decide), hperm⟩⟩
  by_cases hadm : r.Admits origin
  · have hpermits := hadmits.mp hadm
    cases hstore : r.stores (types.id T) with
    | none =>
      -- the id is free
      rw [EntityRegistry.registerImpl_of_free hadm hstore] at hpolicy hlocked ⊢
      have htags : (r.addStore types origin T).tags
          = Function.update r.tags (types.id T) (some (T, origin)) :=
        EntityRegistry.tags_addStore origin
      have hfree : r.tags (types.id T) = none := by
        unfold EntityRegistry.tags
        rw [hstore]
        rfl
      refine h.snoc_register hpolicy hlocked ?_ ?_ ?_ (fun hno => absurd hpermits hno)
      · intro i S o htag
        have hi : i ≠ types.id T := by
          rintro rfl
          rw [hfree] at htag
          cases htag
        rw [htags, Function.update_of_ne hi, htag]
      · intro i S o htag
        rw [htags] at htag
        by_cases hi : i = types.id T
        · rw [hi, Function.update_self] at htag
          cases htag
          exact .inr ⟨hi, rfl, hpermits⟩
        · rw [Function.update_of_ne hi] at htag
          exact .inl htag
      · rw [htags]
        exact fun _ => ⟨T, origin, Function.update_self .., nofun, fun hne => absurd rfl hne⟩
    | some store =>
      -- the id is taken, by `T` itself or by a type that it collides with
      rw [EntityRegistry.registerImpl_of_taken hadm hstore] at hpolicy hlocked ⊢
      refine h.snoc_register hpolicy hlocked (fun _ _ _ htag => htag) (fun _ _ _ htag => .inl htag)
        (fun _ => ⟨store.typeTag, store.origin, ?_, ?_⟩) (fun hno => absurd hpermits hno)
      · unfold EntityRegistry.tags
        rw [hstore]
        rfl
      · by_cases hsame : store.typeTag = T
        · rw [if_pos hsame]
          exact ⟨nofun, fun hne => absurd hsame hne⟩
        · rw [if_neg hsame]
          exact ⟨fun _ => hsame, fun _ => rfl⟩
  · have hforbidden : ¬ Permits policy origin := fun hperm => hadm (hadmits.mpr hperm)
    obtain ⟨hsame, hstatus⟩ : (r.registerImpl types origin T).1 = r ∧
        (r.registerImpl types origin T).2 ∈ [.policyLocked, .policyForbidsUser] :=
      EntityRegistry.registerImpl_of_not_admits hadm
    rw [hsame]
    refine h.snoc_register rfl rfl (fun _ _ _ htag => htag) (fun _ _ _ htag => .inl htag)
      (fun hperm => absurd hperm hforbidden) fun _ hcollision => ?_
    rw [hcollision] at hstatus
    exact absurd hstatus (by decide)

theorem History.step (h : History types policy ls r) {l : RegistryCall Ty V × RegistryResult V}
    (hstep : RegistryStep types r l r') : History types policy (ls ++ [l]) r' := by
  obtain ⟨c, res⟩ := l
  change r.call types c = some (r', res) at hstep
  -- only a registration changes the tags
  cases c with
  | register origin T =>
    cases hstep
    exact h.register origin T
  | emplace id T v =>
    obtain ⟨r'', hr'', hsame⟩ := Option.map_eq_some_iff.mp hstep
    cases hsame
    exact h.snoc_other nofun (EntityRegistry.sameTags_emplace hr'')
  | get id T =>
    obtain ⟨v, hv, hsame⟩ := Option.map_eq_some_iff.mp hstep
    cases hsame
    exact h.snoc_other nofun ⟨rfl, rfl, rfl, rfl⟩
  | has id T =>
    cases hstep
    exact h.snoc_other nofun ⟨rfl, rfl, rfl, rfl⟩
  | remove id T =>
    cases hstep
    exact h.snoc_other nofun (EntityRegistry.sameTags_remove id)
  | isRegistered T =>
    cases hstep
    exact h.snoc_other nofun ⟨rfl, rfl, rfl, rfl⟩

omit [DecidableEq Ty] in
theorem history_init (policy : ComponentRegistrationPolicy) (sink : Option TraceSink) :
    History types policy [] (.init policy sink : EntityRegistry Ty V) :=
  ⟨nofun, nofun, nofun, rfl, rfl⟩

theorem History.of_run {sink : Option TraceSink}
    (hrun : Run (RegistryStep types) (.init policy sink) ls r) : History types policy ls r := by
  induction hrun with
  | nil => exact history_init policy sink
  | snoc _ hstep ih => exact ih.step hstep

omit [DecidableEq Ty] in
/-- A rejected type has another one's store under its id, and counts as registered. -/
theorem History.isRegistered_of_rejected (h : History types policy ls r) {U : Ty}
    (hU : Rejected ls U) : r.isRegistered types U = true ∧
      ∃ S, S ≠ U ∧ types.id S = types.id U ∧ Registers policy ls S ∧ Registers policy ls U := by
  obtain ⟨origin, hmem⟩ := hU
  have hpermits : Permits policy origin := by
    by_contra hno
    exact h.refused origin U _ hmem hno rfl
  obtain ⟨S, o, htag, hiff⟩ := h.settled origin U _ hmem hpermits
  obtain ⟨hid, hregisters⟩ := h.owner _ S o htag
  refine ⟨?_, S, hiff.mp rfl, hid.symm, hregisters, origin, _, hmem, hpermits⟩
  obtain ⟨store, hstore, -⟩ := Option.map_eq_some_iff.mp htag
  unfold EntityRegistry.isRegistered
  rw [hstore]
  rfl

omit [DecidableEq Ty] in
/-- Of two types with one id that were to be registered, one is rejected in favour of the owner. -/
theorem History.exists_rejected (h : History types policy ls r) {T U : Ty}
    (hT : Registers policy ls T) (hU : Registers policy ls U) (hid : types.id T = types.id U)
    (hne : T ≠ U) : ∃ S X, S ≠ X ∧ types.id S = types.id X ∧ r.Owns types S ∧ Rejected ls X := by
  obtain ⟨oT, sT, hmemT, hpermT⟩ := hT
  obtain ⟨oU, sU, hmemU, hpermU⟩ := hU
  obtain ⟨S, o, htag, hiffT⟩ := h.settled oT T sT hmemT hpermT
  obtain ⟨S', o', htag', hiffU⟩ := h.settled oU U sU hmemU hpermU
  -- it is the same store
  rw [← hid, htag] at htag'
  cases htag'
  have hids : types.id T = types.id S := (h.owner _ S o htag).1
  have howns : r.Owns types S := ⟨o, hids ▸ htag⟩
  by_cases hST : S = T
  · have hSU : S ≠ U := fun heq => hne (hST.symm.trans heq)
    exact ⟨S, U, hSU, hids.symm.trans hid, howns, oU, hiffU.mpr hSU ▸ hmemU⟩
  · exact ⟨S, T, hST, hids.symm, howns, oT, hiffT.mpr hST ▸ hmemT⟩

end

/-- **When a registry keeps types apart.** Rejected types are isolated if and only if there are
none, that is if no two types with the same id were to be registered. If the calls name no two types
with the same id, the registry gives the results of a map keyed by type. -/
theorem isolation_iff (types : ComponentTypes Ty) (policy : ComponentRegistrationPolicy)
    (sink : Option TraceSink) {ls : List (RegistryCall Ty V × RegistryResult V)}
    {r : EntityRegistry Ty V} (hrun : Run (RegistryStep types) (.init policy sink) ls r) :
    ((∀ T U, T ≠ U → types.id T = types.id U → r.Owns types T → Rejected ls U →
        Isolated types r T U) ↔
      ∀ T U, Registers policy ls T → Registers policy ls U → types.id T = types.id U → T = U) ∧
    ((∀ l ∈ ls, ∀ l' ∈ ls, types.id l.1.component = types.id l'.1.component →
        l.1.component = l'.1.component) →
      ∃ t, Run (TypedRegistry.Step types) (.init policy) ls t ∧
        Matches types {T | ∃ l ∈ ls, l.1.component = T} r t) := by
  have hhistory := History.of_run hrun
  refine ⟨⟨?_, ?_⟩, typed_run types policy sink hrun⟩
  · intro hisolated T U hT hU hid
    by_contra hne
    obtain ⟨S, X, hSX, hids, howns, hrejected⟩ := hhistory.exists_rejected hT hU hid hne
    have hno := (hisolated S X hSX hids howns hrejected).not_registered
    rw [(hhistory.isRegistered_of_rejected hrejected).1] at hno
    cases hno
  · intro hdistinct T U _ _ _ hrejected
    obtain ⟨-, S, hSU, hid, hS, hU⟩ := hhistory.isRegistered_of_rejected hrejected
    exact absurd (hdistinct S U hS hU hid) hSU

/-- Two types with one id. -/
def twins : ComponentTypes Bool where
  typeName := fun _ => "Twin"
  id := fun _ => 7

/-- The first is registered, and the second rejected. -/
def twinCalls : List (RegistryCall Bool ℕ × RegistryResult ℕ) :=
  [(.register .user false, .status .ok), (.register .user true, .status .typeIdCollision)]

theorem twins_run : ∃ r : EntityRegistry Bool ℕ,
    Run (RegistryStep twins) (.init .lockAfterInit none) twinCalls r ∧ r.Owns twins false ∧
      r.isRegistered twins true = true := by
  have hfirst : RegistryStep twins (.init .lockAfterInit none : EntityRegistry Bool ℕ)
      (.register .user false, .status .ok)
      ((EntityRegistry.init .lockAfterInit none).addStore twins .user false) := rfl
  have hsecond : RegistryStep twins
      ((EntityRegistry.init .lockAfterInit none : EntityRegistry Bool ℕ).addStore twins .user false)
      (.register .user true, .status .typeIdCollision) _ := rfl
  exact ⟨_, (Run.single hfirst).snoc hsecond, ⟨.user, rfl⟩, rfl⟩

/-- Two types with ids of their own. -/
def siblings : ComponentTypes Bool where
  typeName := fun T => if T then "Second" else "First"
  id := fun T => if T then 2 else 1

/-- Both get a value, and one is removed. -/
def siblingCalls : List (RegistryCall Bool ℕ × RegistryResult ℕ) :=
  [(.register .user false, .status .ok), (.register .user true, .status .ok),
    (.emplace SELF_ENTITY false 5, .done), (.emplace SELF_ENTITY true 6, .done),
    (.get SELF_ENTITY false, .component 5), (.remove SELF_ENTITY false, .done),
    (.has SELF_ENTITY false, .flag false), (.has SELF_ENTITY true, .flag true),
    (.get SELF_ENTITY true, .component 6)]

theorem run_call {types : ComponentTypes Ty} {ls : List (RegistryCall Ty V × RegistryResult V)}
    {r₀ r r' : EntityRegistry Ty V} (h : Run (RegistryStep types) r₀ ls r) (c : RegistryCall Ty V)
    (res : RegistryResult V) (hc : r.call types c = some (r', res)) :
    Run (RegistryStep types) r₀ (ls ++ [(c, res)]) r' :=
  h.snoc hc

/-- Nothing is mistaken: a map keyed by type gives the same results. -/
theorem isolation_of_siblings : ∃ r : EntityRegistry Bool ℕ,
    Run (RegistryStep siblings) (.init .lockAfterInit none) siblingCalls r ∧
    (∀ T U, T ≠ U → siblings.id T = siblings.id U → r.Owns siblings T → Rejected siblingCalls U →
      Isolated siblings r T U) ∧
    ∃ t, Run (TypedRegistry.Step siblings) (.init .lockAfterInit) siblingCalls t ∧
      Matches siblings {T | ∃ l ∈ siblingCalls, l.1.component = T} r t := by
  have hid : ∀ T U, siblings.id T = siblings.id U → T = U := by decide
  have h₀ : Run (RegistryStep siblings)
    (.init .lockAfterInit none : EntityRegistry Bool ℕ) [] (.init .lockAfterInit none) := .nil
  have h₁ := run_call h₀ (.register .user false) (.status .ok) rfl
  have h₂ := run_call h₁ (.register .user true) (.status .ok) rfl
  have h₃ := run_call h₂ (.emplace SELF_ENTITY false 5) .done rfl
  have h₄ := run_call h₃ (.emplace SELF_ENTITY true 6) .done rfl
  have h₅ := run_call h₄ (.get SELF_ENTITY false) (.component 5) rfl
  have h₆ := run_call h₅ (.remove SELF_ENTITY false) .done rfl
  have h₇ := run_call h₆ (.has SELF_ENTITY false) (.flag false) rfl
  have h₈ := run_call h₇ (.has SELF_ENTITY true) (.flag true) rfl
  have hrun := run_call h₈ (.get SELF_ENTITY true) (.component 6) rfl
  obtain ⟨hisolated, htyped⟩ := isolation_iff siblings .lockAfterInit none hrun
  exact ⟨_, hrun, hisolated.mpr fun T U _ _ => hid T U, htyped fun l _ l' _ => hid _ _⟩

/-- **The rejected type counts as registered.** -/
theorem rejected_is_registered :
    ¬ ∀ (types : ComponentTypes Bool) (policy : ComponentRegistrationPolicy)
      (ls : List (RegistryCall Bool ℕ × RegistryResult ℕ)) (r : EntityRegistry Bool ℕ),
      Run (RegistryStep types) (.init policy none) ls r →
        ∀ T U, T ≠ U → types.id T = types.id U → r.Owns types T → Rejected ls U →
          Isolated types r T U := by
  intro h
  obtain ⟨r, hrun, howns, hregistered⟩ := twins_run
  have hisolated := h twins .lockAfterInit twinCalls r hrun false true (by decide) rfl howns
    ⟨.user, List.mem_cons_of_mem _ (List.mem_singleton_self _)⟩
  rw [hisolated.not_registered] at hregistered
  cases hregistered

end MithAtomas
