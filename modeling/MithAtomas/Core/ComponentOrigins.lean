import MithAtomas.Core.Registry

/-!
# The origin of a component

`World::init` registers the built-in component types through the privileged path and ignores the
results, as these are first registrations that cannot fail. They are not when the mission has called
`register_component` for one of the types before: then that registration stays, with the origin
`User`.

`Records` is what registrations leave behind: the first one that is admitted for each type
(`firsts`). With it, `origins_iff` says when the origins after `init` are those of the runtime.
-/

namespace MithAtomas

variable {Ty V : Type}

/-- The component types of a program, with the built-in ones, and without collisions. -/
structure ProgramTypes (Ty : Type) extends ComponentTypes Ty where
  id_injective : Function.Injective id
  builtin : Builtin ↪ Ty

/-- A registration: the type, and the origin that comes with the path. -/
abbrev ComponentRegistration (Ty : Type) := Ty × ComponentOrigin

variable [DecidableEq Ty]

namespace EntityRegistry

variable (types : ComponentTypes Ty)

/-- Registrations, one after the other; the results are ignored. -/
def registerAll (r : EntityRegistry Ty V) (regs : List (ComponentRegistration Ty)) :
    EntityRegistry Ty V :=
  regs.foldl (fun r reg => (r.registerImpl types reg.2 reg.1).1) r

end EntityRegistry

/-- The part of `World::init` that concerns the registry, with the values that it emplaces: an abort
if one of these has no store. -/
def initRegistry (types : ProgramTypes Ty) (defaults : Builtin → V) (r : EntityRegistry Ty V) :
    Option (EntityRegistry Ty V) :=
  let r := Builtin.all.foldl
    (fun r b => (r.registerBuiltinComponent types.toComponentTypes (types.builtin b)).1) r
  (Builtin.all.foldlM
    (fun (r : EntityRegistry Ty V) b =>
      r.emplace types.toComponentTypes SELF_ENTITY (types.builtin b) (defaults b)) r).map
    EntityRegistry.lock

/-- A World's registry after the mission's calls of `register_component` and `init`; a sink has been
there from the start. -/
def registryAfterInit (types : ProgramTypes Ty) (policy : ComponentRegistrationPolicy)
    (defaults : Builtin → V) (calls : List Ty) : Option (EntityRegistry Ty V) :=
  initRegistry types defaults (calls.foldl
    (fun r T => (r.registerComponent types.toComponentTypes T).1) (.init policy (some [])))

/-! ### The first registrations -/

/-- The registrations that find their id free. -/
def firsts (regs : List (ComponentRegistration Ty)) : List (ComponentRegistration Ty) :=
  regs.foldl (fun acc reg => if reg.1 ∈ acc.map Prod.fst then acc else acc ++ [reg]) []

theorem firsts_concat (regs : List (ComponentRegistration Ty)) (reg : ComponentRegistration Ty) :
    firsts (regs ++ [reg]) =
      if reg.1 ∈ (firsts regs).map Prod.fst then firsts regs else firsts regs ++ [reg] :=
  List.foldl_concat ..

theorem nodup_firsts (regs : List (ComponentRegistration Ty)) :
    ((firsts regs).map Prod.fst).Nodup := by
  induction regs using List.reverseRecOn with
  | nil => exact List.nodup_nil
  | append_singleton regs reg ih =>
    rw [firsts_concat]
    split
    · exact ih
    · next hnew =>
      rw [List.map_append, List.map_singleton]
      exact List.nodup_append.mpr ⟨ih, List.nodup_singleton _, fun a ha b hb heq =>
        hnew (List.mem_singleton.mp hb ▸ heq ▸ ha)⟩

/-- Every type that is registered has a first registration. -/
theorem map_fst_firsts_subset {regs : List (ComponentRegistration Ty)} {T : Ty} :
    T ∈ (firsts regs).map Prod.fst ↔ T ∈ regs.map Prod.fst := by
  induction regs using List.reverseRecOn with
  | nil => exact Iff.rfl
  | append_singleton regs reg ih =>
    rw [firsts_concat, List.map_append, List.mem_append, ← ih, List.map_singleton,
      List.mem_singleton]
    split
    · next hold => exact ⟨.inl, fun h => h.elim id fun heq => heq ▸ hold⟩
    · rw [List.map_append, List.mem_append, List.map_singleton, List.mem_singleton]

theorem mem_of_mem_firsts {regs : List (ComponentRegistration Ty)} {reg : ComponentRegistration Ty}
    (h : reg ∈ firsts regs) : reg ∈ regs := by
  induction regs using List.reverseRecOn with
  | nil => exact h
  | append_singleton regs last ih =>
    rw [firsts_concat] at h
    split at h
    · exact List.mem_append_left _ (ih h)
    · rcases List.mem_append.mp h with hold | hlast
      · exact List.mem_append_left _ (ih hold)
      · exact List.mem_append_right _ hlast

/-- What comes later does not replace a first registration. -/
theorem firsts_append_of_mem {regs later : List (ComponentRegistration Ty)}
    {reg : ComponentRegistration Ty}
    (h : reg ∈ firsts regs) : reg ∈ firsts (regs ++ later) := by
  induction later using List.reverseRecOn with
  | nil => rwa [List.append_nil]
  | append_singleton later last ih =>
    rw [← List.append_assoc, firsts_concat]
    split
    · exact ih
    · exact List.mem_append_left _ ih

/-- A new type's registration is its first. -/
theorem mem_firsts_append {regs later : List (ComponentRegistration Ty)}
    {reg : ComponentRegistration Ty}
    (hmem : reg ∈ later) (hnodup : (later.map Prod.fst).Nodup)
    (hnew : reg.1 ∉ regs.map Prod.fst) : reg ∈ firsts (regs ++ later) := by
  have hlisted : reg.1 ∈ (firsts (regs ++ later)).map Prod.fst := by
    rw [map_fst_firsts_subset, List.map_append]
    exact List.mem_append_right _ (List.mem_map_of_mem hmem)
  obtain ⟨first, hfirst, hsame⟩ := List.mem_map.mp hlisted
  rcases List.mem_append.mp (mem_of_mem_firsts hfirst) with hregs | hlater
  · exact absurd (hsame ▸ List.mem_map_of_mem hregs) hnew
  · -- among the later registrations there is only one of this type
    rw [← List.inj_on_of_nodup_map hnodup hlater hmem hsame]
    exact hfirst

/-! ### What registrations leave behind -/

/-- The registry holds the registrations `regs`, in the order in which their ids were free. -/
structure Records (types : ComponentTypes Ty) (r : EntityRegistry Ty V)
    (regs : List (ComponentRegistration Ty)) : Prop where
  stores : ∀ T, r.stores (types.id T) =
    (regs.find? fun reg => reg.1 = T).map fun reg => ⟨reg.1, reg.2, none⟩
  foreign : ∀ i store, r.stores i = some store → i = types.id store.typeTag
  sink : r.sink = some (regs.map fun reg => registeredEvent types reg.2 reg.1)

/-- The policy admits the registration, before the lock. -/
def AdmittedBy (policy : ComponentRegistrationPolicy) (reg : ComponentRegistration Ty) : Bool :=
  ¬ (reg.2 = .user ∧ policy = .builtInOnly)

section

variable {types : ComponentTypes Ty} {r : EntityRegistry Ty V}
  {regs : List (ComponentRegistration Ty)}

theorem Records.stores_of_mem (h : Records types r regs) (hnodup : (regs.map Prod.fst).Nodup)
    {reg : ComponentRegistration Ty} (hreg : reg ∈ regs) :
    r.stores (types.id reg.1) = some ⟨reg.1, reg.2, none⟩ := by
  rw [h.stores]
  cases hfind : regs.find? (fun other => other.1 = reg.1) with
  | none =>
    have hnone := List.find?_eq_none.mp hfind reg hreg
    simp at hnone
  | some other =>
    have hsame : other.1 = reg.1 := by simpa using List.find?_some hfind
    rw [List.inj_on_of_nodup_map hnodup (List.mem_of_find?_eq_some hfind) hreg hsame]
    rfl

theorem Records.tags_of_mem (h : Records types r regs) (hnodup : (regs.map Prod.fst).Nodup)
    {reg : ComponentRegistration Ty} (hreg : reg ∈ regs) : r.tags (types.id reg.1) = some reg := by
  unfold EntityRegistry.tags
  rw [h.stores_of_mem hnodup hreg]
  rfl

theorem Records.mem_of_tags (h : Records types r regs) {i : ComponentTypeID}
    {reg : ComponentRegistration Ty} (hreg : r.tags i = some reg) : reg ∈ regs := by
  obtain ⟨store, hstore, rfl⟩ := Option.map_eq_some_iff.mp hreg
  rw [h.foreign i store hstore, h.stores] at hstore
  obtain ⟨reg, hfind, rfl⟩ := Option.map_eq_some_iff.mp hstore
  exact List.mem_of_find?_eq_some hfind

/-- **A registration** that is admitted is recorded, if it is the first one for its type. -/
theorem Records.registerImpl (h : Records types r (firsts regs))
    (hid : Function.Injective types.id) (reg : ComponentRegistration Ty)
    (hadmits : r.Admits reg.2) :
    Records types (r.registerImpl types reg.2 reg.1).1 (firsts (regs ++ [reg])) := by
  rw [firsts_concat]
  -- a second registration of a type changes nothing
  by_cases hold : reg.1 ∈ (firsts regs).map Prod.fst
  · rw [if_pos hold]
    obtain ⟨first, hfirst, hsame⟩ := List.mem_map.mp hold
    have htaken := h.stores_of_mem (nodup_firsts regs) hfirst
    rw [hsame] at htaken
    rw [EntityRegistry.registerImpl_of_taken hadmits htaken]
    exact h
  · rw [if_neg hold]
    have hnone : (firsts regs).find? (fun first => first.1 = reg.1) = none := by
      refine List.find?_eq_none.mpr fun first hfirst => ?_
      simpa using fun hsame : first.1 = reg.1 => hold (hsame ▸ List.mem_map_of_mem hfirst)
    have hfree : r.stores (types.id reg.1) = none := by
      rw [h.stores, hnone]
      rfl
    rw [EntityRegistry.registerImpl_of_free hadmits hfree]
    refine ⟨?_, ?_, ?_⟩
    · intro T
      show Function.update r.stores (types.id reg.1) _ (types.id T) = _
      rw [List.find?_append]
      -- ids are injective, so the other types keep their stores
      by_cases hT : T = reg.1
      · subst hT
        rw [Function.update_self, hnone]
        simp
      · rw [Function.update_of_ne (fun heq => hT (hid heq)), h.stores]
        have hlast : [reg].find? (fun other => other.1 = T) = none := by simp [Ne.symm hT]
        rw [hlast, Option.or_none]
    · intro i store hstore
      change Function.update r.stores (types.id reg.1) _ i = some store at hstore
      by_cases hi : i = types.id reg.1
      · subst hi
        rw [Function.update_self] at hstore
        cases hstore
        rfl
      · rw [Function.update_of_ne hi] at hstore
        exact h.foreign i store hstore
    · show r.sink.map _ = _
      rw [h.sink, List.map_append]
      rfl

end

/-- **Registrations before the lock** leave the first ones that the policy admits. -/
theorem records_registerAll {types : ComponentTypes Ty} (hid : Function.Injective types.id)
    (policy : ComponentRegistrationPolicy) (regs : List (ComponentRegistration Ty)) :
    Records types
      ((EntityRegistry.init policy (some []) : EntityRegistry Ty V).registerAll types regs)
        (firsts (regs.filter (AdmittedBy policy))) ∧
      ((EntityRegistry.init policy (some []) : EntityRegistry Ty V).registerAll types regs).policy
        = policy ∧
      ((EntityRegistry.init policy (some []) : EntityRegistry Ty V).registerAll types regs).locked
        = false := by
  induction regs using List.reverseRecOn with
  | nil => exact ⟨⟨fun T => rfl, nofun, rfl⟩, rfl, rfl⟩
  | append_singleton regs reg ih =>
    obtain ⟨hrecords, hpolicy, hlocked⟩ := ih
    unfold EntityRegistry.registerAll at hrecords hpolicy hlocked ⊢
    rw [List.foldl_concat, List.filter_append]
    generalize regs.foldl _ _ = r at hrecords hpolicy hlocked ⊢
    have hiff : r.Admits reg.2 ↔ AdmittedBy policy reg = true := by
      unfold EntityRegistry.Admits AdmittedBy
      simp [hlocked, hpolicy, imp_iff_not_or]
    obtain ⟨hpolicy', hlocked'⟩ := r.settings_registerImpl types reg.2 reg.1
    refine ⟨?_, hpolicy'.trans hpolicy, hlocked'.trans hlocked⟩
    -- before the lock, what is admitted is a matter of the policy
    by_cases hadmits : r.Admits reg.2
    · have hfilter : [reg].filter (AdmittedBy policy) = [reg] := by
        rw [List.filter_cons_of_pos (hiff.mp hadmits), List.filter_nil]
      rw [hfilter]
      exact hrecords.registerImpl hid reg hadmits
    · have hfilter : [reg].filter (AdmittedBy policy) = [] := by
        rw [List.filter_cons_of_neg (fun h => hadmits (hiff.mpr h)), List.filter_nil]
      rw [hfilter, List.append_nil, (EntityRegistry.registerImpl_of_not_admits hadmits).1]
      exact hrecords

/-! ### After `init` -/

section

variable {types : ComponentTypes Ty} {r r' : EntityRegistry Ty V}

omit [DecidableEq Ty] in
/-- A value can be emplaced where there is a store. -/
theorem EntityRegistry.exists_emplace {T : Ty} (h : r.tags (types.id T) ≠ none) (v : V) :
    ∃ r', r.emplace types SELF_ENTITY T v = some r' := by
  unfold tags at h
  unfold emplace
  cases hstore : r.stores (types.id T) with
  | none => exact absurd (by rw [hstore]; rfl) h
  | some typed => exact ⟨_, rfl⟩

omit [DecidableEq Ty] in
/-- The emplacements of `init`. -/
theorem EntityRegistry.exists_foldlM_emplace {A : Type} (types : ComponentTypes Ty)
    (component : A → Ty) (value : A → V)
    (as : List A) (h : ∀ a ∈ as, r.tags (types.id (component a)) ≠ none) :
    ∃ r', as.foldlM (fun (r : EntityRegistry Ty V) a =>
        r.emplace types SELF_ENTITY (component a) (value a)) r = some r' ∧
      r'.tags = r.tags ∧ r'.sink = r.sink := by
  induction as generalizing r with
  | nil => exact ⟨r, rfl, rfl, rfl⟩
  | cons a as ih =>
    obtain ⟨m, hm⟩ := exists_emplace (h a List.mem_cons_self) (value a)
    have hsame := sameTags_emplace hm
    obtain ⟨r', hr', htags', hsink'⟩ := ih (r := m) fun a' ha' =>
      hsame.tags ▸ h a' (List.mem_cons_of_mem _ ha')
    refine ⟨r', ?_, htags'.trans hsame.tags, hsink'.trans hsame.sink⟩
    rw [List.foldlM_cons, hm]
    exact hr'

end

/-- The registrations of a run: the mission's calls, and those of `init`. -/
def registrations (types : ProgramTypes Ty) (calls : List Ty) : List (ComponentRegistration Ty) :=
  calls.map (·, .user) ++ Builtin.all.map fun b => (types.builtin b, .builtIn)

/-- Those that the policy admits and that find their id free. -/
def recorded (types : ProgramTypes Ty) (policy : ComponentRegistrationPolicy) (calls : List Ty) :
    List (ComponentRegistration Ty) :=
  firsts ((registrations types calls).filter (AdmittedBy policy))

section

variable (types : ProgramTypes Ty) (policy : ComponentRegistrationPolicy) (calls : List Ty)

omit [DecidableEq Ty] in
/-- The privileged registrations are admitted under every policy. -/
theorem filter_registrations :
    (registrations types calls).filter (AdmittedBy policy)
      = (calls.map (·, ComponentOrigin.user)).filter (AdmittedBy policy) ++
        Builtin.all.map fun b => (types.builtin b, .builtIn) := by
  unfold registrations
  rw [List.filter_append]
  rfl

omit [DecidableEq Ty] in
theorem nodup_map_builtin :
    ((Builtin.all.map fun b =>
      ((types.builtin b, .builtIn) : ComponentRegistration Ty)).map Prod.fst).Nodup := by
  rw [List.map_map]
  exact Builtin.nodup_all.map types.builtin.injective

/-- A built-in type is registered in any case. -/
theorem builtin_mem_recorded (b : Builtin) :
    types.builtin b ∈ (recorded types policy calls).map Prod.fst := by
  unfold recorded
  rw [map_fst_firsts_subset, filter_registrations, List.map_append]
  refine List.mem_append_right _ ?_
  rw [List.map_map]
  exact List.mem_map_of_mem (f := fun b => types.builtin b) b.mem_all

/-- The registrations of the mission and those of `init` are one list. -/
theorem registerAll_registrations :
    (EntityRegistry.init policy (some []) : EntityRegistry Ty V).registerAll
        types.toComponentTypes (registrations types calls)
      = Builtin.all.foldl
          (fun r b => (r.registerBuiltinComponent types.toComponentTypes (types.builtin b)).1)
          (calls.foldl (fun r T => (r.registerComponent types.toComponentTypes T).1)
            (.init policy (some []))) := by
  unfold EntityRegistry.registerAll registrations
  rw [List.foldl_append, List.foldl_map, List.foldl_map]
  rfl

/-- **The registry after `init`** has the recorded registrations, and their events have been
sent. -/
theorem exists_registryAfterInit (defaults : Builtin → V) :
    ∃ r, registryAfterInit types policy defaults calls = some r ∧
      (∀ reg ∈ recorded types policy calls, r.tags (types.id reg.1) = some reg) ∧
      (∀ i reg, r.tags i = some reg → reg ∈ recorded types policy calls) ∧
      r.sink = some ((recorded types policy calls).map fun reg =>
        registeredEvent types.toComponentTypes reg.2 reg.1) := by
  obtain ⟨hrecords, -, -⟩ := records_registerAll (V := V) types.id_injective policy
    (registrations types calls)
  change Records _ _ (recorded types policy calls) at hrecords
  rw [registerAll_registrations] at hrecords
  have htag : ∀ reg ∈ recorded types policy calls, _ = some reg := fun _ hreg =>
    hrecords.tags_of_mem (nodup_firsts _) hreg
  -- the built-in types have stores, so placing the defaults succeeds
  obtain ⟨r, hr, htags, hsink⟩ := EntityRegistry.exists_foldlM_emplace
    types.toComponentTypes types.builtin defaults Builtin.all (r := _) fun b _ => by
      obtain ⟨reg, hreg, hsame⟩ := List.mem_map.mp (builtin_mem_recorded types policy calls b)
      rw [← hsame, htag reg hreg]
      exact Option.some_ne_none reg
  refine ⟨r.lock, ?_, ?_, ?_, ?_⟩
  · unfold registryAfterInit initRegistry
    simp only
    rw [hr]
    rfl
  · intro reg hreg
    show r.tags _ = _
    rw [htags, htag reg hreg]
  · intro i reg hreg
    change r.tags i = some reg at hreg
    rw [htags] at hreg
    exact hrecords.mem_of_tags hreg
  · show r.sink = _
    rw [hsink, hrecords.sink]

/-- The mission has registered no built-in type, or was not allowed to. -/
def NoBuiltinClaimed : Prop :=
  policy = .builtInOnly ∨ ∀ b, types.builtin b ∉ calls

variable {types policy calls}

/-- Then the first registration of a built-in type is the runtime's. -/
theorem builtin_recorded (h : NoBuiltinClaimed types policy calls) (b : Builtin) :
    (types.builtin b, .builtIn) ∈ recorded types policy calls := by
  unfold recorded
  rw [filter_registrations]
  refine mem_firsts_append (List.mem_map_of_mem b.mem_all) (nodup_map_builtin types) fun hmem => ?_
  obtain ⟨reg, hreg, hsame⟩ := List.mem_map.mp hmem
  obtain ⟨hcall, hadmitted⟩ := List.mem_filter.mp hreg
  obtain ⟨T, hT, rfl⟩ := List.mem_map.mp hcall
  rcases h with hpolicy | hclaimed
  · simp [AdmittedBy, hpolicy] at hadmitted
  · obtain rfl : T = types.builtin b := hsame
    exact hclaimed b hT

/-- A built-in type that the mission could register has the mission's origin. -/
theorem user_recorded (hpolicy : policy ≠ .builtInOnly) {b : Builtin}
    (hb : types.builtin b ∈ calls) : (types.builtin b, .user) ∈ recorded types policy calls := by
  have hadmitted : (calls.map (·, ComponentOrigin.user)).filter (AdmittedBy policy)
      = calls.map (·, ComponentOrigin.user) := by
    refine List.filter_eq_self.mpr fun reg _ => ?_
    simp [AdmittedBy, hpolicy]
  unfold recorded
  rw [filter_registrations, hadmitted]
  refine firsts_append_of_mem ?_
  -- the mission's first registration of the type
  have hlisted : types.builtin b ∈ (firsts (calls.map (·, ComponentOrigin.user))).map Prod.fst := by
    rw [map_fst_firsts_subset, List.map_map]
    exact List.mem_map.mpr ⟨_, hb, rfl⟩
  obtain ⟨reg, hreg, hsame⟩ := List.mem_map.mp hlisted
  obtain ⟨T, -, rfl⟩ := List.mem_map.mp (mem_of_mem_firsts hreg)
  obtain rfl : T = types.builtin b := hsame
  exact hreg

/-- A component with the origin of the runtime is built in. -/
theorem exists_builtin_of_recorded {T : Ty} (h : (T, .builtIn) ∈ recorded types policy calls) :
    ∃ b, T = types.builtin b := by
  have hmem := mem_of_mem_firsts h
  rw [filter_registrations] at hmem
  rcases List.mem_append.mp hmem with hcall | hbuiltin
  · obtain ⟨T', -, hsame⟩ := List.mem_map.mp (List.mem_filter.mp hcall).1
    cases hsame
  · obtain ⟨b, -, hsame⟩ := List.mem_map.mp hbuiltin
    exact ⟨b, (congrArg Prod.fst hsame).symm⟩

end

/-- **The origins can be trusted.** -/
structure OriginsTrusted (types : ProgramTypes Ty) (r : EntityRegistry Ty V) : Prop where
  /-- each built-in component has the origin of the runtime -/
  builtin_origin : ∀ b, r.originOf types.toComponentTypes (types.builtin b) = some .builtIn
  /-- and has been announced once, with that origin -/
  audited : ∃ sink, r.sink = some sink ∧
    ∀ b, sink.count (registeredEvent types.toComponentTypes .builtIn (types.builtin b)) = 1
  /-- nothing else has that origin -/
  only_builtin : ∀ i store, r.stores i = some store → store.origin = .builtIn →
    ∃ b, store.typeTag = types.builtin b

/-- **When the origins can be trusted after `init`**: if and only if the mission has registered no
built-in type before, or the policy forbids the mission to register anything. -/
theorem origins_iff (types : ProgramTypes Ty) (policy : ComponentRegistrationPolicy)
    (defaults : Builtin → V) (calls : List Ty) :
    (∃ r, registryAfterInit types policy defaults calls = some r ∧ OriginsTrusted types r) ↔
      policy = .builtInOnly ∨ ∀ b, types.builtin b ∉ calls := by
  obtain ⟨r, hr, htag, honly, hsink⟩ := exists_registryAfterInit types policy calls defaults
  have horigin : ∀ reg ∈ recorded types policy calls,
      r.originOf types.toComponentTypes reg.1 = some reg.2 := by
    intro reg hreg
    obtain ⟨store, hstore, hsame⟩ := Option.map_eq_some_iff.mp (htag reg hreg)
    unfold EntityRegistry.originOf
    rw [hstore, ← hsame]
    rfl
  constructor
  · rintro ⟨r', hr', htrusted⟩
    obtain rfl : r = r' := Option.some.inj (hr.symm.trans hr')
    by_contra hclaimed
    push Not at hclaimed
    obtain ⟨hpolicy, b, hb⟩ := hclaimed
    -- the program has registered `b` first, as its own
    have huser := horigin _ (user_recorded hpolicy hb)
    rw [htrusted.builtin_origin b] at huser
    cases huser
  · intro hnone
    refine ⟨r, hr, fun b => horigin _ (builtin_recorded hnone b), ⟨_, hsink, fun b => ?_⟩, ?_⟩
    · -- the registrations are of different types, so no two events are the same
      have hnodup : ((recorded types policy calls).map fun reg =>
          registeredEvent types.toComponentTypes reg.2 reg.1).Nodup := by
        refine (List.Nodup.of_map _ (nodup_firsts _)).map_on fun reg _ reg' _ hsame => ?_
        obtain ⟨horigins, htypes⟩ := registeredEvent_inj types.id_injective hsame
        exact Prod.ext htypes horigins
      exact List.count_eq_one_of_mem hnodup (List.mem_map_of_mem (builtin_recorded hnone b))
    · intro i store hstore hbuiltin
      have htagged : r.tags i = some (store.typeTag, store.origin) := by
        unfold EntityRegistry.tags
        rw [hstore]
        rfl
      exact exists_builtin_of_recorded (hbuiltin ▸ honly i _ htagged)

/-- The built-in types by themselves, with the ids 0 to 9. -/
def builtinsOnly : ProgramTypes Builtin where
  typeName := Builtin.typeName
  id := fun b => UInt64.ofNat (Builtin.all.idxOf b)
  id_injective := by
    intro b b' h
    cases b <;> cases b' <;> first | rfl | exact absurd h (by decide)
  builtin := .refl Builtin

/-- A mission that registers the position before `init` takes it over. -/
theorem position_taken_over :
    ¬ ∀ (policy : ComponentRegistrationPolicy) (calls : List Builtin),
      ∃ r, registryAfterInit (V := Unit) builtinsOnly policy (fun _ => ()) calls = some r ∧
        OriginsTrusted builtinsOnly r := by
  intro h
  obtain ⟨r, hr, htrusted⟩ := h .lockAfterInit [.position]
  have hposition := htrusted.builtin_origin .position
  have horigin : (registryAfterInit (V := Unit) builtinsOnly .lockAfterInit (fun _ => ())
      [.position]).map (fun r => r.originOf builtinsOnly.toComponentTypes .position)
      = some (some .user) := by
    decide
  rw [hr] at horigin
  exact absurd (hposition.symm.trans (Option.some.inj horigin)) (by decide)

end MithAtomas
