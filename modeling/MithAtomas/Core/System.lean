import Mathlib

/-!
# Systems and their hazard declarations

`include/mith/core/system.h` and the hazard test of `src/core/scheduler.cpp`. A `System` is a
`SystemDescriptor` — a name and the components and resources it declares to read and to write —
together with its `tick`, a function on the state `σ` the systems share (registry, context and the
systems' own fields, whatever a particular development puts there).

`haveHazard` is the scheduler's conflict test: `haveHazard_iff` spells it out and `haveHazard_comm`
says that it does not depend on which of the two systems is asked first.
-/

namespace MithAtomas

-- one name for each of these proofs, so that every module writes the indices of one or two systems
-- in the same way
instance neZeroOne : NeZero 1 := ⟨Nat.one_ne_zero⟩

instance neZeroTwo : NeZero 2 := ⟨Nat.succ_ne_zero 1⟩

/-- `ComponentTypeID`: a 64-bit hash of the component's type name. -/
abbrev ComponentTypeID := UInt64

/-- `enum class ResourceID : std::uint16_t`; `user` stands for the values outside the three
built-in ones (`First_User = 0x1000` on). -/
inductive ResourceID where
  | neighbourTable
  | transportTx
  | transportRx
  | user (id : UInt16)
  deriving DecidableEq, Repr

structure SystemDescriptor where
  name : String
  readsComponents : List ComponentTypeID
  writesComponents : List ComponentTypeID
  readsResources : List ResourceID
  writesResources : List ResourceID
  deriving DecidableEq, Repr

/-- A registered system: its descriptor and what one `tick()` does to the shared state. -/
structure System (σ : Type) where
  describe : SystemDescriptor
  tick : σ → σ

/-- The `intersects` lambda of `have_hazard`: two nested loops over the lists. -/
def intersects {α : Type} [DecidableEq α] (va vb : List α) : Bool :=
  va.any fun x => vb.any fun y => x == y

/-- Two descriptors conflict iff they share a component or resource with at least one writer. -/
def haveHazard (a b : SystemDescriptor) : Bool :=
  if intersects a.writesComponents b.readsComponents then true
  else if intersects a.readsComponents b.writesComponents then true
  else if intersects a.writesComponents b.writesComponents then true
  else if intersects a.writesResources b.readsResources then true
  else if intersects a.readsResources b.writesResources then true
  else if intersects a.writesResources b.writesResources then true
  else false

section Hazard

variable {α : Type} [DecidableEq α]

@[simp] theorem intersects_iff {va vb : List α} :
    intersects va vb = true ↔ ∃ x ∈ va, x ∈ vb := by
  simp [intersects, List.any_eq_true]

/-- The six tests of `haveHazard` as one disjunction. -/
theorem haveHazard_iff {a b : SystemDescriptor} :
    haveHazard a b = true ↔
      (∃ c ∈ a.writesComponents, c ∈ b.readsComponents) ∨
      (∃ c ∈ a.readsComponents, c ∈ b.writesComponents) ∨
      (∃ c ∈ a.writesComponents, c ∈ b.writesComponents) ∨
      (∃ r ∈ a.writesResources, r ∈ b.readsResources) ∨
      (∃ r ∈ a.readsResources, r ∈ b.writesResources) ∨
      (∃ r ∈ a.writesResources, r ∈ b.writesResources) := by
  simp only [haveHazard, Bool.if_true_left, Bool.or_eq_true, decide_eq_true_eq, intersects_iff,
    Bool.false_eq_true, or_false]

/-- Swapping the arguments swaps the write–read and the read–write test of each axis. -/
theorem haveHazard_symm {a b : SystemDescriptor} (h : haveHazard a b = true) :
    haveHazard b a = true := by
  rw [haveHazard_iff] at h ⊢
  rcases h with ⟨x, h₁, h₂⟩ | ⟨x, h₁, h₂⟩ | ⟨x, h₁, h₂⟩ | ⟨x, h₁, h₂⟩ | ⟨x, h₁, h₂⟩ | ⟨x, h₁, h₂⟩
  · exact .inr (.inl ⟨x, h₂, h₁⟩)
  · exact .inl ⟨x, h₂, h₁⟩
  · exact .inr (.inr (.inl ⟨x, h₂, h₁⟩))
  · exact .inr (.inr (.inr (.inr (.inl ⟨x, h₂, h₁⟩))))
  · exact .inr (.inr (.inr (.inl ⟨x, h₂, h₁⟩)))
  · exact .inr (.inr (.inr (.inr (.inr ⟨x, h₂, h₁⟩))))

theorem haveHazard_comm (a b : SystemDescriptor) : haveHazard a b = haveHazard b a := by
  rw [Bool.eq_iff_iff]
  exact ⟨haveHazard_symm, haveHazard_symm⟩

end Hazard

end MithAtomas
