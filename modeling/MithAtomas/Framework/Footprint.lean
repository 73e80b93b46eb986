import Mathlib

/-!
# Footprints

A state seen through cells (`Cells`): every location `l` has a value `get l s`, and the values of
all locations determine the state. A function `t` on states has *footprint* `(R, W)` when it
changes nothing outside `W` and what it leaves in `W` depends only on `R` and `W`
(`Touches`). Two functions commute when neither writes what the other reads or writes
(`Touches.commute`).
-/

namespace Footprint

universe u

/-- A state as a collection of cells. -/
structure Cells (S : Type) (Loc : Type) where
  Val : Loc → Type u
  get : (l : Loc) → S → Val l
  ext : ∀ {s s' : S}, (∀ l, get l s = get l s') → s = s'

/-- A state that is a dependent function is its own collection of cells. -/
def Cells.pi (Loc : Type) (V : Loc → Type) : Cells (∀ l, V l) Loc where
  Val := V
  get := fun l s => s l
  ext := fun h => funext h

variable {S Loc : Type} (C : Cells S Loc)

/-- `t` writes only `W`, and what it writes depends only on what it may read or write. -/
structure Touches (t : S → S) (R W : Set Loc) : Prop where
  frame : ∀ s, ∀ l ∉ W, C.get l (t s) = C.get l s
  depends : ∀ s s', (∀ l ∈ R ∪ W, C.get l s = C.get l s') →
    ∀ l ∈ W, C.get l (t s) = C.get l (t s')

variable {C} {t t' : S → S} {R W R' W' : Set Loc}

/-- The footprint of the identity is empty. -/
theorem Touches.id : Touches C (fun s => s) ∅ ∅ where
  frame := fun _ _ _ => rfl
  depends := fun _ _ _ l hl => absurd hl (Set.notMem_empty l)

/-- An update of one cell. -/
theorem touches_update [DecidableEq Loc] {V : Type} {R W : Set Loc} {k : Loc}
    {v : (Loc → V) → V} (hk : k ∈ W) (hv : ∀ s s', (∀ l ∈ R ∪ W, s l = s' l) → v s = v s') :
    Touches (Cells.pi Loc fun _ => V) (fun s => Function.update s k (v s)) R W where
  frame := by
    intro s l hl
    have hne : l ≠ k := fun h => hl (h ▸ hk)
    exact Function.update_of_ne hne _ _
  depends := by
    intro s s' hagree l hl
    have hl' : s l = s' l := hagree l (Or.inr hl)
    show Function.update s k (v s) l = Function.update s' k (v s') l
    rw [hv s s' hagree, Function.update_apply, Function.update_apply, hl']

/-- A footprint may be enlarged, if the new writes are also old reads or frames: a cell that `t`
leaves alone is carried over. -/
theorem Touches.mono (h : Touches C t R W) (hR : R ⊆ R' ∪ W') (hW : W ⊆ W') :
    Touches C t R' W' where
  frame := fun s l hl => h.frame s l fun hlW => hl (hW hlW)
  depends := by
    intro s s' hagree l hl
    by_cases hlW : l ∈ W
    · refine h.depends s s' (fun k hk => hagree k ?_) l hlW
      rcases hk with hk | hk
      · exact hR hk
      · exact Or.inr (hW hk)
    · rw [h.frame s l hlW, h.frame s' l hlW]
      exact hagree l (Or.inr hl)

/-- One after the other. -/
theorem Touches.comp (h : Touches C t R W) (h' : Touches C t' R W) :
    Touches C (fun s => t' (t s)) R W where
  frame := by
    intro s l hl
    rw [h'.frame _ l hl, h.frame s l hl]
  depends := by
    intro s s' hagree l hl
    refine h'.depends _ _ (fun k hk => ?_) l hl
    by_cases hkW : k ∈ W
    · exact h.depends s s' hagree k hkW
    · rw [h.frame s k hkW, h.frame s' k hkW]
      exact hagree k hk

/-- A choice that looks at nothing else. -/
theorem Touches.ite {p : S → Prop} [DecidablePred p]
    (hp : ∀ s s', (∀ l ∈ R ∪ W, C.get l s = C.get l s') → (p s ↔ p s'))
    (h : Touches C t R W) (h' : Touches C t' R W) :
    Touches C (fun s => if p s then t s else t' s) R W where
  frame := by
    intro s l hl
    by_cases hs : p s
    · simp only [if_pos hs, h.frame s l hl]
    · simp only [if_neg hs, h'.frame s l hl]
  depends := by
    intro s s' hagree l hl
    by_cases hs : p s
    · simp only [if_pos hs, if_pos ((hp s s' hagree).mp hs)]
      exact h.depends s s' hagree l hl
    · simp only [if_neg hs, if_neg fun hs' => hs ((hp s s' hagree).mpr hs')]
      exact h'.depends s s' hagree l hl

/-- A second function does not show in the cells the first one may look at. -/
theorem Touches.get_of_disjoint (h : Touches C t R W) (h' : Touches C t' R' W')
    (hd : Disjoint W' (R ∪ W)) (s : S) {l : Loc} (hl : l ∈ W) :
    C.get l (t (t' s)) = C.get l (t s) := by
  refine h.depends _ _ (fun k hk => h'.frame s k ?_) l hl
  exact fun hkW' => Set.disjoint_left.mp hd hkW' hk

/-- **Disjoint footprints commute.** -/
theorem Touches.commute (h : Touches C t R W) (h' : Touches C t' R' W')
    (hd : Disjoint W (R' ∪ W')) (hd' : Disjoint W' (R ∪ W)) : Function.Commute t t' := by
  intro s
  refine C.ext fun l => ?_
  by_cases hl : l ∈ W
  · have hl' : l ∉ W' := fun hlW' => Set.disjoint_left.mp hd' hlW' (Or.inr hl)
    rw [h.get_of_disjoint h' hd' s hl, h'.frame _ l hl']
  · rw [h.frame _ l hl]
    by_cases hl' : l ∈ W'
    · rw [h'.get_of_disjoint h hd s hl']
    · rw [h'.frame _ l hl', h'.frame _ l hl', h.frame _ l hl]

end Footprint
