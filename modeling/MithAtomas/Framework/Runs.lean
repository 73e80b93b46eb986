import Mathlib

/-!
# Finite runs of a labelled step relation

A step relation `step : S → L → S → Prop` is the whole of a transition system here: a *run* is a
list of labels together with the two states it connects (`Run`). The rules of this file are the
ones a safety or a termination argument needs:

* `Run.invariant` — what holds initially and is kept by every step holds at the end of every run;
* `Run.restrict` — if a guard holds at every step taken from a state satisfying an invariant, then
  a run is a run of the guarded relation `Guarded step G`;
* `Run.strengthen` — what the invariant forces of a step is true of every step of the run;
* `Run.length_le` — a measure that drops at every step bounds the length of every run;
* `exists_run_to_stuck` — under such a measure every state has a run to a state with no step;
* `Run.simulate` — steps that are matched one by one make runs that are matched;
* `Run.refine` — so do steps that are matched by one step or by none;
* `Run.of_foldlM` — executing a function that only takes steps of the relation is a run of it.
-/

namespace Runs

variable {S L : Type}

/-- `Run step s ls s'`: the steps labelled `ls`, in order, lead from `s` to `s'`. -/
inductive Run (step : S → L → S → Prop) (s : S) : List L → S → Prop
  | nil : Run step s [] s
  | snoc {ls : List L} {m : S} {l : L} {s' : S} :
      Run step s ls m → step m l s' → Run step s (ls ++ [l]) s'

/-- No step leaves `s`. -/
def Stuck (step : S → L → S → Prop) (s : S) : Prop :=
  ∀ l s', ¬ step s l s'

/-- The steps of `step` at which the guard holds of the state before the step and the label. -/
def Guarded (step : S → L → S → Prop) (G : S → L → Prop) (s : S) (l : L) (s' : S) : Prop :=
  G s l ∧ step s l s'

variable {step : S → L → S → Prop} {s s' s'' : S}

theorem Run.single {l : L} (h : step s l s') : Run step s [l] s' :=
  Run.snoc Run.nil h

theorem Run.trans {ls ls' : List L} (h : Run step s ls s') (h' : Run step s' ls' s'') :
    Run step s (ls ++ ls') s'' := by
  induction h' with
  | nil => rwa [List.append_nil]
  | snoc _ hstep ih =>
    rw [← List.append_assoc]
    exact Run.snoc ih hstep

/-- A run of a finer relation is a run of a coarser one. -/
theorem Run.mono {step' : S → L → S → Prop} (hle : ∀ s l s', step s l s' → step' s l s')
    {ls : List L} (h : Run step s ls s') : Run step' s ls s' := by
  induction h with
  | nil => exact Run.nil
  | snoc _ hstep ih => exact Run.snoc ih (hle _ _ _ hstep)

/-- **The invariant rule.** -/
theorem Run.invariant {I : S → Prop} (hstep : ∀ m l m', I m → step m l m' → I m')
    {ls : List L} (h : Run step s ls s') (h0 : I s) : I s' := by
  induction h with
  | nil => exact h0
  | snoc _ hst ih => exact hstep _ _ _ ih hst

/-- **The guard rule.** If the guarded steps keep `I`, and `I` forces the guard of every step,
then a run of `step` never leaves the guarded relation. -/
theorem Run.restrict {G : S → L → Prop} {I : S → Prop}
    (hkeep : ∀ m l m', I m → Guarded step G m l m' → I m')
    (hgood : ∀ m l m', I m → step m l m' → G m l)
    {ls : List L} (h : Run step s ls s') (h0 : I s) :
    Run (Guarded step G) s ls s' ∧ I s' := by
  induction h with
  | nil => exact ⟨Run.nil, h0⟩
  | snoc _ hst ih =>
    obtain ⟨hrun, hinv⟩ := ih
    have hg : Guarded step G _ _ _ := ⟨hgood _ _ _ hinv hst, hst⟩
    exact ⟨Run.snoc hrun hg, hkeep _ _ _ hinv hg⟩

/-- **The step rule.** What an invariant forces of every step holds of every step of a run. -/
theorem Run.strengthen {P : S → L → S → Prop} {I : S → Prop}
    (hkeep : ∀ m l m', I m → step m l m' → I m')
    (hgood : ∀ m l m', I m → step m l m' → P m l m')
    {ls : List L} (h : Run step s ls s') (h0 : I s) :
    Run (fun m l m' => step m l m' ∧ P m l m') s ls s' := by
  induction h with
  | nil => exact Run.nil
  | snoc hrun hst ih => exact Run.snoc ih ⟨hst, hgood _ _ _ (hrun.invariant hkeep h0) hst⟩

/-- **Bounded runs.** A measure that drops at every step taken under an invariant bounds the
length of every run by its initial value. -/
theorem Run.length_le {I : S → Prop} {μ : S → ℕ}
    (hkeep : ∀ m l m', I m → step m l m' → I m')
    (hdrop : ∀ m l m', I m → step m l m' → μ m' < μ m)
    {ls : List L} (h : Run step s ls s') (h0 : I s) : ls.length + μ s' ≤ μ s := by
  induction h with
  | nil => simp
  | snoc hrun hst ih =>
    have hinv := hrun.invariant hkeep h0
    have hlt := hdrop _ _ _ hinv hst
    rw [List.length_append, List.length_singleton]
    omega

/-- **The simulation rule.** If every step, with a label that satisfies `P`, is matched by a step of
`step'` with the same label, then so is every run. -/
theorem Run.simulate {S' : Type} {step' : S' → L → S' → Prop} {R : S → S' → Prop} {P : L → Prop}
    (hmatch : ∀ m l m' t, R m t → P l → step m l m' → ∃ t', step' t l t' ∧ R m' t')
    {ls : List L} (h : Run step s ls s') (hP : ∀ l ∈ ls, P l) {t : S'} (h0 : R s t) :
    ∃ t', Run step' t ls t' ∧ R s' t' := by
  induction h with
  | nil => exact ⟨t, Run.nil, h0⟩
  | snoc _ hst ih =>
    obtain ⟨u, hrun, hR⟩ := ih fun l hl => hP l (List.mem_append_left _ hl)
    obtain ⟨t', hst', hR'⟩ :=
      hmatch _ _ _ u hR (hP _ (List.mem_append_right _ (List.mem_singleton_self _))) hst
    exact ⟨t', Run.snoc hrun hst', hR'⟩

/-- **The refinement rule.** If `abs` sends every step to the step that `f` names, or leaves the
state where `f` names none, then it sends a run to a run. -/
theorem Run.refine {S' L' : Type} {step' : S' → L' → S' → Prop} (abs : S → S') (f : L → Option L')
    {I : S → Prop} (hkeep : ∀ m l m', I m → step m l m' → I m')
    (hsome : ∀ m l m' l', I m → step m l m' → f l = some l' → step' (abs m) l' (abs m'))
    (hnone : ∀ m l m', I m → step m l m' → f l = none → abs m' = abs m)
    {ls : List L} (h : Run step s ls s') (h0 : I s) :
    Run step' (abs s) (ls.filterMap f) (abs s') := by
  induction h with
  | nil => exact Run.nil
  | @snoc ls m l s' hrun hst ih =>
    have hI := hrun.invariant hkeep h0
    rw [List.filterMap_append]
    cases hf : f l with
    | none =>
      rw [hnone m l s' hI hst hf, List.filterMap_cons_none hf, List.filterMap_nil, List.append_nil]
      exact ih
    | some l' =>
      rw [List.filterMap_cons_some hf, List.filterMap_nil]
      exact Run.snoc ih (hsome m l s' l' hI hst hf)

/-- Under a dropping measure every state has a run that cannot be continued. -/
theorem exists_run_to_stuck {I : S → Prop} {μ : S → ℕ}
    (hkeep : ∀ m l m', I m → step m l m' → I m')
    (hdrop : ∀ m l m', I m → step m l m' → μ m' < μ m) (s : S) (h0 : I s) :
    ∃ ls s', Run step s ls s' ∧ Stuck step s' := by
  induction hn : μ s using Nat.strongRecOn generalizing s with
  | ind n ih =>
    by_cases hstuck : Stuck step s
    · exact ⟨[], s, Run.nil, hstuck⟩
    · unfold Stuck at hstuck
      push Not at hstuck
      obtain ⟨l, m, hst⟩ := hstuck
      obtain ⟨ls, s', hrun, hs'⟩ :=
        ih (μ m) (hn ▸ hdrop s l m h0 hst) m (hkeep s l m h0 hst) rfl
      exact ⟨[l] ++ ls, s', (Run.single hst).trans hrun, hs'⟩

/-- A list of labels executed by a function that implements `step`. -/
theorem Run.of_foldlM {exec : S → L → Option S}
    (hexec : ∀ {m l m'}, exec m l = some m' → step m l m') {ls : List L} {s s' : S}
    (h : ls.foldlM exec s = some s') : Run step s ls s' := by
  induction ls generalizing s with
  | nil =>
    obtain rfl : s = s' := by simpa using h
    exact Run.nil
  | cons l ls ih =>
    rw [List.foldlM_cons, Option.bind_eq_bind, Option.bind_eq_some_iff] at h
    obtain ⟨m, hm, hrest⟩ := h
    exact (Run.single (hexec hm)).trans (ih hrest)

end Runs
