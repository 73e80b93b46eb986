import MithAtomas.Core.QueueComponents
import MithAtomas.Framework.Settling
import MithAtomas.Systems.TaskAllocSystem

/-!
# Whether a robot settles on a role

`TaskAllocSystem` counts the robot itself in the role it has, which makes every other role look more
wanted by comparison: `margin` is what it computes for a role while the robot has the role `held`.
Over a table that stays as it is, the robot changes its role twice at most, unless there are two
roles that are each the best candidate while the robot has the other one (`Rivals`). Between these
it goes back and forth for ever.

`role_settles_iff` is over exact arithmetic, positive thresholds and a positive gain, and over all
runs: any length of the ticks, and a merge on or off in any of them.
-/

namespace MithAtomas

open Settling

namespace TaskAllocSystem

/-- A tracked role. -/
def trackedRole (r : Fin MAX_TRACKED_ROLES) : RoleComponent :=
  ⟨UInt32.ofNat r⟩

theorem toNat_trackedRole (r : Fin MAX_TRACKED_ROLES) : (trackedRole r).role.toNat = r :=
  UInt32.toNat_ofNat_of_lt' (lt_trans r.isLt (by decide))

theorem trackedRole_injective : Function.Injective trackedRole := by
  intro r r' h
  have hnat := congrArg (fun c : RoleComponent => c.role.toNat) h
  simp only [toNat_trackedRole] at hnat
  exact Fin.ext hnat

variable (params : Params ℚ) (entries : List (Entry ℚ)) (held : RoleComponent)

/-- The margin of a role, when the robot has the role `held`. -/
def margin (r : Fin MAX_TRACKED_ROLES) : ℚ :=
  (params.desiredRatios.get r * (((1 + UInt32.ofNat entries.length).toNat : ℕ) : ℚ)
      - ((((roleCounts held entries).get r).toNat : ℕ) : ℚ)) * params.stimulusGain
    - params.thresholds.get r

/-- The role is a candidate. -/
def Wanted (r : Fin MAX_TRACKED_ROLES) : Prop :=
  0 < params.desiredRatios.get r ∧ 0 < margin params entries held r

instance : DecidablePred (Wanted params entries held) :=
  fun _ => inferInstanceAs (Decidable (_ ∧ _))

/-- Of two candidates the one with the larger margin is better, and the first one if these are
equal. -/
def Beats (r r' : Fin MAX_TRACKED_ROLES) : Prop :=
  margin params entries held r' < margin params entries held r ∨
    margin params entries held r' = margin params entries held r ∧ r < r'

instance (r : Fin MAX_TRACKED_ROLES) : DecidablePred (Beats params entries held r) :=
  fun _ => inferInstanceAs (Decidable (_ ∨ _))

/-- The best candidate. -/
structure Best (r : Fin MAX_TRACKED_ROLES) : Prop where
  wanted : Wanted params entries held r
  beats : ∀ r', r' ≠ r → Wanted params entries held r' → Beats params entries held r r'

/-- Two roles that are each the best candidate for a robot that has the other one. -/
structure Rivals (r r' : Fin MAX_TRACKED_ROLES) : Prop where
  ne : r ≠ r'
  there : Best params entries (trackedRole r) r'
  back : Best params entries (trackedRole r') r

/-- The robot may go from role to role. -/
def Moves (s t : RoleComponent) : Prop :=
  ∃ r, Best params entries s r ∧ t = trackedRole r ∧ t ≠ s

/-- Ticks one after the other, over the same table. -/
def run (sys : TaskAllocSystem ℚ) (role : RoleComponent) (merging : ℕ → Bool) (dt : ℕ → ℚ) :
    ℕ → TaskAllocSystem ℚ × RoleComponent
  | 0 => (sys, role)
  | k + 1 =>
    let (sys, role) := run sys role merging dt k
    sys.tick entries (merging k) role (dt k)

/-- No threshold and no gain is zero or negative, so that a role is wanted only where robots are
missing. -/
structure Params.Positive : Prop where
  thresholds : ∀ r : Fin MAX_TRACKED_ROLES, 0 < params.thresholds.get r
  stimulusGain : 0 < params.stimulusGain

variable {params entries held}

/-! ### The best candidate -/

/-- The body of the loop, for positive parameters. -/
theorem consider_eq (hpos : params.Positive) (c : Candidate ℚ) (r : Fin MAX_TRACKED_ROLES) :
    consider params (roleCounts held entries)
      (((1 + UInt32.ofNat entries.length).toNat : ℕ) : ℚ) c r
      = if Wanted params entries held r ∧
            (c.candidateExists = false ∨ c.bestMargin < margin params entries held r) then
          ⟨UInt32.ofNat r, margin params entries held r, true⟩
        else c := by
  have hθ := hpos.thresholds r
  unfold consider
  dsimp only
  -- the guards of the loop, in order: ratio, deficit, margin
  split
  · next hratio => rw [if_neg fun h => absurd h.1.1 (not_lt.mpr hratio)]
  · next hratio =>
    split
    · next hdeficit =>
      have hmargin : margin params entries held r ≤ 0 := by
        have hstimulus := mul_nonpos_of_nonpos_of_nonneg hdeficit hpos.stimulusGain.le
        unfold margin
        exact sub_nonpos.mpr (hstimulus.trans hθ.le)
      rw [if_neg fun h => absurd h.1.2 (not_lt.mpr hmargin)]
    · split
      · next hmargin => rw [if_neg fun h => absurd h.1.2 (not_lt.mpr hmargin)]
      · next hmargin =>
        have hwanted : Wanted params entries held r := ⟨not_le.mp hratio, not_le.mp hmargin⟩
        simp only [hwanted, true_and, Bool.not_eq_true]
        rfl

variable (params entries held) in
/-- What the loop has found among the roles `l`: nothing, or the best of them. -/
inductive BestOf (l : List (Fin MAX_TRACKED_ROLES)) : Candidate ℚ → Prop
  | none (c : Candidate ℚ) (hnone : c.candidateExists = false)
      (hall : ∀ r ∈ l, ¬ Wanted params entries held r) : BestOf l c
  | some (r : Fin MAX_TRACKED_ROLES) (hr : r ∈ l) (hwanted : Wanted params entries held r)
      (hbeats : ∀ r' ∈ l, r' ≠ r → Wanted params entries held r' →
        Beats params entries held r r') :
      BestOf l ⟨UInt32.ofNat r, margin params entries held r, true⟩

/-- The first wanted role is taken. -/
theorem BestOf.first {l : List (Fin MAX_TRACKED_ROLES)}
    (hall : ∀ r ∈ l, ¬ Wanted params entries held r) {a : Fin MAX_TRACKED_ROLES}
    (ha : Wanted params entries held a) :
    BestOf params entries held (l ++ [a]) ⟨UInt32.ofNat a, margin params entries held a, true⟩ := by
  refine .some a (List.mem_append_right _ (List.mem_singleton_self a)) ha ?_
  intro r' hr' hne hwanted'
  rcases List.mem_append.mp hr' with hold | hone
  · exact absurd hwanted' (hall r' hold)
  · exact absurd (List.mem_singleton.mp hone) hne

/-- A role with a larger margin takes the place of the best so far. -/
theorem BestOf.replace {l : List (Fin MAX_TRACKED_ROLES)} {r a : Fin MAX_TRACKED_ROLES}
    (hbeats : ∀ r' ∈ l, r' ≠ r → Wanted params entries held r' → Beats params entries held r r')
    (ha : Wanted params entries held a)
    (hlt : margin params entries held r < margin params entries held a) :
    BestOf params entries held (l ++ [a]) ⟨UInt32.ofNat a, margin params entries held a, true⟩ := by
  refine .some a (List.mem_append_right _ (List.mem_singleton_self a)) ha ?_
  intro r' hr' hne hwanted'
  rcases List.mem_append.mp hr' with hold | hone
  · -- `a` is better than the best so far, and that one than `r'`
    refine .inl ?_
    by_cases hsame : r' = r
    · exact hsame ▸ hlt
    · rcases hbeats r' hold hsame hwanted' with hlt' | ⟨heq, -⟩
      · exact hlt'.trans hlt
      · exact heq ▸ hlt
  · exact absurd (List.mem_singleton.mp hone) hne

/-- A later role with a margin that is no larger is passed over. -/
theorem BestOf.keep {l : List (Fin MAX_TRACKED_ROLES)} {r a : Fin MAX_TRACKED_ROLES} (hr : r ∈ l)
    (hwanted : Wanted params entries held r)
    (hbeats : ∀ r' ∈ l, r' ≠ r → Wanted params entries held r' → Beats params entries held r r')
    (hlast : r < a)
    (hle : Wanted params entries held a →
      margin params entries held a ≤ margin params entries held r) :
    BestOf params entries held (l ++ [a]) ⟨UInt32.ofNat r, margin params entries held r, true⟩ := by
  refine .some r (List.mem_append_left _ hr) hwanted ?_
  intro r' hr' hne hwanted'
  rcases List.mem_append.mp hr' with hold | hone
  · exact hbeats r' hold hne hwanted'
  · obtain rfl := List.mem_singleton.mp hone
    -- with equal margins the smaller role stays
    rcases lt_or_eq_of_le (hle hwanted') with hlt | heq
    · exact .inl hlt
    · exact .inr ⟨heq, hlast⟩

/-- **The loop over the roles** ends at the best of them. -/
theorem foldl_consider (entries : List (Entry ℚ)) (held : RoleComponent) (hpos : params.Positive)
    {l : List (Fin MAX_TRACKED_ROLES)} (hl : l.Pairwise (· < ·)) :
    BestOf params entries held l (l.foldl (consider params (roleCounts held entries)
      (((1 + UInt32.ofNat entries.length).toNat : ℕ) : ℚ)) ⟨held.role, 0, false⟩) := by
  -- from the last role: it is the best one if none was found or if it beats the one found
  induction l using List.reverseRecOn with
  | nil => exact .none _ rfl fun r hr => absurd hr List.not_mem_nil
  | append_singleton l a ih =>
    obtain ⟨hbefore, -, hsorted⟩ := List.pairwise_append.mp hl
    rw [List.foldl_concat, consider_eq hpos]
    have hfound := ih hbefore
    generalize List.foldl _ _ l = c at hfound ⊢
    cases hfound with
    | none c hnone hall =>
      by_cases ha : Wanted params entries held a
      · rw [if_pos ⟨ha, .inl hnone⟩]
        exact .first hall ha
      · rw [if_neg fun h => ha h.1]
        refine .none _ hnone fun r' hr' => ?_
        rcases List.mem_append.mp hr' with hold | hone
        · exact hall r' hold
        · exact List.mem_singleton.mp hone ▸ ha
    | some r hr hwanted hbeats =>
      by_cases ha : Wanted params entries held a ∧
          margin params entries held r < margin params entries held a
      · rw [if_pos ⟨ha.1, .inr ha.2⟩]
        exact .replace hbeats ha.1 ha.2
      · rw [if_neg fun h => ha ⟨h.1, h.2.resolve_left Bool.noConfusion⟩]
        exact .keep hr hwanted hbeats (hsorted r hr a (List.mem_singleton_self a))
          fun hwanted' => not_lt.mp fun hlt => ha ⟨hwanted', hlt⟩

theorem candidate_spec (hpos : params.Positive) (entries : List (Entry ℚ)) (held : RoleComponent) :
    ((candidate params held entries).candidateExists = false ∧
        ∀ r, ¬ Best params entries held r) ∨
      ∃ r : Fin MAX_TRACKED_ROLES,
        candidate params held entries = ⟨UInt32.ofNat r, margin params entries held r, true⟩ ∧
          Best params entries held r := by
  have hsorted : (List.finRange MAX_TRACKED_ROLES).Pairwise (· < ·) := List.pairwise_lt_finRange _
  have hbest := foldl_consider entries held hpos hsorted
  unfold candidate
  generalize List.foldl _ _ _ = c at hbest ⊢
  cases hbest with
  | none c hnone hall => exact .inl ⟨hnone, fun r h => hall r (List.mem_finRange r) h.wanted⟩
  | some r _ hwanted hbeats =>
    exact .inr ⟨r, rfl, hwanted, fun r' hne => hbeats r' (List.mem_finRange r') hne⟩

theorem Best.unique {r r' : Fin MAX_TRACKED_ROLES} (h : Best params entries held r)
    (h' : Best params entries held r') : r = r' := by
  by_contra hne
  rcases h.beats r' (Ne.symm hne) h'.wanted with hlt | ⟨heq, hr⟩ <;>
    rcases h'.beats r hne h.wanted with hlt' | ⟨heq', hr'⟩
  · exact lt_asymm hlt hlt'
  · exact hlt.ne heq'.symm
  · exact hlt'.ne heq.symm
  · exact lt_asymm hr hr'

/-! ### Roles that the robot does not have -/

/-- One more robot in role `s`. -/
theorem countRole_get (counts : Vector UInt32 MAX_TRACKED_ROLES) (s : RoleID)
    (r : Fin MAX_TRACKED_ROLES) :
    (countRole counts s).get r = if s.toNat = r then counts.get r + 1 else counts.get r := by
  show (countRole counts s)[r] = if s.toNat = r then counts[r] + 1 else counts[r]
  unfold countRole
  split
  · next hs =>
    simp only [Fin.getElem_fin, Vector.getElem_set]
    split
    · next heq => simp only [heq]
    · rfl
  · next hs =>
    have hne : s.toNat ≠ r := fun heq => hs (lt_of_eq_of_lt heq r.isLt)
    rw [if_neg hne]

/-- The count of a role starts from the robot's own, and is the same for all robots from there. -/
theorem foldl_countRole_congr {counts counts' : Vector UInt32 MAX_TRACKED_ROLES}
    {r : Fin MAX_TRACKED_ROLES} (h : counts.get r = counts'.get r) (entries : List (Entry ℚ)) :
    (entries.foldl (fun counts entry => countRole counts entry.role.role) counts).get r
      = (entries.foldl (fun counts entry => countRole counts entry.role.role) counts').get r := by
  induction entries generalizing counts counts' with
  | nil => exact h
  | cons entry entries ih =>
    refine ih ?_
    rw [countRole_get, countRole_get, h]

/-- The margin of a role does not depend on which other role the robot has. -/
theorem margin_congr {s t : RoleComponent} {r : Fin MAX_TRACKED_ROLES} (hs : s ≠ trackedRole r)
    (ht : t ≠ trackedRole r) : margin params entries s r = margin params entries t r := by
  have hfree : ∀ {s : RoleComponent}, s ≠ trackedRole r →
      (countRole (Vector.replicate MAX_TRACKED_ROLES 0) s.role).get r
        = (Vector.replicate MAX_TRACKED_ROLES (0 : UInt32)).get r := by
    intro s hs
    rw [countRole_get, if_neg]
    intro heq
    refine hs ?_
    obtain ⟨role⟩ := s
    refine congrArg RoleComponent.mk (UInt32.toNat_inj.mp ?_)
    exact heq.trans (toNat_trackedRole r).symm
  have hcounts : (roleCounts s entries).get r = (roleCounts t entries).get r :=
    foldl_countRole_congr ((hfree hs).trans (hfree ht).symm) entries
  unfold margin
  rw [hcounts]

theorem Wanted.congr {s t : RoleComponent} {r : Fin MAX_TRACKED_ROLES}
    (h : Wanted params entries s r) (hs : s ≠ trackedRole r) (ht : t ≠ trackedRole r) :
    Wanted params entries t r :=
  ⟨h.1, (margin_congr hs ht : margin params entries _ _ = margin params entries _ _) ▸ h.2⟩

/-! ### Three moves in a row -/

/-- **A third move means rivals.** The first move goes to the best of the roles that the robot does
not have, the second to the next best, and the third can only go back. -/
theorem rivals_of_moves {s t u v : RoleComponent} (hst : Moves params entries s t)
    (htu : Moves params entries t u) (huv : Moves params entries u v) :
    ∃ r r', Rivals params entries r r' := by
  obtain ⟨r, hr, rfl, hrs⟩ := hst
  obtain ⟨r', hr', rfl, hr's⟩ := htu
  obtain ⟨q, hq, rfl, hqs⟩ := huv
  have hne : r ≠ r' := fun h => hr's (h ▸ rfl)
  have hqr' : q ≠ r' := fun h => hqs (h ▸ rfl)
  have hneq : ∀ {a b : Fin MAX_TRACKED_ROLES}, a ≠ b → trackedRole a ≠ trackedRole b :=
    fun h heq => h (trackedRole_injective heq)
  suffices hback : q = r from ⟨r, r', hne, hr', hback ▸ hq⟩
  by_contra hqr
  by_cases hs : s = trackedRole r'
  · exact hqr ((hs ▸ hr).unique hq).symm
  · -- from `s`, `r` beats `r'`; with `r`, `r'` beats `q`; with `r'`, `q` beats `r`
    have h₁ := hr.beats r' hne.symm (hr'.wanted.congr (hneq hne) hs)
    have h₂ := hr'.beats q hqr' (hq.wanted.congr (hneq (Ne.symm hqr')) (hneq (Ne.symm hqr)))
    have h₃ := hq.beats r (Ne.symm hqr) (hr.wanted.congr (Ne.symm hrs) (hneq hne.symm))
    have hmr : margin params entries (trackedRole r') r = margin params entries s r :=
      margin_congr (hneq hne.symm) (Ne.symm hrs)
    have hmr' : margin params entries (trackedRole r) r' = margin params entries s r' :=
      margin_congr (hneq hne) hs
    have hmq : margin params entries (trackedRole r') q = margin params entries (trackedRole r) q :=
      margin_congr (hneq (Ne.symm hqr')) (hneq (Ne.symm hqr))
    unfold Beats at h₁ h₂ h₃
    rw [hmr'] at h₂
    rw [hmr, hmq] at h₃
    rcases h₁ with h₁ | ⟨e₁, i₁⟩ <;> rcases h₂ with h₂ | ⟨e₂, i₂⟩ <;>
      rcases h₃ with h₃ | ⟨e₃, i₃⟩ <;>
      first
      | linarith
      | exact lt_irrefl _ (i₁.trans (i₂.trans i₃))

/-! ### Ticks -/

section Ticks

variable {sys : TaskAllocSystem ℚ} {merging : Bool} {dt : ℚ}

theorem params_tick : (sys.tick entries merging held dt).1.params = sys.params := by
  unfold tick
  dsimp only
  split <;> rfl

/-- A tick leaves the role alone and lets time pass, or it goes to the best candidate. -/
theorem tick_cases (sys : TaskAllocSystem ℚ) (entries : List (Entry ℚ)) (merging : Bool)
    (held : RoleComponent) (dt : ℚ) (hpos : sys.params.Positive) :
    ((sys.tick entries merging held dt).2 = held ∧
        (sys.tick entries merging held dt).1.timeSinceLastSwitchS = sys.timeSinceLastSwitchS + dt) ∨
      Moves sys.params entries held (sys.tick entries merging held dt).2 := by
  unfold tick
  dsimp only
  split
  · next hswitch =>
    refine .inr ?_
    unfold switches at hswitch
    simp only [Bool.and_eq_true, decide_eq_true_eq] at hswitch
    obtain ⟨⟨hexists, hrole⟩, -⟩ := hswitch
    rcases candidate_spec hpos entries held with ⟨hnone, -⟩ | ⟨r, hbest, hr⟩
    · rw [hnone] at hexists
      cases hexists
    · rw [hbest] at hrole ⊢
      exact ⟨r, hr, rfl, fun heq => hrole (congrArg RoleComponent.role heq)⟩
  · exact .inl ⟨rfl, rfl⟩

/-- When the gate is open in any case, a robot that may move does. -/
theorem tick_moves (sys : TaskAllocSystem ℚ) (merging : Bool) (dt : ℚ) (hpos : sys.params.Positive)
    {t : RoleComponent} (hmoves : Moves sys.params entries held t)
    (hzero : 0 ≤ sys.timeSinceLastSwitchS + dt)
    (hstable : sys.params.stabilityWindowS ≤ sys.timeSinceLastSwitchS + dt) :
    (sys.tick entries merging held dt).2 ≠ held := by
  obtain ⟨r, hr, rfl, hne⟩ := hmoves
  rcases candidate_spec hpos entries held with ⟨-, hnone⟩ | ⟨q, hbest, hq⟩
  · exact absurd hr (hnone r)
  · obtain rfl := hr.unique hq
    have hrole : UInt32.ofNat r ≠ held.role := fun heq => hne (congrArg RoleComponent.mk heq)
    -- no wait while merging; else the stability window has passed
    have hgate : (if merging then 0 else sys.params.stabilityWindowS)
        ≤ sys.timeSinceLastSwitchS + dt := by
      split
      · exact hzero
      · exact hstable
    have hswitch : switches sys.params (candidate sys.params held entries) held merging
        (sys.timeSinceLastSwitchS + dt) = true := by
      unfold switches
      rw [hbest]
      simp only [Bool.true_and, Bool.and_eq_true, decide_eq_true_eq]
      exact ⟨hrole, hgate⟩
    unfold tick
    dsimp only
    rw [if_pos hswitch, hbest]
    exact fun heq => hrole (congrArg RoleComponent.role heq)

end Ticks

/-! ### Runs -/

section Runs

variable {sys : TaskAllocSystem ℚ} {role : RoleComponent} {merging : ℕ → Bool} {dt : ℕ → ℚ}

theorem params_run (k : ℕ) : (run entries sys role merging dt k).1.params = sys.params := by
  induction k with
  | zero => rfl
  | succ k ih => exact params_tick.trans ih

/-- Every tick of a run. -/
theorem run_cases (entries : List (Entry ℚ)) (role : RoleComponent) (merging : ℕ → Bool)
    (dt : ℕ → ℚ) (hpos : sys.params.Positive) (k : ℕ) :
    ((run entries sys role merging dt (k + 1)).2 = (run entries sys role merging dt k).2 ∧
        (run entries sys role merging dt (k + 1)).1.timeSinceLastSwitchS
          = (run entries sys role merging dt k).1.timeSinceLastSwitchS + dt k) ∨
      Moves sys.params entries (run entries sys role merging dt k).2
        (run entries sys role merging dt (k + 1)).2 := by
  have hparams : (run entries sys role merging dt k).1.params = sys.params := params_run k
  have hcases := tick_cases (run entries sys role merging dt k).1 entries (merging k)
    (run entries sys role merging dt k).2 (dt k) (hparams ▸ hpos)
  rwa [hparams] at hcases

open Classical in
/-- How many moves can follow each other from a role, two at most. -/
noncomputable def movesLeft (params : Params ℚ) (entries : List (Entry ℚ))
    (s : RoleComponent) : ℕ :=
  if ∃ t u, Moves params entries s t ∧ Moves params entries t u then 2
  else if ∃ t, Moves params entries s t then 1 else 0

theorem movesLeft_le (s : RoleComponent) : movesLeft params entries s ≤ 2 := by
  unfold movesLeft
  split
  · exact le_rfl
  · split <;> decide

/-- Without rivals a move uses one up. -/
theorem movesLeft_lt (hno : ¬ ∃ r r', Rivals params entries r r') {s t : RoleComponent}
    (hst : Moves params entries s t) : movesLeft params entries t < movesLeft params entries s := by
  have hlast : ¬ ∃ u v, Moves params entries t u ∧ Moves params entries u v :=
    fun ⟨u, v, htu, huv⟩ => hno (rivals_of_moves hst htu huv)
  have hsome : ∃ t, Moves params entries s t := ⟨t, hst⟩
  by_cases hnext : ∃ u, Moves params entries t u
  · obtain ⟨u, htu⟩ := hnext
    have htwo : ∃ t u, Moves params entries s t ∧ Moves params entries t u := ⟨t, u, hst, htu⟩
    have hone : ∃ u, Moves params entries t u := ⟨u, htu⟩
    unfold movesLeft
    rw [if_neg hlast, if_pos hone, if_pos htwo]
    exact Nat.one_lt_two
  · unfold movesLeft
    rw [if_neg hlast, if_neg hnext, if_pos hsome]
    split <;> decide

/-- **Without rivals the role settles**, after two changes at most. -/
theorem settles_of_no_rivals (hpos : sys.params.Positive)
    (hno : ¬ ∃ r r', Rivals sys.params entries r r') (role : RoleComponent) (merging : ℕ → Bool)
    (dt : ℕ → ℚ) : Settles (fun k => (run entries sys role merging dt k).2) 2 := by
  refine (settles_of_measure (movesLeft sys.params entries) fun k => ?_).mono (movesLeft_le _)
  rcases run_cases entries role merging dt hpos k with ⟨hstay, -⟩ | hmove
  · exact .inl hstay
  · exact .inr (movesLeft_lt hno hmove)

/-- With rivals the role stays one of the two. -/
theorem run_rivals (hpos : sys.params.Positive) {r r' : Fin MAX_TRACKED_ROLES}
    (h : Rivals sys.params entries r r') (merging : ℕ → Bool) (dt : ℕ → ℚ) (k : ℕ) :
    (run entries sys (trackedRole r) merging dt k).2 = trackedRole r ∨
      (run entries sys (trackedRole r) merging dt k).2 = trackedRole r' := by
  induction k with
  | zero => exact .inl rfl
  | succ k ih =>
    rcases run_cases entries (trackedRole r) merging dt hpos k with ⟨hstay, -⟩ | ⟨q, hq, hmove, -⟩
    · rwa [hstay]
    · rw [hmove]
      rcases ih with hr | hr' <;>
        rw [show (run entries sys (trackedRole r) merging dt k).2 = _ from ‹_›] at hq
      · exact .inr (congrArg trackedRole (hq.unique h.there))
      · exact .inl (congrArg trackedRole (hq.unique h.back))

/-- **With rivals the role never settles**: whatever the windows, they elapse. -/
theorem not_settles_of_rivals (sys : TaskAllocSystem ℚ) (hpos : sys.params.Positive)
    {r r' : Fin MAX_TRACKED_ROLES} (h : Rivals sys.params entries r r') (merging : ℕ → Bool)
    {dt : ℚ} (hdt : 0 < dt) (n : ℕ) :
    ¬ Settles (fun k => (run entries sys (trackedRole r) merging (fun _ => dt) k).2) n := by
  refine not_settles_of_recurrent (fun K => ?_) n
  by_contra hconstant
  push Not at hconstant
  set states := run entries sys (trackedRole r) merging fun _ => dt with hstates
  have hstay : ∀ k, K ≤ k → (states (k + 1)).2 = (states k).2 := hconstant
  -- as long as the role stays, the time since the last switch grows
  have htime : ∀ j : ℕ, (states (K + j)).1.timeSinceLastSwitchS
      = (states K).1.timeSinceLastSwitchS + j * dt := by
    intro j
    induction j with
    | zero => simp
    | succ j ih =>
      rcases run_cases entries (trackedRole r) merging (fun _ => dt) hpos (K + j) with
        ⟨-, hpass⟩ | ⟨q, -, -, hne⟩
      · calc (states (K + (j + 1))).1.timeSinceLastSwitchS
            = (states (K + j)).1.timeSinceLastSwitchS + dt := hpass
          _ = (states K).1.timeSinceLastSwitchS + (j + 1 : ℕ) * dt := by
              rw [ih]
              push_cast
              ring
      · exact absurd (hstay (K + j) (Nat.le_add_right K j)) hne
  obtain ⟨j, hj⟩ := exists_nat_gt
    ((max 0 sys.params.stabilityWindowS - (states K).1.timeSinceLastSwitchS) / dt)
  have hopen : max 0 sys.params.stabilityWindowS
      ≤ (states (K + j)).1.timeSinceLastSwitchS + dt := by
    rw [div_lt_iff₀ hdt] at hj
    rw [htime j]
    linarith
  have hparams : (states (K + j)).1.params = sys.params := params_run (K + j)
  have hmoves : ∃ t, Moves sys.params entries (states (K + j)).2 t := by
    rcases run_rivals hpos h merging (fun _ => dt) (K + j) with hr | hr'
    · rw [hr]
      exact ⟨_, r', h.there, rfl, fun heq => h.ne (trackedRole_injective heq).symm⟩
    · rw [hr']
      exact ⟨_, r, h.back, rfl, fun heq => h.ne (trackedRole_injective heq)⟩
  obtain ⟨t, ht⟩ := hmoves
  refine tick_moves (states (K + j)).1 (merging (K + j)) dt (hparams ▸ hpos) (hparams ▸ ht)
    ((le_max_left _ _).trans hopen) ?_
    (hstay (K + j) (Nat.le_add_right K j))
  rw [hparams]
  exact (le_max_right _ _).trans hopen

end Runs

/-- **When the role settles.** Over a constant table, for every role to start with and in every run,
the role changes at most `MAX_TRACKED_ROLES` times if and only if there are no rivals. Between
rivals it goes back and forth in every run of ticks of one length. -/
theorem role_settles_iff (params : Params ℚ) (hpos : params.Positive) (entries : List (Entry ℚ)) :
    ((∀ (sys : TaskAllocSystem ℚ), sys.params = params → ∀ (role : RoleComponent)
        (merging : ℕ → Bool) (dt : ℕ → ℚ),
        Settles (fun k => (run entries sys role merging dt k).2) MAX_TRACKED_ROLES) ↔
      ¬ ∃ r r', Rivals params entries r r') ∧
    ∀ r r', Rivals params entries r r' → ∀ (sys : TaskAllocSystem ℚ), sys.params = params →
      ∀ (merging : ℕ → Bool) (dt : ℚ), 0 < dt → ∀ n,
        ¬ Settles (fun k => (run entries sys (trackedRole r) merging (fun _ => dt) k).2) n := by
  refine ⟨⟨?_, ?_⟩, ?_⟩
  · rintro hsettles ⟨r, r', hrivals⟩
    exact not_settles_of_rivals ⟨params, 0, 0⟩ hpos hrivals (fun _ => false) one_pos _
      (hsettles ⟨params, 0, 0⟩ rfl (trackedRole r) (fun _ => false) fun _ => 1)
  · rintro hno sys rfl role merging dt
    exact (settles_of_no_rivals hpos hno role merging dt).mono (by decide)
  · rintro r r' hrivals sys rfl merging dt hdt n
    exact not_settles_of_rivals sys hpos hrivals merging hdt n

section Examples

/-- Two roles, each for half of the swarm. -/
def halves (threshold : ℚ) : Params ℚ where
  desiredRatios := #v[1 / 2, 1 / 2, 0, 0, 0, 0, 0, 0]
  thresholds := Vector.replicate 8 threshold
  stabilityWindowS := 1
  stimulusGain := 1

theorem halves_positive {threshold : ℚ} (h : 0 < threshold) : (halves threshold).Positive where
  thresholds := by
    intro r
    have hr : (halves threshold).thresholds.get r = threshold := by
      show (halves threshold).thresholds[r] = threshold
      simp [halves]
    rw [hr]
    exact h
  stimulusGain := one_pos

/-- The table of a robot that has heard one other, in role 0. -/
def oneAtWork : List (Entry ℚ) :=
  [.ofBeacon { StateVector.empty with role := trackedRole 0 } 0 none]

/-- With a threshold of a half a robot takes the other role when its second is over, and keeps
it. -/
theorem halves_settles :
    (¬ ∃ r r', Rivals (halves (1 / 2)) oneAtWork r r') ∧
      (run oneAtWork ⟨halves (1 / 2), 0, 0⟩ (trackedRole 0) (fun _ => false)
        (fun _ => 1 / 20) 19).2 = trackedRole 0 ∧
      (run oneAtWork ⟨halves (1 / 2), 0, 0⟩ (trackedRole 0) (fun _ => false)
        (fun _ => 1 / 20) 20).2 = trackedRole 1 ∧
      Settles (fun k => (run oneAtWork ⟨halves (1 / 2), 0, 0⟩ (trackedRole 0) (fun _ => false)
        (fun _ => 1 / 20) k).2) MAX_TRACKED_ROLES := by
  have hback : ∀ r r', Wanted (halves (1 / 2)) oneAtWork (trackedRole r) r' →
      ¬ Wanted (halves (1 / 2)) oneAtWork (trackedRole r') r := by decide +kernel
  have hno : ¬ ∃ r r', Rivals (halves (1 / 2)) oneAtWork r r' :=
    fun ⟨r, r', h⟩ => hback r r' h.there.wanted h.back.wanted
  exact ⟨hno, by decide +kernel, by decide +kernel,
    (role_settles_iff (halves (1 / 2)) (halves_positive (by norm_num)) oneAtWork).1.mpr hno
      ⟨halves (1 / 2), 0, 0⟩ rfl (trackedRole 0) (fun _ => false) fun _ => 1 / 20⟩

/-- With a smaller one and alone, each of the two roles wants the robot that has the other. -/
theorem halves_rivals : Rivals (halves (1 / 10)) [] 0 1 where
  ne := by decide
  there :=
    { wanted := by decide +kernel
      beats := by decide +kernel }
  back :=
    { wanted := by decide +kernel
      beats := by decide +kernel }

/-- **A robot alone that never settles**, in ticks of any length. -/
theorem lone_robot_alternates :
    ¬ ∀ params : Params ℚ, params.Positive → params.desiredRatios.toList.sum ≤ 1 →
      ∀ (entries : List (Entry ℚ)) (sys : TaskAllocSystem ℚ), sys.params = params →
      ∀ (role : RoleComponent) (merging : ℕ → Bool) (dt : ℕ → ℚ),
        Settles (fun k => (run entries sys role merging dt k).2) MAX_TRACKED_ROLES := by
  intro h
  have hpos : (halves (1 / 10)).Positive := halves_positive (by norm_num)
  exact not_settles_of_rivals ⟨halves (1 / 10), 0, 0⟩ hpos halves_rivals (fun _ => false)
    (by norm_num : (0 : ℚ) < 1 / 20) _
    (h (halves (1 / 10)) hpos (by decide +kernel) [] ⟨halves (1 / 10), 0, 0⟩ rfl (trackedRole 0)
      (fun _ => false) fun _ => 1 / 20)

end Examples

end TaskAllocSystem

end MithAtomas
