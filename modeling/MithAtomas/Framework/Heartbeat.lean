import Mathlib

/-!
# Heartbeats

A sender beats whenever its timer has reached the period, and the timer restarts from zero, so in
ticks of `dt` the real period is rounded up to a whole number of ticks. A receiver, which has a
clock of its own, notes when it has last heard a beat, and forgets the sender when that is longer
ago than a timeout. In a tick of the receiver the forgetting comes first; then it takes the beat
that waits.

Sender and receiver take turns. `Sound` is what holds of a link before each turn. It is kept by both
(`Sound.send`, `Sound.receive`), and while it holds a timeout of at least `period + dt` is never
exceeded (`Sound.recent`).
-/

namespace Heartbeat

variable {K : Type} [Field K] [LinearOrder K]

variable (K) in
/-- A sender and a receiver. -/
@[ext] structure Link where
  /-- the receiver's clock -/
  now : K
  /-- what the clock was when a beat was last heard -/
  heard : Option K
  /-- the time since the last beat, as the sender knows it -/
  timer : K
  /-- a beat waits for the receiver -/
  waiting : Bool

/-- Whose turn it is. -/
inductive Turn where
  | sender
  | receiver
  deriving DecidableEq

variable (dt period timeout : K)

/-- The sender's timer after its tick. -/
def tickTimer (timer : K) : K :=
  if period ≤ timer + dt then 0 else timer + dt

namespace Link

variable (l : Link K)

/-- A tick of the sender. -/
def send : Link K :=
  { l with
    timer := tickTimer dt period l.timer
    waiting := l.waiting || decide (period ≤ l.timer + dt) }

/-- A tick of the receiver. -/
def receive : Link K where
  now := l.now + dt
  heard :=
    if l.waiting then some (l.now + dt)
    else l.heard.filter fun heard => ¬ heard < l.now + dt - timeout
  timer := l.timer
  waiting := false

end Link

/-- What is heard is not older than the sender's timer says; after the sender's turn, one tick less
than that, unless the next beat waits. -/
def Sound (l : Link K) : Turn → Prop
  | .sender => ∀ heard ∈ l.heard, l.now - heard ≤ l.timer
  | .receiver => ∀ heard ∈ l.heard,
      l.now - heard + dt ≤ l.timer ∨ (l.waiting = true ∧ l.now - heard < period)

variable {dt period timeout} {l : Link K} [IsStrictOrderedRing K]

/-- The timer stays within the period. -/
theorem tickTimer_lt (hdt : 0 ≤ dt) (hperiod : 0 < period) {timer : K} (h0 : 0 ≤ timer) :
    0 ≤ tickTimer dt period timer ∧ tickTimer dt period timer < period := by
  unfold tickTimer
  split
  · exact ⟨le_rfl, hperiod⟩
  · next hnot => exact ⟨add_nonneg h0 hdt, not_le.mp hnot⟩

omit [IsStrictOrderedRing K] in
/-- Nothing has been heard. -/
theorem Sound.of_none (h : l.heard = none) (turn : Turn) : Sound dt period l turn := by
  cases turn <;>
  · intro heard hheard
    rw [h] at hheard
    cases hheard

/-- **The sender's turn.** -/
theorem Sound.send (h : Sound dt period l .sender) (hlt : l.timer < period) :
    Sound dt period (l.send dt period) .receiver := by
  intro heard hheard
  have hage := h heard hheard
  show l.now - heard + dt ≤ tickTimer dt period l.timer ∨
    ((l.waiting || decide (period ≤ l.timer + dt)) = true ∧ l.now - heard < period)
  unfold tickTimer
  by_cases hdue : period ≤ l.timer + dt
  · -- it beats, and the last beat heard is less than a period old
    rw [if_pos hdue, decide_eq_true hdue, Bool.or_true]
    exact .inr ⟨rfl, hage.trans_lt hlt⟩
  · rw [if_neg hdue]
    exact .inl (by linarith)

/-- **What has been heard is recent enough** when the receiver's turn comes. -/
theorem Sound.recent (h : Sound dt period l .receiver) (hdt : 0 ≤ dt) (hlt : l.timer < period)
    (htimeout : period + dt ≤ timeout) {heard : K} (hheard : heard ∈ l.heard) :
    ¬ heard < l.now + dt - timeout := by
  rw [not_lt]
  rcases h heard hheard with hage | ⟨-, hage⟩
  · linarith
  · linarith

/-- **The receiver's turn.** -/
theorem Sound.receive (h : Sound dt period l .receiver) (h0 : 0 ≤ l.timer)
    (timeout : K) : Sound dt period (l.receive dt timeout) .sender := by
  intro heard hheard
  show l.now + dt - heard ≤ l.timer
  by_cases hwaiting : l.waiting = true
  · have hnow : (l.receive dt timeout).heard = some (l.now + dt) := if_pos hwaiting
    rw [hnow] at hheard
    obtain rfl := Option.some.inj hheard
    rwa [sub_self]
  · have hkept : (l.receive dt timeout).heard
        = l.heard.filter fun heard => ¬ heard < l.now + dt - timeout := if_neg hwaiting
    rw [hkept] at hheard
    rcases h heard (Option.filter_eq_some_iff.mp hheard).1 with hage | ⟨hwait, -⟩
    · linarith
    · exact absurd hwait hwaiting

end Heartbeat
