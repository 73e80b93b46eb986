import MithAtomas.Framework.Runs

/-!
# A queue of tasks and its servers

What a pool of workers is for. Tasks are put at the end of a queue, and a server that has none takes
the one at the front. Over a whole run the tasks are taken in the order in which they were
submitted, each of them once (`fifo`), and what has been taken is with a server or finished
(`served`).
-/

namespace TaskQueue

open Runs

variable {T W : Type}

structure State (T W : Type) where
  tasks : List T
  serving : W → Option T

inductive Label (T W : Type) where
  | submit (t : T)
  | take (w : W) (t : T)
  | finish (w : W) (t : T)

inductive Step [DecidableEq W] : State T W → Label T W → State T W → Prop
  | submit {q : State T W} (t : T) : Step q (.submit t) { q with tasks := q.tasks ++ [t] }
  | take {q : State T W} {w : W} {t : T} {rest : List T} (hidle : q.serving w = none)
      (htasks : q.tasks = t :: rest) :
      Step q (.take w t) ⟨rest, Function.update q.serving w (some t)⟩
  | finish {q : State T W} {w : W} {t : T} (hserving : q.serving w = some t) :
      Step q (.finish w t) { q with serving := Function.update q.serving w none }

/-- A sum over the servers after one of them has changed. -/
theorem sum_update_add [Fintype W] [DecidableEq W] {A M : Type} [AddCommMonoid M] (f : A → M)
    (g : W → A) (w : W) (a : A) :
    (∑ v, f (Function.update g w a v)) + f (g w) = (∑ v, f (g v)) + f a := by
  have hrest : ∑ v ∈ Finset.univ.erase w, f (Function.update g w a v) =
      ∑ v ∈ Finset.univ.erase w, f (g v) :=
    Finset.sum_congr rfl fun v hv => by rw [Function.update_of_ne (Finset.ne_of_mem_erase hv)]
  rw [← Finset.add_sum_erase _ (fun v => f (Function.update g w a v)) (Finset.mem_univ w),
    ← Finset.add_sum_erase _ (fun v => f (g v)) (Finset.mem_univ w), hrest, Function.update_self]
  ac_rfl

/-! ### What the labels say -/

def Label.submitted : Label T W → Option T
  | .submit t => some t
  | _ => none

def Label.taken : Label T W → Option T
  | .take _ t => some t
  | _ => none

def Label.finished : Label T W → Option T
  | .finish _ t => some t
  | _ => none

/-- The tasks submitted in a run, in order. -/
def submitted (ls : List (Label T W)) : List T :=
  ls.filterMap Label.submitted

/-- The tasks taken in a run, in order. -/
def taken (ls : List (Label T W)) : List T :=
  ls.filterMap Label.taken

/-- The tasks finished in a run, in order. -/
def finished (ls : List (Label T W)) : List T :=
  ls.filterMap Label.finished

section Runs

variable [DecidableEq W] {q q' : State T W} {ls : List (Label T W)}

/-- **First in, first out**, and nothing is lost or taken twice. -/
theorem fifo (h : Run Step q ls q') : q.tasks ++ submitted ls = taken ls ++ q'.tasks := by
  induction h with
  | nil => exact List.append_nil _
  | @snoc ls m l q' hrun hst ih =>
    unfold submitted taken at ih ⊢
    rw [List.filterMap_append, List.filterMap_append, ← List.append_assoc, ih]
    cases hst with
    | submit t =>
      show _ ++ [t] = (_ ++ []) ++ (m.tasks ++ [t])
      rw [List.append_nil, List.append_assoc]
    | @take w t rest hidle htasks =>
      show _ ++ [] = (_ ++ [t]) ++ rest
      rw [htasks, List.append_nil, List.append_assoc, List.singleton_append]
    | finish hserving =>
      show _ ++ [] = (_ ++ []) ++ m.tasks
      rw [List.append_nil, List.append_nil]

/-- The tasks that the servers have. -/
def State.inHand [Fintype W] (q : State T W) : Multiset T :=
  ∑ w, (q.serving w).elim 0 fun t => {t}

theorem inHand_update [Fintype W] (q : State T W) (tasks : List T) (w : W) (o : Option T) :
    State.inHand ⟨tasks, Function.update q.serving w o⟩ + (q.serving w).elim 0 (fun t => {t}) =
      q.inHand + o.elim 0 (fun t => {t}) :=
  sum_update_add (fun o : Option T => o.elim (0 : Multiset T) fun t => {t}) q.serving w o

/-- **What was taken** is finished or in hand. -/
theorem served [Fintype W] (h : Run Step q ls q') :
    q.inHand + (taken ls : Multiset T) = finished ls + q'.inHand := by
  induction h with
  | nil => exact add_comm _ _
  | @snoc ls m l q' hrun hst ih =>
    unfold taken finished at ih ⊢
    rw [List.filterMap_append, List.filterMap_append, ← Multiset.coe_add, ← Multiset.coe_add,
      ← add_assoc, ih]
    cases hst with
    | submit t =>
      show _ + m.inHand + 0 = (_ + 0) + m.inHand
      abel
    | @take w t rest hidle htasks =>
      have hupdate := inHand_update m rest w (some t)
      rw [hidle, Option.elim_none, add_zero] at hupdate
      rw [hupdate]
      show _ + _ + {t} = (_ + 0) + (m.inHand + {t})
      abel
    | @finish w t hserving =>
      have hupdate := inHand_update m m.tasks w none
      rw [hserving, Option.elim_none, add_zero, Option.elim_some] at hupdate
      rw [← hupdate]
      show _ + (_ + ({t} : Multiset T)) + 0 = (_ + {t}) + _
      abel

/-- **When all is done**, what was submitted has been finished, each task once. -/
theorem finished_perm [Fintype W] (h : Run Step ⟨[], fun _ => none⟩ ls q') (htasks : q'.tasks = [])
    (hidle : ∀ w, q'.serving w = none) :
    taken ls = submitted ls ∧ (finished ls).Perm (submitted ls) := by
  have hfifo := fifo h
  have hserved := served h
  rw [htasks, List.append_nil, List.nil_append] at hfifo
  have hnone : q'.inHand = 0 := Finset.sum_eq_zero fun w _ => by rw [hidle w]; rfl
  have hstart : State.inHand (⟨[], fun _ => none⟩ : State T W) = 0 :=
    Finset.sum_eq_zero fun _ _ => rfl
  rw [hnone, hstart, zero_add, add_zero, Multiset.coe_eq_coe] at hserved
  exact ⟨hfifo.symm, hfifo ▸ hserved.symm⟩

end Runs

end TaskQueue
