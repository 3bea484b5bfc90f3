import Mathlib.Data.List.Perm.Basic
import Mathlib.Data.List.Nodup

/-! A channel with a queue: what is submitted is either taken at once or queued, and what is
queued is taken later, from whatever place in the queue. -/
namespace Lib

structure Channel (α : Type*) where
  submitted : List α
  queue : List α
  taken : List α

namespace Channel

variable {α : Type*}

def direct (c : Channel α) (a : α) : Channel α :=
  { c with submitted := c.submitted ++ [a], taken := c.taken ++ [a] }

def enqueue (c : Channel α) (a : α) : Channel α :=
  { c with submitted := c.submitted ++ [a], queue := c.queue ++ [a] }

/-- `a` is taken out of the queue, from between `l` and `r`. -/
def dequeue (c : Channel α) (l : List α) (a : α) (r : List α) : Channel α :=
  { c with queue := l ++ r, taken := c.taken ++ [a] }

inductive Move (c : Channel α) : Channel α → Prop
  | stay : Move c c
  | direct (a : α) : Move c (c.direct a)
  | enqueue (a : α) : Move c (c.enqueue a)
  | dequeue (l : List α) (a : α) (r : List α) (hq : c.queue = l ++ a :: r) :
    Move c (c.dequeue l a r)

/-- Nothing is lost and nothing is doubled. -/
def Conserved (c : Channel α) : Prop := c.submitted.Perm (c.taken ++ c.queue)

/-- What was taken is what was submitted first; the rest waits in its order. -/
def Fifo (c : Channel α) : Prop := c.submitted = c.taken ++ c.queue

/-- Nothing is taken before anything that was submitted before it. -/
def Ordered (c : Channel α) : Prop :=
  ∀ p q, [p, q].Sublist c.submitted → q ∈ c.taken → [p, q].Sublist c.taken

theorem Conserved.move {c c' : Channel α} (hm : Move c c') (hc : c.Conserved) : c'.Conserved := by
  unfold Conserved at hc ⊢
  cases hm with
  | stay => exact hc
  | direct a =>
    have hmid : (c.taken ++ [a] ++ c.queue).Perm (c.taken ++ c.queue ++ [a]) := by
      rw [List.append_assoc, List.append_assoc]
      exact List.perm_append_comm.append_left c.taken
    exact (hc.append_right [a]).trans hmid.symm
  | enqueue a =>
    have hend := hc.append_right [a]
    rwa [List.append_assoc] at hend
  | dequeue l a r hq =>
    have hmid : (l ++ a :: r).Perm (a :: (l ++ r)) := List.perm_middle
    rw [hq] at hc
    refine hc.trans ((hmid.append_left c.taken).trans ?_)
    change (c.taken ++ a :: (l ++ r)).Perm (c.taken ++ [a] ++ (l ++ r))
    rw [List.append_assoc]
    exact .refl _

namespace Fifo

variable {c : Channel α} {a : α}

theorem direct (hc : c.Fifo) (hq : c.queue = []) : (c.direct a).Fifo := by
  unfold Fifo at hc ⊢
  simp [Channel.direct, hc, hq]

theorem enqueue (hc : c.Fifo) : (c.enqueue a).Fifo := by
  unfold Fifo at hc ⊢
  simp [Channel.enqueue, hc]

theorem dequeue_head {r : List α} (hc : c.Fifo) (hq : c.queue = a :: r) :
    (c.dequeue [] a r).Fifo := by
  unfold Fifo at hc ⊢
  simp [Channel.dequeue, hc, hq]

theorem ordered (hc : c.Fifo) (hn : c.submitted.Nodup) : c.Ordered := by
  unfold Fifo at hc
  intro p q hpq hq
  rw [hc] at hn hpq
  -- `q` is not in the queue, so both of the pair lie in what was taken
  have hdisjoint := (List.nodup_append.mp hn).2.2
  obtain ⟨x, y, hxy, hx, hy⟩ := List.sublist_append_iff.mp hpq
  cases y with
  | nil =>
    rw [List.append_nil] at hxy
    rwa [hxy]
  | cons z y =>
    have hlast : q ∈ z :: y := by
      have hmem : (x ++ z :: y).getLast? = some q := by rw [← hxy]; rfl
      rw [List.getLast?_append_of_ne_nil _ (List.cons_ne_nil z y)] at hmem
      exact List.mem_of_getLast? hmem
    exact absurd rfl (hdisjoint q hq q (hy.subset hlast))

theorem not_ordered_direct {p : α} (hc : c.Fifo) (hn : (c.direct a).submitted.Nodup)
    (hp : p ∈ c.queue) : ¬(c.direct a).Ordered := by
  unfold Fifo at hc
  intro ho
  have hsub : p ∈ c.submitted := by
    rw [hc]
    exact List.mem_append_right _ hp
  have hpa : [p, a].Sublist (c.submitted ++ [a]) :=
    (List.singleton_sublist.mpr hsub).append (.refl [a])
  have hne : p ≠ a := (List.nodup_append.mp hn).2.2 p hsub a (List.mem_singleton.mpr rfl)
  have htaken : [p, a].Sublist (c.taken ++ [a]) :=
    ho p a hpa (List.mem_append_right _ (List.mem_singleton.mpr rfl))
  have hmem : p ∈ c.taken := by
    have hin := htaken.subset (List.mem_cons_self)
    rcases List.mem_append.mp hin with hin | hin
    · exact hin
    · exact absurd (List.mem_singleton.mp hin) hne
  rw [Channel.direct, hc] at hn
  have hold := (List.nodup_append.mp hn).1
  exact (List.nodup_append.mp hold).2.2 p hmem p hp rfl

theorem not_ordered_dequeue {p : α} {l r : List α} (hc : c.Fifo) (hn : c.submitted.Nodup)
    (hq : c.queue = l ++ a :: r) (hp : p ∈ l) : ¬(c.dequeue l a r).Ordered := by
  unfold Fifo at hc
  intro ho
  rw [hq] at hc
  have hpa : [p, a].Sublist c.submitted := by
    rw [hc]
    have hpair : [p, a].Sublist (l ++ a :: r) :=
      (List.singleton_sublist.mpr hp).append (List.cons_sublist_cons.mpr (List.nil_sublist r))
    exact hpair.trans (List.sublist_append_right _ _)
  rw [hc] at hn
  have hall := List.nodup_append.mp hn
  have hne : p ≠ a := (List.nodup_append.mp hall.2.1).2.2 p hp a List.mem_cons_self
  have htaken : [p, a].Sublist (c.taken ++ [a]) :=
    ho p a hpa (List.mem_append_right _ (List.mem_singleton.mpr rfl))
  have hin := htaken.subset List.mem_cons_self
  rcases List.mem_append.mp hin with hin | hin
  · exact hall.2.2 p hin p (List.mem_append_left _ hp) rfl
  · exact hne (List.mem_singleton.mp hin)

end Fifo

end Channel
end Lib
