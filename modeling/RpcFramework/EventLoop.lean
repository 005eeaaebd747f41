-- The functor queue of the event loop. Any thread puts a functor at the end of
-- `pending_functors_`; the loop thread swaps the whole list out and then runs
-- it from the front. So functors run in the order in which they were queued.
import Mathlib.Data.List.Basic

namespace rpc.net

/-- `pending_functors_`, and what is left of the list that `do_pending_functors` has swapped
out. -/
structure EventLoop (F : Type) where
  pendingFunctors : List F
  functors : List F

namespace EventLoop

variable {F : Type}

def new : EventLoop F := ⟨[], []⟩

def queueInLoop (l : EventLoop F) (f : F) : EventLoop F :=
  { l with pendingFunctors := l.pendingFunctors ++ [f] }

/-- The start of `do_pending_functors`. The loop thread comes here when it has run the list of
the round before. -/
def swap (l : EventLoop F) : Option (EventLoop F) :=
  if l.functors.isEmpty then some ⟨[], l.pendingFunctors⟩ else none

/-- The functor that `do_pending_functors` runs next. -/
def next (l : EventLoop F) : Option (F × EventLoop F) :=
  match l.functors with
  | [] => none
  | f :: fs => some (f, { l with functors := fs })

/-- All the functors that wait to be run, in the order in which they will be. -/
def queued (l : EventLoop F) : List F := l.functors ++ l.pendingFunctors

@[simp]
theorem queued_new : (new : EventLoop F).queued = [] := rfl

@[simp]
theorem queued_queueInLoop (l : EventLoop F) (f : F) :
    (l.queueInLoop f).queued = l.queued ++ [f] := by
  simp [queued, queueInLoop]

theorem queued_swap {l l' : EventLoop F} (h : l.swap = some l') : l'.queued = l.queued := by
  unfold swap at h
  split at h
  · cases h
    rename_i hempty
    simp [queued, List.isEmpty_iff.mp hempty]
  · cases h

theorem queued_next {l l' : EventLoop F} {f : F} (h : l.next = some (f, l')) :
    l.queued = f :: l'.queued := by
  unfold next at h
  split at h
  · cases h
  · rename_i hfs
    cases h
    simp [queued, hfs]

theorem head?_next {l l' : EventLoop F} {f : F} (h : l.next = some (f, l')) :
    l.functors.head? = some f := by
  unfold next at h
  split at h
  · cases h
  · rename_i hfs
    cases h
    simp [hfs]

/-- The swap leaves the queue empty. -/
theorem pendingFunctors_swap {l l' : EventLoop F} (h : l.swap = some l') :
    l'.pendingFunctors = [] := by
  unfold swap at h
  split at h
  · cases h
    rfl
  · cases h

theorem pendingFunctors_next {l l' : EventLoop F} {f : F} (h : l.next = some (f, l')) :
    l'.pendingFunctors = l.pendingFunctors := by
  unfold next at h
  split at h
  · cases h
  · cases h
    rfl

theorem functors_next {l l' : EventLoop F} {f : F} (h : l.next = some (f, l')) :
    l.functors = f :: l'.functors := by
  unfold next at h
  split at h
  · cases h
  · rename_i hfs
    cases h
    exact hfs

/-- The swap finds the list of the round before run. -/
theorem functors_of_swap {l l' : EventLoop F} (h : l.swap = some l') : l.functors = [] := by
  unfold swap at h
  split at h
  · exact List.isEmpty_iff.mp ‹_›
  · cases h

end EventLoop

end rpc.net
