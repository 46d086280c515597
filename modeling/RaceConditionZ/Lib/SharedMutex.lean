import Mathlib.Data.List.Basic

/-!
# Shared mutexes

A mutex that one thread holds exclusively, or any number of threads share: the invariant is part of
the type. `none` is a lock that has to wait.
-/

structure SharedMutex (ι : Type*) where
  exclusive : Bool
  shared : List ι
  apart : exclusive = true → shared = []

namespace SharedMutex

variable {ι : Type*}

def free : SharedMutex ι := ⟨false, [], fun _ => rfl⟩

def lock (m : SharedMutex ι) : Option (SharedMutex ι) :=
  if m.exclusive = false ∧ m.shared = [] then some ⟨true, [], fun _ => rfl⟩ else none

def unlock (m : SharedMutex ι) : SharedMutex ι := ⟨false, m.shared, fun h => by cases h⟩

def lockShared (m : SharedMutex ι) (i : ι) : Option (SharedMutex ι) :=
  if m.exclusive then none else some ⟨false, i :: m.shared, fun h => by cases h⟩

def unlockShared [DecidableEq ι] (m : SharedMutex ι) (i : ι) : SharedMutex ι :=
  ⟨m.exclusive, m.shared.erase i, fun h => by rw [m.apart h, List.erase_nil]⟩

variable {m m' : SharedMutex ι} {i j : ι}

theorem exclusive_of_mem (h : i ∈ m.shared) : m.exclusive = false := by
  by_contra he
  rw [m.apart (by simpa using he)] at h
  cases h

theorem lock_eq_some (h : m.lock = some m') :
    m.exclusive = false ∧ m.shared = [] ∧ m'.exclusive = true ∧ m'.shared = [] := by
  unfold lock at h
  split at h
  · rename_i hfree
    cases h
    exact ⟨hfree.1, hfree.2, rfl, rfl⟩
  · cases h

theorem lockShared_eq_some (h : m.lockShared i = some m') :
    m.exclusive = false ∧ m'.exclusive = false ∧ m'.shared = i :: m.shared := by
  unfold lockShared at h
  split at h
  · cases h
  · rename_i hfree
    cases h
    exact ⟨by simpa using hfree, rfl, rfl⟩

theorem mem_unlockShared [DecidableEq ι] (hij : j ≠ i) (h : j ∈ m.shared) :
    j ∈ (m.unlockShared i).shared :=
  (List.mem_erase_of_ne hij).2 h

end SharedMutex
