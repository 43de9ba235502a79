import Mathlib.Data.List.Basic
import Mathlib.Order.Nat

/-!
# Lists in chunks

A list put together from chunks of one length, read by position, and a list filled by writes
to distinct positions.
-/
namespace Eider.Lib
open List

variable {α : Type*}

theorem length_flatMap_range {f : Nat → List α} {size n : Nat}
    (hf : ∀ chunk < n, (f chunk).length = size) : ((List.range n).flatMap f).length = n * size := by
  induction n with
  | zero => simp
  | succ n ih =>
    rw [range_succ, flatMap_append, length_append,
      ih fun chunk hchunk => hf chunk (Nat.lt_succ_of_lt hchunk), flatMap_singleton,
      hf n (Nat.lt_succ_self n), Nat.succ_mul]

/-- A position lies in the chunk that its quotient names, at its remainder. -/
theorem getElem?_flatMap_range {f : Nat → List α} {size n i : Nat}
    (hf : ∀ chunk < n, (f chunk).length = size) (hi : i < n * size) :
    ((List.range n).flatMap f)[i]? = (f (i / size))[i % size]? := by
  induction n with
  | zero => omega
  | succ n ih =>
    have hfirst : ∀ chunk < n, (f chunk).length = size :=
      fun chunk hchunk => hf chunk (Nat.lt_succ_of_lt hchunk)
    have hlength := length_flatMap_range hfirst
    rw [range_succ, flatMap_append, flatMap_singleton]
    by_cases hin : i < n * size
    · rw [getElem?_append_left (by omega)]
      exact ih hfirst hin
    · have hquotient : i / size = n := by
        rw [Nat.succ_mul] at hi
        exact Nat.div_eq_of_lt_le (by omega) (by rw [Nat.succ_mul]; omega)
      have hremainder : i - n * size = i % size := by
        have hsplit := Nat.div_add_mod i size
        rw [hquotient, Nat.mul_comm] at hsplit
        omega
      rw [getElem?_append_right (by omega), hlength, hquotient, hremainder]

/-- The writes one after the other. -/
def writeAll (writes : List (Nat × α)) (output : List α) : List α :=
  writes.foldl (fun output write => output.set write.1 write.2) output

theorem writeAll_append (first second : List (Nat × α)) (output : List α) :
    writeAll (first ++ second) output = writeAll second (writeAll first output) :=
  foldl_append

theorem length_writeAll (writes : List (Nat × α)) (output : List α) :
    (writeAll writes output).length = output.length := by
  induction writes generalizing output with
  | nil => rfl
  | cons write writes ih => exact (ih _).trans length_set

variable {writes : List (Nat × α)}

theorem getElem?_writeAll_of_not_mem {i : Nat} (h : i ∉ writes.map Prod.fst) (output : List α) :
    (writeAll writes output)[i]? = output[i]? := by
  induction writes generalizing output with
  | nil => rfl
  | cons write writes ih =>
    rw [map_cons, mem_cons, not_or] at h
    have hset : (output.set write.1 write.2)[i]? = output[i]? := getElem?_set_ne (Ne.symm h.1)
    exact (ih h.2 _).trans hset

/-- A position that is written once holds what was written. -/
theorem getElem?_writeAll {i : Nat} {value : α} {output : List α}
    (hnodup : (writes.map Prod.fst).Nodup) (hmem : (i, value) ∈ writes)
    (hi : i < output.length) : (writeAll writes output)[i]? = some value := by
  induction writes generalizing output with
  | nil => cases hmem
  | cons write writes ih =>
    rw [map_cons, nodup_cons] at hnodup
    obtain rfl | hmem := mem_cons.mp hmem
    · have hlast := getElem?_writeAll_of_not_mem hnodup.1 (output.set i value)
      rw [getElem?_set_self hi] at hlast
      exact hlast
    · exact ih hnodup.2 hmem (by rwa [length_set])

theorem getElem?_writeAll_of_forall {i : Nat} {f : Nat → α} {output : List α}
    (h : ∀ write ∈ writes, write.2 = f write.1) (hmem : i ∈ writes.map Prod.fst)
    (hi : i < output.length) : (writeAll writes output)[i]? = some (f i) := by
  induction writes generalizing output with
  | nil => cases hmem
  | cons write writes ih =>
    obtain ⟨hwrite, hwrites⟩ := forall_mem_cons.mp h
    by_cases hlater : i ∈ writes.map Prod.fst
    · exact ih hwrites hlater (by rwa [length_set])
    · obtain rfl := (mem_cons.mp hmem).resolve_right hlater
      have hlast := getElem?_writeAll_of_not_mem hlater (output.set write.1 write.2)
      rw [getElem?_set_self hi] at hlast
      exact hlast.trans (congrArg some hwrite)

end Eider.Lib
