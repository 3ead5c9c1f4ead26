import BigChungOS.Lib.Runs
import Mathlib.Algebra.BigOperators.Group.List.Basic
import Mathlib.Algebra.Order.Ring.Nat

/-!
# Reading a sequence in chunks

A reader stands at a position of a sequence.  A read of `n` elements gets the next `n`, or as many as are left, and
moves the position past them.  However a run of reads is cut into chunks, the chunks together are the prefix of the
sequence of the length asked for in total (`run_chunks`), and after the end every read gets nothing.
-/

namespace Reading

open Transition

variable {α : Type*}

/-- A sequence and a position in it. -/
structure Reader (α : Type*) where
  contents : List α
  position : Nat
  bound : position ≤ contents.length

/-- A read: the number of elements wanted, the number reported, and the elements got. -/
structure Read (α : Type*) where
  wanted : Nat
  count : Int
  chunk : List α

namespace Reader

/-- A reader at the start of `contents`. -/
def start (contents : List α) : Reader α := { contents := contents, position := 0, bound := Nat.zero_le _ }

/-- The elements the next read of `n` gets. -/
def chunk (r : Reader α) (n : Nat) : List α := (r.contents.drop r.position).take n

theorem chunk_length (r : Reader α) (n : Nat) : (r.chunk n).length = min n (r.contents.length - r.position) := by
  simp [chunk]

/-- The reader after a read of `n`. -/
def next (r : Reader α) (n : Nat) : Reader α where
  contents := r.contents
  position := r.position + (r.chunk n).length
  bound := by
    have hbound := r.bound
    rw [chunk_length]
    omega

/-- The prefix read so far grows by the chunk. -/
theorem take_next (r : Reader α) (n : Nat) :
    r.contents.take (r.next n).position = r.contents.take r.position ++ r.chunk n := by
  have hchunk : r.chunk n = (r.contents.drop r.position).take (r.chunk n).length := by
    rw [chunk_length]
    simp [chunk]
  show r.contents.take (r.position + (r.chunk n).length) = _
  rw [List.take_add, ← hchunk]

/-- The rest starts with the chunk. -/
theorem drop_next (r : Reader α) (n : Nat) :
    r.contents.drop r.position = r.chunk n ++ r.contents.drop (r.next n).position := by
  have hchunk : r.chunk n = (r.contents.drop r.position).take (r.chunk n).length := by
    rw [chunk_length]
    simp [chunk]
  show _ = _ ++ r.contents.drop (r.position + (r.chunk n).length)
  rw [← List.drop_drop]
  exact ((congrArg (· ++ _) hchunk).trans (List.take_append_drop _ _)).symm

theorem next_position (r : Reader α) (n : Nat) : (r.next n).position = min (r.position + n) r.contents.length := by
  have hbound := r.bound
  show r.position + (r.chunk n).length = _
  rw [chunk_length]
  omega

end Reader

/-- A read takes the next chunk and reports its length. -/
def Reads (r : Reader α) (e : Read α) (r' : Reader α) : Prop :=
  e.chunk = r.chunk e.wanted ∧ e.count = e.chunk.length ∧ r' = r.next e.wanted

/-- The reads of a run, put together. -/
theorem run_chunks {r r' : Reader α} {es : List (Read α)} (h : Run Reads r es r') :
    r'.contents = r.contents ∧ r'.position = min (r.position + (es.map Read.wanted).sum) r.contents.length ∧
      r.contents.take r'.position = r.contents.take r.position ++ (es.map Read.chunk).flatten := by
  induction h with
  | nil =>
    have hbound := r.bound
    refine ⟨rfl, ?_, by simp⟩
    simp only [List.map_nil, List.sum_nil]
    omega
  | @snoc t _ es e _ hlast ih =>
    obtain ⟨hcontents, hposition, htake⟩ := ih
    obtain ⟨hchunk, -, rfl⟩ := hlast
    refine ⟨hcontents, ?_, ?_⟩
    · rw [Reader.next_position, hcontents, hposition]
      simp only [List.map_append, List.map_cons, List.map_nil, List.sum_append, List.sum_cons, List.sum_nil]
      omega
    · have hnext := Reader.take_next t e.wanted
      rw [hcontents, htake] at hnext
      rw [hnext, ← hchunk]
      simp

/-- Every read of a run reports the length of its chunk. -/
theorem run_counts {r r' : Reader α} {es : List (Read α)} (h : Run Reads r es r') :
    ∀ e ∈ es, e.count = e.chunk.length := by
  induction h with
  | nil => simp
  | snoc _ hlast ih =>
    intro e he
    rcases List.mem_append.1 he with hinit | hend
    · exact ih e hinit
    · rw [List.mem_singleton.1 hend]
      exact hlast.2.1

/-- The reads of a run from the start get the prefix of the length wanted in total. -/
theorem run_start {contents : List α} {r : Reader α} {es : List (Read α)} (h : Run Reads (Reader.start contents) es r) :
    (es.map Read.chunk).flatten = contents.take (min (es.map Read.wanted).sum contents.length) := by
  obtain ⟨-, hposition, htake⟩ := run_chunks h
  have hzero : (Reader.start contents).position = 0 := rfl
  have hsame : (Reader.start contents).contents = contents := rfl
  rw [hzero, hsame, Nat.zero_add] at hposition
  rw [hzero, hsame, hposition, List.take_zero, List.nil_append] at htake
  exact htake.symm

/-- A read at the end gets nothing. -/
theorem run_end {contents : List α} {r r' : Reader α} {es : List (Read α)} (h : Run Reads (Reader.start contents) es r)
    (hall : contents.length ≤ (es.map Read.wanted).sum) {e : Read α} (he : Reads r e r') :
    e.count = 0 ∧ e.chunk = [] := by
  obtain ⟨hcontents, hposition, -⟩ := run_chunks h
  have hzero : (Reader.start contents).position = 0 := rfl
  have hsame : (Reader.start contents).contents = contents := rfl
  rw [hzero, hsame] at hposition
  rw [hsame] at hcontents
  have hnil : e.chunk = [] := by
    have hlength := Reader.chunk_length r e.wanted
    rw [← he.1, hcontents, hposition] at hlength
    exact List.length_eq_zero_iff.1 (by omega)
  refine ⟨?_, hnil⟩
  rw [he.2.1, hnil]
  rfl

end Reading
