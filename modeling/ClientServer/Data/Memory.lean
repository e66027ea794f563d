import ClientServer.Data.LittleEndian

/-!
# Bytes of memory

Memory as a function from offsets to bytes, of which every cell holds something.  What was never
written holds anything.

* `Memory.read_write`, `Memory.read_write_of_disjoint` : what a read sees after a write.
* `Memory.memmove` : copying from a vector, which fails behind its end.
* `Memory.read_memmove` : a copy of the first bytes is as good as these bytes for every read of
  them.
-/

namespace ClientServer

/-- Bytes by their offset. -/
abbrev Memory := ℕ → UInt8

namespace Memory

/-- `n` bytes from `off` on. -/
def read (m : Memory) (off n : ℕ) : List UInt8 := (List.range n).map fun i => m (off + i)

/-- The bytes `bs` from `off` on. -/
def write (m : Memory) (off : ℕ) (bs : List UInt8) : Memory := fun i =>
  if off ≤ i ∧ i < off + bs.length then bs.getD (i - off) 0 else m i

/-- Copy the first `n` bytes of a vector to the front, if it has as many. -/
def memmove (m : Memory) (data : List UInt8) (n : ℕ) : Option Memory :=
  if n ≤ data.length then some (m.write 0 (data.take n)) else none

variable {m : Memory} {off off' n : ℕ} {bs data : List UInt8}

@[simp] theorem length_read : (m.read off n).length = n := by simp [read]

theorem getElem?_read {i : ℕ} (h : i < n) : (m.read off n)[i]? = some (m (off + i)) := by
  simp [read, List.getElem?_range h]

theorem read_write (h : bs.length = n) : (m.write off bs).read off n = bs := by
  subst h
  refine List.ext_getElem? fun i => ?_
  by_cases hi : i < bs.length
  · have hin : off ≤ off + i ∧ off + i < off + bs.length := by omega
    rw [getElem?_read hi, write, if_pos hin, Nat.add_sub_cancel_left, List.getD_eq_getElem?_getD,
      List.getElem?_eq_getElem hi, Option.getD_some]
  · rw [List.getElem?_eq_none (by simpa using hi), List.getElem?_eq_none (by omega)]

theorem read_write_of_disjoint (h : off' + n ≤ off ∨ off + bs.length ≤ off') :
    (m.write off bs).read off' n = m.read off' n := by
  refine List.map_congr_left fun i hi => ?_
  rw [List.mem_range] at hi
  rw [write, if_neg (by omega)]

theorem read_memmove {m' : Memory} {size : ℕ} (h : off + n ≤ size) :
    ((m.write 0 (m'.read 0 size)).read off n) = m'.read off n := by
  refine List.map_congr_left fun i hi => ?_
  rw [List.mem_range] at hi
  have hin : 0 ≤ off + i ∧ off + i < 0 + (m'.read 0 size).length := by
    rw [length_read]
    omega
  rw [write, if_pos hin, Nat.sub_zero, List.getD_eq_getElem?_getD, getElem?_read (by omega),
    Option.getD_some, Nat.zero_add]

end Memory

end ClientServer
