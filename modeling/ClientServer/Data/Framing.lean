import Mathlib.Data.List.Infix

/-!
# A stream of frames

Frames are written one after the other into a stream, and cut out of it again by their lengths.

* `Framing.take_drop_flatten` : where the frames before it end, a frame is found.
* `Framing.lt_length_flatten` : as long as a frame is missing, the stream has more to come.
-/

namespace ClientServer

namespace Framing

variable {α : Type*} {L : List (List α)} {f : List α} {k : ℕ}

/-- The length of the first `k` frames. -/
def offset (L : List (List α)) (k : ℕ) : ℕ := (L.take k).flatten.length

theorem offset_length (L : List (List α)) : offset L L.length = L.flatten.length := by
  rw [offset, List.take_length]

theorem offset_append (h : k ≤ L.length) (L' : List (List α)) : offset (L ++ L') k = offset L k := by
  rw [offset, List.take_append_of_le_length h, offset]

theorem drop_flatten (L : List (List α)) (k : ℕ) : L.flatten.drop (offset L k) = (L.drop k).flatten := by
  have hsplit : L.flatten = (L.take k).flatten ++ (L.drop k).flatten := by
    rw [← List.flatten_append, List.take_append_drop]
  rw [hsplit, offset, List.drop_left]

theorem offset_succ (h : L[k]? = some f) : offset L (k + 1) = offset L k + f.length := by
  rw [offset, List.take_add_one, h, List.flatten_append, List.length_append]
  simp [offset]

theorem take_drop_flatten (h : L[k]? = some f) :
    (L.flatten.drop (offset L k)).take f.length = f := by
  obtain ⟨hk, rfl⟩ := List.getElem?_eq_some_iff.1 h
  rw [drop_flatten, List.drop_eq_getElem_cons hk, List.flatten_cons, List.take_left]

theorem offset_le (L : List (List α)) (k : ℕ) : offset L k ≤ L.flatten.length := by
  rw [← List.take_append_drop k L, List.flatten_append, List.length_append,
    List.take_append_drop]
  exact Nat.le_add_right _ _

/-- The stream goes on as long as there is a frame that is not empty. -/
theorem lt_length_flatten (h : L[k]? = some f) (hf : f ≠ []) : offset L k < L.flatten.length := by
  have hpos : 0 < f.length := List.length_pos_of_ne_nil hf
  have hle := offset_le L (k + 1)
  rw [offset_succ h] at hle
  omega

theorem prefix_concat {β : Type*} {l L : List β} {x : β} (h : l <+: L) (hx : L[l.length]? = some x) :
    l ++ [x] <+: L := by
  obtain ⟨hlt, rfl⟩ := List.getElem?_eq_some_iff.1 hx
  exact List.concat_get_prefix h hlt

end Framing

end ClientServer
