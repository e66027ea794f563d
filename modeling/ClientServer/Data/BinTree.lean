import Mathlib.Data.List.Perm.Basic
import Mathlib.Data.List.Nodup

/-!
# Linked binary trees

A pointer structure is understood through the tree it represents.  `BinTree ι α β` is a binary
tree whose nodes are named by addresses `ι`; leaves carry an `α`, branches a `β`.  A `Layout`
says what the cell of a leaf and of a branch looks like, *parent link included*, and
`Linked L cell p t` says that the cells hold the tree `t` under the parent `p`.

Local changes deep inside a tree are described with *contexts*: a list of frames leads from a
subtree (the focus) up to the root, innermost frame first.

* `linked_plug` : a tree is linked iff its focus and its context are.
* `Linked.congr`, `LinkedCtx.congr` : cells outside the names of a tree do not matter.
* `names_plug_perm`, `leaves_plug_perm` : what the whole tree consists of.
* `existsUnique_follow` : every name of a tree without repetitions is at the end of one path.
* `linked_write` : a tree written into cells can be read back.
-/

namespace ClientServer

/-- A binary tree with named nodes. -/
inductive BinTree (ι α β : Type*)
  | leaf (i : ι) (a : α)
  | node (i : ι) (b : β) (l r : BinTree ι α β)

/-- Where a child of a branch is. -/
inductive Side
  | left
  | right

/-- Where the other child is. -/
def Side.other : Side → Side
  | left => right
  | right => left

namespace BinTree

variable {ι α β : Type*}

/-- The name of the root. -/
def name : BinTree ι α β → ι
  | leaf i _ => i
  | node i _ _ _ => i

/-- The names of all nodes. -/
def names : BinTree ι α β → List ι
  | leaf i _ => [i]
  | node i _ l r => i :: (l.names ++ r.names)

/-- The leaves with their data. -/
def leaves : BinTree ι α β → List (ι × α)
  | leaf i a => [(i, a)]
  | node _ _ l r => l.leaves ++ r.leaves

/-- The length of a longest path from the root to a leaf. -/
def levels : BinTree ι α β → ℕ
  | leaf _ _ => 0
  | node _ _ l r => 1 + max l.levels r.levels

@[simp] theorem name_mem_names (t : BinTree ι α β) : t.name ∈ t.names := by
  cases t <;> simp [name, names]

/-- The names below the root. -/
def namesBelow (t : BinTree ι α β) : List ι := t.names.tail

theorem names_eq_cons (t : BinTree ι α β) : t.names = t.name :: t.namesBelow := by
  cases t <;> rfl

/-- `c` is a child of the root. -/
def IsChild (c : BinTree ι α β) : BinTree ι α β → Prop
  | leaf _ _ => False
  | node _ _ l r => c = l ∨ c = r

theorem IsChild.names_subset {c t : BinTree ι α β} (h : IsChild c t) : c.names ⊆ t.names := by
  cases t with
  | leaf i a => exact h.elim
  | node i b l r =>
    obtain rfl | rfl := h
    · exact fun j hj => by simp [names, hj]
    · exact fun j hj => by simp [names, hj]

theorem IsChild.name_ne {c t : BinTree ι α β} (h : IsChild c t) (hn : t.names.Nodup) :
    c.name ≠ t.name := by
  cases t with
  | leaf i a => exact h.elim
  | node i b l r =>
    have hi : i ∉ l.names ++ r.names := (List.nodup_cons.1 hn).1
    obtain rfl | rfl := h
    · exact ne_of_mem_of_not_mem (List.mem_append_left _ c.name_mem_names) hi
    · exact ne_of_mem_of_not_mem (List.mem_append_right _ c.name_mem_names) hi

theorem mem_names_of_mem_leaves {t : BinTree ι α β} {x : ι × α} (h : x ∈ t.leaves) :
    x.1 ∈ t.names := by
  induction t with
  | leaf i a => simp_all [leaves, names]
  | node i b l r ihl ihr =>
    simp only [leaves, List.mem_append] at h
    simp only [names, List.mem_cons, List.mem_append]
    exact Or.inr (h.imp ihl ihr)

/-! ### Sides -/

section Sides

variable {s : Side} {i : ι} {b : β} {x y : BinTree ι α β}

/-- The branch with the child `y` on the side `s`, and `x` on the other side. -/
def branch (s : Side) (i : ι) (b : β) (x y : BinTree ι α β) : BinTree ι α β :=
  match s with
  | .left => node i b y x
  | .right => node i b x y

@[simp] theorem name_branch : (branch s i b x y).name = i := by cases s <;> rfl

theorem branch_other : branch s.other i b y x = branch s i b x y := by cases s <;> rfl

theorem eq_or_eq_of_branch_eq {s' : Side} {i' : ι} {b' : β} {x' y' : BinTree ι α β}
    (h : branch s i b x y = branch s' i' b' x' y') : x = x' ∧ y = y' ∨ x = y' ∧ y = x' := by
  cases s <;> cases s' <;>
  · obtain ⟨-, -, rfl, rfl⟩ := h
    simp

theorem names_branch_perm : (branch s i b x y).names.Perm (i :: (x.names ++ y.names)) := by
  cases s with
  | left => exact List.perm_append_comm.cons i
  | right => exact .refl _

theorem leaves_branch_perm : (branch s i b x y).leaves.Perm (x.leaves ++ y.leaves) := by
  cases s with
  | left => exact List.perm_append_comm
  | right => exact .refl _

theorem levels_branch : (branch s i b x y).levels = 1 + max x.levels y.levels := by
  cases s with
  | left => exact congrArg (1 + ·) (Nat.max_comm _ _)
  | right => rfl

theorem isChild_branch {c : BinTree ι α β} : IsChild c (branch s i b x y) ↔ c = x ∨ c = y := by
  cases s with
  | left => exact or_comm
  | right => exact .rfl

end Sides

/-! ### Paths -/

/-- The name at the end of a path from the root: `false` goes left, `true` goes right. -/
def follow : BinTree ι α β → List Bool → Option ι
  | t, [] => some t.name
  | leaf _ _, _ :: _ => none
  | node _ _ l _, false :: p => l.follow p
  | node _ _ _ r, true :: p => r.follow p

theorem mem_names_of_follow {t : BinTree ι α β} {p : List Bool} {i : ι}
    (h : t.follow p = some i) : i ∈ t.names := by
  induction p generalizing t with
  | nil =>
    obtain rfl : t.name = i := by cases t <;> exact Option.some.inj h
    exact t.name_mem_names
  | cons b p ih =>
    cases t with
    | leaf j a => cases h
    | node j c l r =>
      rw [names, List.mem_cons, List.mem_append]
      cases b with
      | false => exact .inr (.inl (ih h))
      | true => exact .inr (.inr (ih h))

theorem exists_follow {t : BinTree ι α β} {i : ι} (h : i ∈ t.names) :
    ∃ p, t.follow p = some i := by
  induction t with
  | leaf j a =>
    obtain rfl := List.mem_singleton.1 h
    exact ⟨[], rfl⟩
  | node j b l r ihl ihr =>
    rw [names, List.mem_cons, List.mem_append] at h
    rcases h with rfl | h | h
    · exact ⟨[], rfl⟩
    · obtain ⟨p, hp⟩ := ihl h
      exact ⟨false :: p, hp⟩
    · obtain ⟨p, hp⟩ := ihr h
      exact ⟨true :: p, hp⟩

/-- Two paths to the same node are equal: below the first turn in which they differ the names
differ. -/
theorem follow_inj {t : BinTree ι α β} (hn : t.names.Nodup) {p q : List Bool} {i : ι}
    (hp : t.follow p = some i) (hq : t.follow q = some i) : p = q := by
  induction t generalizing p q with
  | leaf j a =>
    cases p with
    | nil => cases q with
      | nil => rfl
      | cons c q => cases hq
    | cons b p => cases hp
  | node j d l r ihl ihr =>
    rw [names, List.nodup_cons, List.nodup_append] at hn
    obtain ⟨hj, hl, hr, hlr⟩ := hn
    -- the root is not below itself
    have hroot : ∀ (b : Bool) (u : List Bool), (node j d l r).follow (b :: u) ≠ some j := by
      intro b u hu
      refine hj (List.mem_append.2 ?_)
      cases b with
      | false => exact .inl (mem_names_of_follow hu)
      | true => exact .inr (mem_names_of_follow hu)
    cases p with
    | nil =>
      obtain rfl : j = i := Option.some.inj hp
      cases q with
      | nil => rfl
      | cons c q => exact absurd hq (hroot c q)
    | cons b p =>
      cases q with
      | nil =>
        obtain rfl : j = i := Option.some.inj hq
        exact absurd hp (hroot b p)
      | cons c q =>
        cases b <;> cases c
        · rw [ihl hl hp hq]
        · exact absurd rfl (hlr i (mem_names_of_follow hp) i (mem_names_of_follow hq))
        · exact absurd rfl (hlr i (mem_names_of_follow hq) i (mem_names_of_follow hp))
        · rw [ihr hr hp hq]

/-- **Paths.**  Every name of a tree without repetitions is at the end of exactly one path. -/
theorem existsUnique_follow {t : BinTree ι α β} (hn : t.names.Nodup) {i : ι} (hi : i ∈ t.names) :
    ∃! p, t.follow p = some i := by
  obtain ⟨p, hp⟩ := exists_follow hi
  exact ⟨p, hp, fun q hq => follow_inj hn hq hp⟩

/-! ### Contexts -/

/-- One step of a context: a branch of which one child is the focus. -/
inductive Frame (ι α β : Type*)
  /-- The focus is the left child. -/
  | left (i : ι) (b : β) (r : BinTree ι α β)
  /-- The focus is the right child. -/
  | right (i : ι) (b : β) (l : BinTree ι α β)

namespace Frame

/-- The name of the branch. -/
def name : Frame ι α β → ι
  | left i _ _ => i
  | right i _ _ => i

/-- The child that is not the focus. -/
def sibling : Frame ι α β → BinTree ι α β
  | left _ _ r => r
  | right _ _ l => l

/-- The branch with `t` in focus. -/
def plug (t : BinTree ι α β) : Frame ι α β → BinTree ι α β
  | left i b r => .node i b t r
  | right i b l => .node i b l t

@[simp] theorem name_plug (f : Frame ι α β) (t : BinTree ι α β) : (f.plug t).name = f.name := by
  cases f <;> rfl

theorem exists_plug_eq_branch (f : Frame ι α β) :
    ∃ s b, ∀ t, f.plug t = branch s f.name b f.sibling t := by
  cases f with
  | left i b r => exact ⟨.left, b, fun t => rfl⟩
  | right i b l => exact ⟨.right, b, fun t => rfl⟩

end Frame

/-- The whole tree, with `t` in the focus of the context. -/
def plug : List (Frame ι α β) → BinTree ι α β → BinTree ι α β
  | [], t => t
  | f :: fs, t => plug fs (f.plug t)

/-- The names a context adds. -/
def ctxNames : List (Frame ι α β) → List ι
  | [] => []
  | f :: fs => f.name :: (f.sibling.names ++ ctxNames fs)

/-- The leaves a context adds. -/
def ctxLeaves : List (Frame ι α β) → List (ι × α)
  | [] => []
  | f :: fs => f.sibling.leaves ++ ctxLeaves fs

/-- The name the focus hangs under: that of the innermost frame, or `p` at the top. -/
def above (p : ι) : List (Frame ι α β) → ι
  | [] => p
  | f :: _ => f.name

theorem plug_append (fs gs : List (Frame ι α β)) (t : BinTree ι α β) :
    plug (fs ++ gs) t = plug gs (plug fs t) := by
  induction fs generalizing t with
  | nil => rfl
  | cons f fs ih => exact ih _

theorem length_le_length_ctxNames (fs : List (Frame ι α β)) :
    fs.length ≤ (ctxNames fs).length := by
  induction fs with
  | nil => simp
  | cons f fs ih => simp only [ctxNames, List.length_cons, List.length_append]; omega

theorem names_frame_plug_perm (f : Frame ι α β) (t : BinTree ι α β) :
    (f.plug t).names.Perm (f.name :: (t.names ++ f.sibling.names)) := by
  cases f with
  | left i b r => exact List.Perm.refl _
  | right i b l => exact List.Perm.cons _ List.perm_append_comm

theorem leaves_frame_plug_perm (f : Frame ι α β) (t : BinTree ι α β) :
    (f.plug t).leaves.Perm (t.leaves ++ f.sibling.leaves) := by
  cases f with
  | left i b r => exact List.Perm.refl _
  | right i b l => exact List.perm_append_comm

theorem map_name_sublist_ctxNames (fs : List (Frame ι α β)) :
    (fs.map Frame.name).Sublist (ctxNames fs) := by
  induction fs with
  | nil => exact .refl _
  | cons f fs ih => exact (ih.trans (List.sublist_append_right _ _)).cons_cons _

/-- A path from the focus is the end of one from the root, longer by the depth of the focus. -/
theorem exists_follow_plug (fs : List (Frame ι α β)) {t : BinTree ι α β} {q : List Bool} {i : ι}
    (h : t.follow q = some i) :
    ∃ p, (plug fs t).follow p = some i ∧ p.length = fs.length + q.length := by
  induction fs generalizing t q with
  | nil => exact ⟨q, h, (Nat.zero_add _).symm⟩
  | cons f fs ih =>
    -- the innermost frame says which way the path to the focus ends
    obtain ⟨b, hb⟩ : ∃ b, (f.plug t).follow (b :: q) = some i := by
      cases f with
      | left j c r => exact ⟨false, h⟩
      | right j c l => exact ⟨true, h⟩
    obtain ⟨p, hp, hlen⟩ := ih hb
    exact ⟨p, hp, by rw [hlen, List.length_cons, List.length_cons]; omega⟩

/-- Moving the focus one frame up. -/
theorem names_plug_ctx_perm (f : Frame ι α β) (fs : List (Frame ι α β)) (t : BinTree ι α β) :
    ((f.plug t).names ++ ctxNames fs).Perm (t.names ++ ctxNames (f :: fs)) := by
  refine ((names_frame_plug_perm f t).append_right _).trans ?_
  simp only [ctxNames, List.cons_append, List.append_assoc]
  exact List.perm_middle.symm

theorem names_plug_perm (fs : List (Frame ι α β)) (t : BinTree ι α β) :
    (plug fs t).names.Perm (t.names ++ ctxNames fs) := by
  induction fs generalizing t with
  | nil => simp [plug, ctxNames]
  | cons f fs ih => exact (ih _).trans (names_plug_ctx_perm f fs t)

theorem name_plug_of_ne_nil {fs : List (Frame ι α β)} (h : fs ≠ []) {s t : BinTree ι α β} :
    (plug fs s).name = (plug fs t).name := by
  induction fs generalizing s t with
  | nil => exact absurd rfl h
  | cons f fs ih =>
    cases fs with
    | nil => simp [plug]
    | cons g gs => exact ih (List.cons_ne_nil g gs)

theorem name_plug_mem_ctxNames {fs : List (Frame ι α β)} (h : fs ≠ []) {t : BinTree ι α β} :
    (plug fs t).name ∈ ctxNames fs := by
  induction fs generalizing t with
  | nil => exact absurd rfl h
  | cons f fs ih =>
    cases fs with
    | nil => simp [plug, ctxNames]
    | cons g gs =>
      exact List.mem_cons_of_mem _ (List.mem_append_right _ (ih (List.cons_ne_nil g gs)))

theorem leaves_plug_perm (fs : List (Frame ι α β)) (t : BinTree ι α β) :
    (plug fs t).leaves.Perm (t.leaves ++ ctxLeaves fs) := by
  induction fs generalizing t with
  | nil => simp [plug, ctxLeaves]
  | cons f fs ih =>
    refine (ih _).trans (((leaves_frame_plug_perm f t).append_right _).trans ?_)
    simp [ctxLeaves]

/-- Every node of a tree is the focus of some context. -/
theorem exists_plug_leaf {t : BinTree ι α β} {i : ι} {a : α} (h : (i, a) ∈ t.leaves) :
    ∃ fs, plug fs (leaf i a) = t := by
  suffices h' : ∀ gs : List (Frame ι α β), ∃ fs, plug fs (leaf i a) = plug gs t from h' []
  induction t with
  | leaf j c =>
    intro gs
    simp only [leaves, List.mem_singleton, Prod.mk.injEq] at h
    obtain ⟨rfl, rfl⟩ := h
    exact ⟨gs, rfl⟩
  | node j b l r ihl ihr =>
    intro gs
    simp only [leaves, List.mem_append] at h
    rcases h with h | h
    · exact ihl h (.left j b r :: gs)
    · exact ihr h (.right j b l :: gs)

/-! ### Linked representations -/

/-- What the cell of a node contains, parent link included. -/
structure Layout (ι α β N : Type*) where
  /-- The cell of a leaf: its parent and its data. -/
  leaf : ι → α → N
  /-- The cell of a branch: its parent, its children and its data. -/
  branch : ι → ι → ι → β → N

variable {N : Type*} (L : Layout ι α β N)

/-- The cells hold the tree, under the parent `p`. -/
def Linked (cell : ι → N) (p : ι) : BinTree ι α β → Prop
  | leaf i a => cell i = L.leaf p a
  | node i b l r => cell i = L.branch p l.name r.name b ∧ Linked cell i l ∧ Linked cell i r

/-- The cells hold the context, under `p`, with a node named `child` in the focus. -/
def LinkedCtx (cell : ι → N) (p : ι) : ι → List (Frame ι α β) → Prop
  | _, [] => True
  | child, .left i b r :: fs =>
    cell i = L.branch (above p fs) child r.name b ∧ Linked L cell i r ∧ LinkedCtx cell p i fs
  | child, .right i b l :: fs =>
    cell i = L.branch (above p fs) l.name child b ∧ Linked L cell i l ∧ LinkedCtx cell p i fs

variable {L}

theorem linked_frame_plug {cell : ι → N} {p : ι} {f : Frame ι α β} {fs : List (Frame ι α β)}
    {t : BinTree ι α β} :
    Linked L cell (above p fs) (f.plug t) ∧ LinkedCtx L cell p f.name fs ↔
      Linked L cell f.name t ∧ LinkedCtx L cell p t.name (f :: fs) := by
  cases f with
  | left i b r => simp only [Frame.plug, Linked, LinkedCtx, Frame.name]; tauto
  | right i b l => simp only [Frame.plug, Linked, LinkedCtx, Frame.name]; tauto

/-- **Focusing.**  A whole tree is linked iff its focus and its context are. -/
theorem linked_plug {cell : ι → N} {p : ι} {fs : List (Frame ι α β)} {t : BinTree ι α β} :
    Linked L cell p (plug fs t) ↔
      Linked L cell (above p fs) t ∧ LinkedCtx L cell p t.name fs := by
  induction fs generalizing t with
  | nil => simp [plug, above, LinkedCtx]
  | cons f fs ih => rw [plug, ih, Frame.name_plug, linked_frame_plug, above]

theorem Linked.congr {cell cell' : ι → N} {p : ι} {t : BinTree ι α β} (h : Linked L cell p t)
    (hc : ∀ i ∈ t.names, cell' i = cell i) : Linked L cell' p t := by
  induction t generalizing p with
  | leaf i a => rw [Linked, hc i (by simp [names])]; exact h
  | node i b l r ihl ihr =>
    obtain ⟨hi, hl, hr⟩ := h
    refine ⟨by rw [hc i (by simp [names])]; exact hi, ihl hl fun j hj => hc j ?_,
      ihr hr fun j hj => hc j ?_⟩ <;> simp [names, hj]

theorem LinkedCtx.congr {cell cell' : ι → N} {p c : ι} {fs : List (Frame ι α β)}
    (h : LinkedCtx L cell p c fs) (hc : ∀ i ∈ ctxNames fs, cell' i = cell i) :
    LinkedCtx L cell' p c fs := by
  induction fs generalizing c with
  | nil => trivial
  | cons f fs ih =>
    cases f with
    | left i b r =>
      obtain ⟨hi, hr, hfs⟩ := h
      refine ⟨by rw [hc i (by simp [ctxNames, Frame.name])]; exact hi,
        hr.congr fun j hj => hc j ?_, ih hfs fun j hj => hc j ?_⟩ <;>
      simp [ctxNames, Frame.sibling, hj]
    | right i b l =>
      obtain ⟨hi, hr, hfs⟩ := h
      refine ⟨by rw [hc i (by simp [ctxNames, Frame.name])]; exact hi,
        hr.congr fun j hj => hc j ?_, ih hfs fun j hj => hc j ?_⟩ <;>
      simp [ctxNames, Frame.sibling, hj]

/-- The parent link of the root is in the root's own cell. -/
theorem Linked.reparent {cell cell' : ι → N} {p q : ι} {t : BinTree ι α β}
    (h : Linked L cell p t) (hn : t.names.Nodup) (hc : ∀ i ∈ t.names, i ≠ t.name → cell' i = cell i)
    (hleaf : ∀ a, cell t.name = L.leaf p a → cell' t.name = L.leaf q a)
    (hbranch : ∀ l r b, cell t.name = L.branch p l r b → cell' t.name = L.branch q l r b) :
    Linked L cell' q t := by
  cases t with
  | leaf i a => exact hleaf a h
  | node i b l r =>
    obtain ⟨hi, hl, hr⟩ := h
    simp only [names, List.nodup_cons, List.mem_append, not_or] at hn
    refine ⟨hbranch _ _ _ hi, hl.congr fun j hj => hc j (by simp [names, hj]) ?_,
      hr.congr fun j hj => hc j (by simp [names, hj]) ?_⟩
    · rintro rfl; exact hn.1.1 hj
    · rintro rfl; exact hn.1.2 hj

/-! ### Writing a tree -/

section Write

variable [DecidableEq ι]

/-- Write the tree into the cells, under the parent `p`. -/
def write (L : Layout ι α β N) (p : ι) : BinTree ι α β → (ι → N) → ι → N
  | leaf i a, cell => Function.update cell i (L.leaf p a)
  | node i b l r, cell =>
    Function.update (write L i r (write L i l cell)) i (L.branch p l.name r.name b)

theorem write_of_not_mem {p j : ι} {t : BinTree ι α β} {cell : ι → N} (h : j ∉ t.names) :
    write L p t cell j = cell j := by
  induction t generalizing p cell with
  | leaf i a => exact Function.update_of_ne (List.ne_of_not_mem_cons h) _ _
  | node i b l r ihl ihr =>
    simp only [names, List.mem_cons, List.mem_append, not_or] at h
    rw [write, Function.update_of_ne h.1, ihr h.2.2, ihl h.2.1]

/-- A tree without repetitions can be read back. -/
theorem linked_write {p : ι} {t : BinTree ι α β} {cell : ι → N} (hn : t.names.Nodup) :
    Linked L (write L p t cell) p t := by
  induction t generalizing p cell with
  | leaf i a => exact Function.update_self _ _ _
  | node i b l r ihl ihr =>
    rw [names, List.nodup_cons, List.nodup_append, List.mem_append, not_or] at hn
    obtain ⟨⟨hil, hir⟩, hl, hr, hlr⟩ := hn
    -- the left subtree is written first, and the root last
    have hlinkl : Linked L (write L i l cell) i l := ihl hl
    have hlinkr : Linked L (write L i r (write L i l cell)) i r := ihr hr
    refine ⟨Function.update_self _ _ _, hlinkl.congr fun j hj => ?_,
      hlinkr.congr fun j hj => ?_⟩
    · rw [write, Function.update_of_ne (ne_of_mem_of_not_mem hj hil),
        write_of_not_mem fun hjr => hlr j hj j hjr rfl]
    · rw [write, Function.update_of_ne (ne_of_mem_of_not_mem hj hir)]

end Write

end BinTree

end ClientServer
