import ClientServer.Server.WorldTree

/-!
# The proxies of the world tree and their slots

While the user data of every proxy is the slot of its own entity, a query of the tree finds
exactly the entities whose boxes it meets.  A component that is removed from the middle of the
pool breaks this: the last one is moved, and its proxy is not told.

* `WorldTree.create_eq`, `WorldTree.leave_last` : the pool and the tree after a step.
* `WorldTree.Indexed.query` : queries of an indexed tree are exact.
* `WorldTree.always_exact_iff` : **when every proxy points to its own entity, and queries are
  exact, in every state of a run**: only the entity in the last slot ever leaves.
-/

namespace ClientServer

namespace WorldTree

variable {F : Type*}

/-! ### Properties -/

/-- The user data of the proxy of every live entity is the slot that holds its component. -/
def Resolves (w : WorldTree F) : Prop := ∀ e p, w.proxy e = some p →
  ∃ i, w.getUserData p.proxy_id = some i ∧ w.pool[i]? = some (e, p)

/-- A query finds the entities other than `except` whose box meets its square. -/
def QueryExact [Field F] [LinearOrder F] (w : WorldTree F) : Prop :=
  ∀ pos range except e, e ∈ w.query pos range except ↔
    e ≠ except ∧ ∃ box, w.fatAABB e = some box ∧ box.testOverlap (.around pos range) = true

/-- The slots and the proxies name each other. -/
structure Indexed (w : WorldTree F) : Prop where
  keys : (w.pool.map Prod.fst).Nodup
  eids : ∀ q ∈ w.pool, q.2.eid = q.1
  ids : (w.broad_phase.map TreeProxy.proxy_id).Nodup
  slots : ∀ i q, w.pool[i]? = some q → ∃ box, ⟨q.2.proxy_id, box, i⟩ ∈ w.broad_phase
  proxies : ∀ t ∈ w.broad_phase, ∃ q, w.pool[t.userData]? = some q ∧ q.2.proxy_id = t.proxy_id

theorem indexed_empty : (empty : WorldTree F).Indexed where
  keys := .nil
  eids _ h := nomatch h
  ids := .nil
  slots _ _ h := nomatch h
  proxies _ h := nomatch h

namespace Indexed

variable {w : WorldTree F} (h : w.Indexed) {e : Entity} {p : b2Proxy F} {i : ℕ}
include h

theorem proxy_iff : w.proxy e = some p ↔ (e, p) ∈ w.pool := by
  rw [proxy, Option.map_eq_some_iff]
  constructor
  · rintro ⟨⟨e', p'⟩, hfind, rfl⟩
    obtain ⟨hmem, rfl⟩ := (Packed.find?_iff h.keys).1 hfind
    exact hmem
  · intro hmem
    exact ⟨(e, p), (Packed.find?_iff h.keys).2 ⟨hmem, rfl⟩, rfl⟩

theorem exists_slot (hp : w.proxy e = some p) : ∃ i : ℕ, w.pool[i]? = some (e, p) :=
  List.mem_iff_getElem?.1 (h.proxy_iff.1 hp)

theorem slot_eq (hi : w.pool[i]? = some (e, p)) : w.slot e = i := Packed.findIdx_eq h.keys hi

theorem find_proxy {t : TreeProxy F} (ht : t ∈ w.broad_phase) :
    w.broad_phase.find? (·.proxy_id = t.proxy_id) = some t :=
  (Packed.find?_iff h.ids).2 ⟨ht, rfl⟩

theorem proxy_inj {t t' : TreeProxy F} (ht : t ∈ w.broad_phase) (ht' : t' ∈ w.broad_phase)
    (hid : t.proxy_id = t'.proxy_id) : t = t' :=
  List.inj_on_of_nodup_map h.ids ht ht' hid

theorem resolves : w.Resolves := by
  intro e p hp
  obtain ⟨i, hi⟩ := h.exists_slot hp
  obtain ⟨box, ht⟩ := h.slots i _ hi
  exact ⟨i, by rw [getUserData, h.find_proxy ht]; rfl, hi⟩

theorem fatAABB_iff {box : b2AABB F} : w.fatAABB e = some box ↔
    ∃ t ∈ w.broad_phase, t.aabb = box ∧ ∃ p, w.pool[t.userData]? = some (e, p) := by
  rw [fatAABB, Option.bind_eq_some_iff]
  constructor
  · rintro ⟨p, hp, hbox⟩
    obtain ⟨i, hi⟩ := h.exists_slot hp
    obtain ⟨box', ht⟩ := h.slots i _ hi
    rw [h.find_proxy ht, Option.map_some, Option.some.injEq] at hbox
    exact ⟨_, ht, hbox, p, hi⟩
  · rintro ⟨t, ht, rfl, p, hp⟩
    obtain ⟨q, hq, hid⟩ := h.proxies t ht
    obtain rfl := Option.some.inj (hp.symm.trans hq)
    refine ⟨p, h.proxy_iff.2 (List.mem_of_getElem? hp), ?_⟩
    rw [show p.proxy_id = t.proxy_id from hid, h.find_proxy ht]
    rfl

/-- **Queries of an indexed tree are exact.** -/
theorem query [Field F] [LinearOrder F] : w.QueryExact := by
  intro pos range except e
  simp only [WorldTree.query, SortedSet.mem_ofList, List.mem_filterMap, List.mem_filter,
    Option.bind_eq_some_iff, h.fatAABB_iff]
  constructor
  · rintro ⟨t, ⟨ht, hover⟩, ⟨e', p⟩, hp, hite⟩
    obtain ⟨hne, heid⟩ := Option.ite_none_left_eq_some.1 hite
    obtain rfl : p.eid = e := Option.some.inj heid
    have heid' : p.eid = e' := h.eids _ (List.mem_of_getElem? hp)
    exact ⟨hne, t.aabb, ⟨t, ht, rfl, p, heid' ▸ hp⟩, hover⟩
  · rintro ⟨hne, box, ⟨t, ht, rfl, p, hp⟩, hover⟩
    have heid : p.eid = e := h.eids _ (List.mem_of_getElem? hp)
    exact ⟨t, ⟨ht, hover⟩, _, hp, Option.ite_none_left_eq_some.2 ⟨heid ▸ hne, congrArg some heid⟩⟩

end Indexed

/-! ### Creating and moving -/

section Create

variable {w : WorldTree F} {e : Entity} {p : b2Proxy F} {id : ℤ} {fat : b2AABB F}

theorem proxy_eq_none : w.proxy e = none ↔ ∀ q ∈ w.pool, q.1 ≠ e := by
  simp [proxy, List.find?_eq_none]

/-- A created entity gets the slot at the end; one that does not fit leaves no trace. -/
theorem create_eq [Field F] [LinearOrder F] {pos : fbVec F} {radius : F}
    (hfresh : w.proxy e = none) :
    w.create e pos radius id fat =
      if Region.spawn pos radius then
        ⟨w.pool ++ [(e, ⟨e, id, radius⟩)], w.broad_phase ++ [⟨id, fat, w.pool.length⟩]⟩
      else w := by
  unfold create spawn
  dsimp only [emplace, modify]
  rw [Packed.modify_append_last]
  by_cases hspawn : Region.spawn pos radius = true
  · rw [if_pos hspawn, if_pos hspawn]
    dsimp only
    rw [if_pos rfl, Packed.modify_append_last]
  · rw [if_neg hspawn, if_neg hspawn]
    dsimp only
    have hslot : (w.pool ++ [(e, (⟨e, 0, radius⟩ : b2Proxy F))]).findIdx (·.1 = e) =
        w.pool.length := by
      rw [List.findIdx_append, List.findIdx_eq_length.2 (by simpa using proxy_eq_none.1 hfresh)]
      simp
    rw [if_neg Bool.false_ne_true, destroy, slot, hslot,
      Packed.swapAndPop_last (by simp), List.dropLast_concat]

theorem Indexed.append (h : w.Indexed) (radius : F) (hfresh : w.proxy e = none)
    (hid : ∀ t ∈ w.broad_phase, t.proxy_id ≠ id) :
    Indexed ⟨w.pool ++ [(e, ⟨e, id, radius⟩)], w.broad_phase ++ [⟨id, fat, w.pool.length⟩]⟩ where
  keys := by
    rw [List.map_append, List.map_singleton, List.nodup_append]
    refine ⟨h.keys, List.nodup_singleton e, fun a ha b hb hab => ?_⟩
    obtain ⟨q, hq, rfl⟩ := List.mem_map.1 ha
    exact proxy_eq_none.1 hfresh q hq (hab.trans (List.mem_singleton.1 hb))
  eids q hq := by
    rcases List.mem_append.1 hq with hq | hq
    · exact h.eids q hq
    · obtain rfl := List.mem_singleton.1 hq
      rfl
  ids := by
    rw [List.map_append, List.map_singleton, List.nodup_append]
    refine ⟨h.ids, List.nodup_singleton id, fun a ha b hb hab => ?_⟩
    obtain ⟨t, ht, rfl⟩ := List.mem_map.1 ha
    exact hid t ht (hab.trans (List.mem_singleton.1 hb))
  slots i q hq := by
    by_cases hi : i < w.pool.length
    · rw [List.getElem?_append_left hi] at hq
      obtain ⟨box, ht⟩ := h.slots i q hq
      exact ⟨box, List.mem_append_left _ ht⟩
    · rw [List.getElem?_append_right (not_lt.1 hi), List.getElem?_singleton] at hq
      split_ifs at hq with hlast
      obtain rfl := Option.some.inj hq
      obtain rfl : i = w.pool.length := by omega
      exact ⟨fat, List.mem_append_right _ (List.mem_singleton_self _)⟩
  proxies t ht := by
    rcases List.mem_append.1 ht with ht | ht
    · obtain ⟨q, hq, hqid⟩ := h.proxies t ht
      exact ⟨q, by rw [List.getElem?_append_left (List.getElem?_eq_some_iff.1 hq).1, hq], hqid⟩
    · obtain rfl := List.mem_singleton.1 ht
      exact ⟨(e, ⟨e, id, radius⟩), List.getElem?_concat_length, rfl⟩

theorem Indexed.move (h : w.Indexed) (p : b2Proxy F) : (w.move p fat).Indexed where
  keys := h.keys
  eids := h.eids
  ids := by
    have hmap : (w.move p fat).broad_phase.map TreeProxy.proxy_id =
        w.broad_phase.map TreeProxy.proxy_id := by
      rw [WorldTree.move, List.map_map]
      refine List.map_congr_left fun t _ => ?_
      dsimp only [Function.comp_apply]
      split_ifs <;> rfl
    rw [hmap]
    exact h.ids
  slots i q hq := by
    obtain ⟨box, ht⟩ := h.slots i q hq
    by_cases hid : q.2.proxy_id = p.proxy_id
    · exact ⟨fat, List.mem_map.2 ⟨_, ht, if_pos hid⟩⟩
    · exact ⟨box, List.mem_map.2 ⟨_, ht, if_neg hid⟩⟩
  proxies t ht := by
    obtain ⟨t', ht', rfl⟩ := List.mem_map.1 ht
    obtain ⟨q, hq, hqid⟩ := h.proxies t' ht'
    split_ifs
    · exact ⟨q, hq, hqid⟩
    · exact ⟨q, hq, hqid⟩

end Create

/-! ### Leaving -/

section Leave

variable {w : WorldTree F} {e f : Entity} {p q : b2Proxy F} {i j : ℕ}

theorem leave_eq (h : w.Indexed) (hi : w.pool[i]? = some (e, p)) :
    w.leave e = ⟨Packed.swapAndPop w.pool i,
      w.broad_phase.filter (·.proxy_id ≠ p.proxy_id)⟩ := by
  have hp : w.proxy e = some p := h.proxy_iff.2 (List.mem_of_getElem? hi)
  have hslot : (w.despawn p).slot e = i := h.slot_eq hi
  rw [leave, hp]
  dsimp only
  rw [destroy, hslot]
  rfl

/-- The entity in the last slot leaves, and no component is moved. -/
theorem Indexed.leave_last (h : w.Indexed) (hi : w.pool[i]? = some (e, p))
    (hlast : i + 1 = w.pool.length) : (w.leave e).Indexed := by
  have hpool : Packed.swapAndPop w.pool i = w.pool.dropLast := Packed.swapAndPop_last hlast.symm
  obtain ⟨box, hbox⟩ := h.slots i _ hi
  rw [leave_eq h hi, hpool]
  refine ⟨h.keys.sublist ((List.dropLast_sublist _).map _), fun q hq => ?_,
    h.ids.sublist (List.filter_sublist.map _), fun k q hq => ?_, fun t ht => ?_⟩
  · exact h.eids q (List.dropLast_subset _ hq)
  · have hk : k + 1 < w.pool.length := by
      have hlt := (List.getElem?_eq_some_iff.1 hq).1
      rw [List.length_dropLast] at hlt
      omega
    rw [Packed.getElem?_dropLast_of_lt hk] at hq
    obtain ⟨box', ht⟩ := h.slots k q hq
    refine ⟨box', List.mem_filter.2 ⟨ht, decide_eq_true fun hid => ?_⟩⟩
    -- a proxy with the id of the one that leaves would have its slot
    have hki : k = i := congrArg TreeProxy.userData (h.proxy_inj ht hbox hid)
    omega
  · obtain ⟨ht, hid⟩ := List.mem_filter.1 ht
    obtain ⟨q, hq, hqid⟩ := h.proxies t ht
    have hlt := (List.getElem?_eq_some_iff.1 hq).1
    have hne : t.userData ≠ i := by
      intro hti
      rw [hti, hi] at hq
      obtain rfl := Option.some.inj hq
      exact of_decide_eq_true hid hqid.symm
    exact ⟨q, by rw [Packed.getElem?_dropLast_of_lt (by omega), hq], hqid⟩

/-- Another entity leaves: the proxy of the one in the last slot points to a slot that is gone. -/
theorem Indexed.not_resolves_leave (h : w.Indexed) (hi : w.pool[i]? = some (e, p))
    (hj : w.pool[j]? = some (f, q)) (hlast : j + 1 = w.pool.length) (hij : i < j) :
    ¬(w.leave e).Resolves := by
  intro hres
  rw [leave_eq h hi] at hres
  have hmoved : (f, q) ∈ Packed.swapAndPop w.pool i :=
    List.mem_of_getElem? (Packed.getElem?_swapAndPop_self hj hlast hij)
  -- the last entity is live, with its old component
  obtain ⟨⟨f', q'⟩, hfind⟩ : ∃ x, (Packed.swapAndPop w.pool i).find? (·.1 = f) = some x :=
    Option.isSome_iff_exists.1 (List.find?_isSome.2 ⟨_, hmoved, by simp⟩)
  have hf : f' = f := by simpa using List.find?_some hfind
  have hin := Packed.mem_of_mem_swapAndPop (List.mem_of_find?_eq_some hfind)
  obtain ⟨-, rfl⟩ := Prod.mk.inj
    (List.inj_on_of_nodup_map h.keys hin (List.mem_of_getElem? hj) hf)
  obtain ⟨k, hdata, hk⟩ := hres f q' (by rw [proxy, hfind]; rfl)
  -- and its proxy still has the old slot
  obtain ⟨box, ht⟩ := h.slots j _ hj
  obtain ⟨t, htfind, rfl⟩ := Option.map_eq_some_iff.1 hdata
  have htid : t.proxy_id = q'.proxy_id := by simpa using List.find?_some htfind
  have hmem := (List.mem_filter.1 (List.mem_of_find?_eq_some htfind)).1
  rw [h.proxy_inj hmem ht htid, Packed.getElem?_swapAndPop_last hlast] at hk
  cases hk

theorem exists_last (hi : w.pool[i]? = some (e, p))
    (hne : w.pool.getLast?.map Prod.fst ≠ some e) :
    ∃ j x, w.pool[j]? = some x ∧ j + 1 = w.pool.length ∧ i < j := by
  have hlt := (List.getElem?_eq_some_iff.1 hi).1
  obtain ⟨x, hx⟩ : ∃ x, w.pool[w.pool.length - 1]? = some x :=
    ⟨_, List.getElem?_eq_getElem (by omega)⟩
  refine ⟨w.pool.length - 1, x, hx, by omega, ?_⟩
  by_contra hge
  have hlast : i + 1 = w.pool.length := by omega
  exact hne (by rw [Packed.getLast?_eq hi hlast]; rfl)

end Leave

/-! ### Runs -/

/-- Only the entity in the last slot of the pool leaves. -/
def LeavesLast (w : WorldTree F) : Action F → Prop
  | .leave e => (w.proxy e).isSome = true → w.pool.getLast?.map Prod.fst = some e
  | _ => True

instance (w : WorldTree F) : (a : Action F) → Decidable (w.LeavesLast a)
  | .leave e => inferInstanceAs (Decidable ((w.proxy e).isSome = true →
      w.pool.getLast?.map Prod.fst = some e))
  | .createPc .. | .createNpc .. | .updateMove .. => .isTrue trivial

section Runs

variable [Field F] [LinearOrder F] {w w' : WorldTree F} {a : Action F} {e : Entity}

theorem Indexed.create (h : w.Indexed) {pos : fbVec F} {radius : F} {id : ℤ} {fat : b2AABB F}
    (hcan : w.CanCreate e pos radius id fat) : (w.create e pos radius id fat).Indexed := by
  rw [create_eq hcan.1]
  split_ifs
  · exact h.append radius hcan.1 hcan.2.1
  · exact h

theorem Indexed.step (h : w.Indexed) (hstep : w.next a = some w') (hc : w.LeavesLast a) :
    w'.Indexed := by
  cases a with
  | createPc eid pos id fat =>
    obtain ⟨hcan, hw⟩ := Option.ite_none_right_eq_some.1 hstep
    exact Option.some.inj hw ▸ h.create hcan
  | createNpc eid pos id fat =>
    obtain ⟨hcan, hw⟩ := Option.ite_none_right_eq_some.1 hstep
    exact Option.some.inj hw ▸ h.create hcan
  | updateMove eid pos fat =>
    simp only [next] at hstep
    split at hstep
    · cases hstep
    · obtain ⟨-, hw⟩ := Option.ite_none_right_eq_some.1 hstep
      exact Option.some.inj hw ▸ h.move _
  | leave eid =>
    obtain rfl := Option.some.inj hstep
    cases hp : w.proxy eid with
    | none =>
      rw [leave, hp]
      exact h
    | some p =>
      obtain ⟨i, hi⟩ := h.exists_slot hp
      have hlast : i + 1 = w.pool.length := by
        by_contra hne
        have hlt := (List.getElem?_eq_some_iff.1 hi).1
        have hkey := hc (by rw [hp]; rfl)
        obtain ⟨⟨e', q⟩, hq, rfl⟩ := Option.map_eq_some_iff.1 hkey
        rw [List.getLast?_eq_getElem?] at hq
        -- one entity in two slots
        have hslot := (h.slot_eq hi).symm.trans (h.slot_eq hq)
        omega
      exact h.leave_last hi hlast

/-- If every proxy is still resolved after the step, only the last entity left. -/
theorem Indexed.leavesLast (h : w.Indexed) (hstep : w.next a = some w') (hres : w'.Resolves) :
    w.LeavesLast a := by
  cases a with
  | leave eid =>
    obtain rfl := Option.some.inj hstep
    intro hlive
    by_contra hne
    obtain ⟨p, hp⟩ := Option.isSome_iff_exists.1 hlive
    obtain ⟨i, hi⟩ := h.exists_slot hp
    obtain ⟨j, ⟨f, q⟩, hj, hlast, hij⟩ := exists_last hi hne
    exact h.not_resolves_leave hi hj hlast hij hres
  | _ => trivial

/-- **The spatial index.**  In every state of a run every proxy points to the component of its
own entity, and queries are exact, iff only the entity in the last slot ever leaves in it. -/
theorem always_exact_iff {es : List (WorldTree F × Action F)}
    (h : (worldTreeSystem F).Run empty es w) :
    LTS.Always (fun w => w.Resolves ∧ w.QueryExact) es w ↔ ∀ e ∈ es, e.1.LeavesLast e.2 :=
  h.always_iff (I := Indexed) (C := LeavesLast) indexed_empty (fun _ hw => ⟨hw.resolves, hw.query⟩)
    (fun _ _ _ hw hstep hc => hw.step hstep hc)
    fun _ _ _ hw hstep hexact => hw.leavesLast hstep hexact.1

/-- Three entities at the origin. -/
def three : List (Action ℚ) :=
  [.createNpc 0 ⟨0, 0, 0⟩ 10 ⟨⟨-6, -6⟩, ⟨6, 6⟩⟩, .createPc 1 ⟨0, 0, 0⟩ 11 ⟨⟨-1, -1⟩, ⟨1, 1⟩⟩,
    .createPc 2 ⟨0, 0, 0⟩ 12 ⟨⟨-1, -1⟩, ⟨1, 1⟩⟩]

theorem always_exact_iff_three : ∃ es w, (worldTreeSystem ℚ).Run empty es w ∧ es.length = 5 ∧
    LTS.Always (fun w => w.Resolves ∧ w.QueryExact) es w := by
  obtain ⟨w, hrun, -⟩ := LTS.exists_run next empty
    (three ++ [.updateMove 1 ⟨2, 0, 0⟩ ⟨⟨1, -1⟩, ⟨3, 1⟩⟩, .leave 2]) (fun _ => true)
    (by decide +kernel)
  exact ⟨_, w, hrun, by decide +kernel, (always_exact_iff hrun).2 (by decide +kernel)⟩

/-- The second entity leaves: the third is moved into its slot, and a fourth gets the slot that the
proxy of the third still names.  A query finds the fourth in the third's stead. -/
theorem leave_not_exact : ¬∀ (es : List (WorldTree ℚ × Action ℚ)) (w : WorldTree ℚ),
    (worldTreeSystem ℚ).Run empty es w →
      LTS.Always (fun w => w.Resolves ∧ w.QueryExact) es w := by
  intro h
  obtain ⟨w, hrun, hw⟩ := LTS.exists_run next empty
    (three ++ [.leave 1, .createPc 3 ⟨0, 0, 0⟩ 11 ⟨⟨-1, -1⟩, ⟨1, 1⟩⟩])
    (fun w => 2 ∉ w.query ⟨0, 0, 0⟩ 150 0 ∧ w.fatAABB 2 = some ⟨⟨-1, -1⟩, ⟨1, 1⟩⟩)
    (by decide +kernel)
  obtain ⟨hquery, hbox⟩ := of_decide_eq_true hw
  exact hquery (((h _ _ hrun).2.2 _ _ _ _).2 ⟨by decide, _, hbox, by decide +kernel⟩)

end Runs

/-! ### The answers a region gets -/

/-- In an indexed tree a query answers with live entities other than the one that asks. -/
theorem Indexed.answers [Field F] [LinearOrder F] {U : Type*} {w : WorldTree F} (h : w.Indexed)
    {r : Region F U} (hlive : ∀ e p, w.proxy e = some p → r.valid e = true) (pos : fbVec F)
    (range : F) (eid : Entity) : r.Answers eid (w.query pos range eid) := by
  intro x hx
  obtain ⟨hne, box, hbox, -⟩ := (h.query pos range eid x).1 hx
  obtain ⟨p, hp, -⟩ := Option.bind_eq_some_iff.1 hbox
  exact ⟨hlive x p hp, hne⟩

end WorldTree

end ClientServer
