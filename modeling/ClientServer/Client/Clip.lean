import ClientServer.Client.Movement
import ClientServer.Server.Requests
import Mathlib.Analysis.Convex.Segment

/-!
# Clipped destinations

Where the ray of the navigation mesh hits something, `MoveTo` of the client and `DashTo` and `MoveTo`
of the server go as far as it got.  The server takes the two coordinates of the plane, the client
all three, in the order of Detour.

* `fbVec.lerp` : the point at a fraction of a segment, in the plane.
* `ClipsAlike` : all three functions adopt that point.
* `clipsAlike_iff` : **when they do**: where the point is as high as it is far along the second axis
  of the plane.
-/

namespace ClientServer

variable {F U : Type*} [Field F] [LinearOrder F]

/-- The point at the fraction `t` of the segment from `v` to `w`. -/
def fbVec.lerp (v w : fbVec F) (t : F) : F × F := v.xy + t • (w.xy - v.xy)

/-- Where the entity `k` of the client is on its way to. -/
def ClientScene.destination (s : ClientScene F) (k : ℕ) : Option (F × F) :=
  (s.body k).bind fun b => b.mover.map fun mover => mover.dest.xy

/-- Where the entity `e` of the server is on its way to. -/
def Region.destination (r : Region F U) (e : Entity) : Option (F × F) :=
  ((r.comps e).bind Components.mover).map fun mover => mover.dest.xy

section ClipsAlike

variable (g : Geometry F) (raycast : Raycast F) (s : ClientScene F) (k : ℕ) (nav : Navigation F)
  (r : Region F U) (e : Entity) (v dest : fbVec F) (t z spd : F)

/-- From `v` client and server adopt the point at `t` of the segment to `dest`. -/
structure ClipsAlike : Prop where
  client : (s.moveTo g raycast k dest spd).destination k = some (v.lerp dest t)
  dashTo : (r.dashTo nav dest e z).1.destination e = some (v.lerp dest t)
  moveTo : (r.moveTo nav dest e z spd).1.destination e = some (v.lerp dest t)
  segment : v.lerp dest t ∈ segment F v.xy dest.xy

end ClipsAlike

/-! ### The destinations -/

variable {g : Geometry F} {raycast : Raycast F} {s : ClientScene F} {k : ℕ} {nav : Navigation F}
  {r : Region F U} {e : Entity} {c : Components F U} {b : Body F} {v dest : fbVec F} {t z spd : F}

theorem lerp_mem_segment [IsStrictOrderedRing F] (h0 : 0 ≤ t) (h1 : t ≤ 1) :
    v.lerp dest t ∈ segment F v.xy dest.xy := by
  rw [segment_eq_image']
  exact ⟨t, ⟨h0, h1⟩, rfl⟩

theorem xy_clip (ht : t < 1) : (v.clip dest t z).xy = v.lerp dest t := by
  rw [fbVec.clip, if_pos ht]
  rfl

theorem Region.destination_headTo (hc : r.comps e = some c)
    (ht : nav.raycast c.transform.v dest = some t) (h1 : t < 1) (speed : Transform F → F) :
    (r.headTo nav dest e z speed).1.destination e = some (c.transform.v.lerp dest t) := by
  rw [headTo_of_raycast hc ht, destination, comps_set, if_pos rfl, ← xy_clip h1 (z := z)]
  rfl

/-- The destination of the client takes its second coordinate from the height. -/
theorem ClientScene.destination_moveTo (hb : s.body k = some b)
    (ht : raycast b.transform.v dest = some t) (h1 : t < 1) :
    (s.moveTo g raycast k dest spd).destination k =
      some ((b.transform.v.lerp dest t).1,
        b.transform.v.z + t * (dest.z - b.transform.v.z)) := by
  simp only [moveTo, hb, ht]
  rw [destination, body_setBody _ (by rw [hb]; rfl), Option.bind_some, Body.moveTo]
  simp only [if_pos h1, Option.map_some, fbVec.xy, fbVec.lerp, Prod.fst_add, Prod.smul_fst,
    Prod.fst_sub, smul_eq_mul, mul_comm t]

variable [IsStrictOrderedRing F]

/-- **Clipped destinations.**  For the same position, end and fraction, client and server adopt the
same destination, the point at that fraction, iff its height is its second coordinate. -/
theorem clipsAlike_iff (hb : s.body k = some b) (hc : r.comps e = some c)
    (hv : b.transform.v = c.transform.v) (hclient : raycast b.transform.v dest = some t)
    (hserver : nav.raycast c.transform.v dest = some t) (h0 : 0 ≤ t) (h1 : t < 1) :
    ClipsAlike g raycast s k nav r e c.transform.v dest t z spd ↔
      c.transform.v.z + t * (dest.z - c.transform.v.z) =
        c.transform.v.y + t * (dest.y - c.transform.v.y) := by
  have hdest : (s.moveTo g raycast k dest spd).destination k = _ :=
    ClientScene.destination_moveTo hb hclient h1
  rw [hv] at hdest
  constructor
  · intro h
    have hsame := hdest.symm.trans h.client
    exact congrArg Prod.snd (Option.some.inj hsame)
  · intro hheight
    refine ⟨hdest.trans ?_, Region.destination_headTo hc hserver h1 _,
      Region.destination_headTo hc hserver h1 _, lerp_mem_segment h0 h1.le⟩
    rw [hheight]
    rfl

/-- An entity at the origin of the client, and of the server. -/
def atOrigin : ClientScene ℚ × Region ℚ ℕ :=
  (⟨⟨[(0, ⟨0, ⟨⟨0, 0, 0⟩, 0, 0, 10⟩, none, true⟩)], 1, fun _ => some 0⟩, fun _ => none⟩,
    Region.empty.set 0 (some ⟨⟨⟨0, 0, 0⟩, 0, 0, 1⟩, none, none, some ∅, some 7⟩))

theorem clipsAlike_iff_diagonal : ClipsAlike ⟨id, fun _ _ => 0⟩ (fun _ _ => some (1 / 2))
    atOrigin.1 0 ⟨Navigation.twoPolys (1 / 2), ⟨0, 0, 0⟩, ⟨0, 0, 0⟩⟩ atOrigin.2 0 ⟨0, 0, 0⟩
    ⟨2, 4, 4⟩ (1 / 2) 0 1 := by
  have hc : atOrigin.2.comps 0 =
      some ⟨⟨⟨0, 0, 0⟩, 0, 0, 1⟩, none, none, some ∅, some 7⟩ := rfl
  have hserver : (⟨Navigation.twoPolys (1 / 2), ⟨0, 0, 0⟩, ⟨0, 0, 0⟩⟩ : Navigation ℚ).raycast
      ⟨0, 0, 0⟩ ⟨2, 4, 4⟩ = some (1 / 2) := rfl
  have hfraction : (0 : ℚ) ≤ 1 / 2 ∧ (1 / 2 : ℚ) < 1 := by decide +kernel
  exact (clipsAlike_iff rfl hc rfl rfl hserver hfraction.1 hfraction.2).2 (by decide +kernel)

/-- On flat ground, off the first axis: the client stays on the first axis. -/
theorem clipsAlike_flat : ¬∀ (g : Geometry ℚ) (raycast : Raycast ℚ) (s : ClientScene ℚ) (k : ℕ)
    (nav : Navigation ℚ) (r : Region ℚ ℕ) (e : Entity) (b : Body ℚ) (c : Components ℚ ℕ)
    (dest : fbVec ℚ) (t z spd : ℚ), s.body k = some b → r.comps e = some c →
      b.transform.v = c.transform.v → raycast b.transform.v dest = some t →
      nav.raycast c.transform.v dest = some t → 0 ≤ t → t < 1 →
      ClipsAlike g raycast s k nav r e c.transform.v dest t z spd := by
  intro h
  have hclips := h ⟨id, fun _ _ => 0⟩ (fun _ _ => some (1 / 2)) atOrigin.1 0
    ⟨Navigation.twoPolys (1 / 2), ⟨0, 0, 0⟩, ⟨0, 0, 0⟩⟩ atOrigin.2 0 _ _ ⟨2, 4, 0⟩ (1 / 2) 0 1
    rfl rfl rfl rfl rfl (by decide +kernel) (by decide +kernel)
  exact absurd hclips.client (by decide +kernel)

end ClientServer
