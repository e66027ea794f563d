import ClientServer.Data.LittleEndian

/-!
# The file of a navigation mesh

`Navigation::LoadAll` reads a header and then as many tiles as it says.  `init` and `addTile` of
Detour are parameters here: predicates that may refuse.  What is refused by `addTile` is not, and a
record with a zero reference or without a positive size ends the reading, with what there is so far.

* `Navigation.loadAll` : the function, on the content of the file.
* `CompleteFile` : the content that is meant, with the mesh it stands for.
* `CutShort` : a record that is not all there, behind complete ones.
* `loadAll_exact_iff` : **exactly when `LoadAll` reads complete files**, for every content.
-/

namespace ClientServer

/-! ### The memory of the headers -/

/-- `NavMeshSetHeader`; of the parameters Detour knows what they mean. -/
structure NavMeshSetHeader where
  magic : Int32
  version : Int32
  numTiles : Int32
  params : List UInt8

/-- `NavMeshTileHeader`. -/
structure NavMeshTileHeader where
  tileRef : UInt32
  dataSize : Int32

/-- `NAVMESHSET_MAGIC`: `MSET`. -/
def NAVMESHSET_MAGIC : Int32 := 0x4D534554

/-- `NAVMESHSET_VERSION`. -/
def NAVMESHSET_VERSION : Int32 := 1

namespace NavMeshSetHeader

/-- `sizeof(NavMeshSetHeader)`. -/
def size : ℕ := 40

def bytes (h : NavMeshSetHeader) : List UInt8 :=
  bytesInt32 h.magic ++ bytesInt32 h.version ++ bytesInt32 h.numTiles ++ h.params

def ofBytes (bs : List UInt8) : NavMeshSetHeader where
  magic := int32OfBytes (bs.take 4)
  version := int32OfBytes ((bs.drop 4).take 4)
  numTiles := int32OfBytes ((bs.drop 8).take 4)
  params := bs.drop 12

theorem ofBytes_bytes (h : NavMeshSetHeader) : ofBytes h.bytes = h := by
  simp [ofBytes, bytes, List.drop_append, List.drop_of_length_le]

end NavMeshSetHeader

namespace NavMeshTileHeader

/-- `sizeof(NavMeshTileHeader)`. -/
def size : ℕ := 8

def bytes (h : NavMeshTileHeader) : List UInt8 := bytesUInt32 h.tileRef ++ bytesInt32 h.dataSize

def ofBytes (bs : List UInt8) : NavMeshTileHeader where
  tileRef := uint32OfBytes (bs.take 4)
  dataSize := int32OfBytes (bs.drop 4)

theorem ofBytes_bytes (h : NavMeshTileHeader) : ofBytes h.bytes = h := by
  simp [ofBytes, bytes]

theorem bytes_ofBytes {bs : List UInt8} (h : bs.length = size) : (ofBytes bs).bytes = bs := by
  have htake : (bs.take 4).length = 4 := by
    rw [List.length_take, h]
    rfl
  have hdrop : (bs.drop 4).length = 4 := by
    rw [List.length_drop, h]
    rfl
  rw [bytes, ofBytes, bytesUInt32_ofBytes htake, bytesInt32_ofBytes hdrop, List.take_append_drop]

@[simp] theorem length_bytes (h : NavMeshTileHeader) : h.bytes.length = size := by
  simp [bytes, size]

theorem bytes_append_inj {h h' : NavMeshTileHeader} {r r' : List UInt8}
    (heq : h.bytes ++ r = h'.bytes ++ r') : h = h' ∧ r = r' := by
  obtain ⟨hbytes, hr⟩ := List.append_inj heq (h.length_bytes.trans h'.length_bytes.symm)
  exact ⟨by rw [← ofBytes_bytes h, hbytes, ofBytes_bytes], hr⟩

end NavMeshTileHeader

/-! ### Reading -/

/-- `fread` of one item of `n` bytes, with what is left in the file. -/
def fread (n : ℕ) (fp : List UInt8) : Option (List UInt8 × List UInt8) :=
  if n ≤ fp.length then some (fp.take n, fp.drop n) else none

theorem fread_append {n : ℕ} {bs : List UInt8} (h : bs.length = n) (fp : List UInt8) :
    fread n (bs ++ fp) = some (bs, fp) := by
  subst h
  simp [fread]

theorem fread_eq_some {n : ℕ} {fp bs rest : List UInt8} (h : fread n fp = some (bs, rest)) :
    fp = bs ++ rest ∧ bs.length = n := by
  rw [fread] at h
  split_ifs at h with hn
  obtain ⟨rfl, rfl⟩ := Prod.mk.inj (Option.some.inj h)
  exact ⟨(List.take_append_drop n fp).symm, List.length_take_of_le hn⟩

theorem fread_eq_none {n : ℕ} {fp : List UInt8} : fread n fp = none ↔ fp.length < n := by
  rw [fread]
  split_ifs with hn
  · simpa using hn
  · simpa using hn

/-- A tile of the mesh, as it was added. -/
structure NavMeshTile where
  tileRef : UInt32
  data : List UInt8
  deriving DecidableEq

/-- `dtNavMesh`: what `init` got, and the tiles it holds. -/
structure dtNavMesh where
  params : List UInt8
  tiles : List NavMeshTile
  deriving DecidableEq

namespace Navigation

variable (init : List UInt8 → Bool) (addTile : dtNavMesh → NavMeshTile → Bool)

/-- The loop of `LoadAll`, with the tiles still to be read. -/
def loadTiles : ℕ → dtNavMesh → List UInt8 → Option dtNavMesh
  | 0, mesh, _ => some mesh
  | n + 1, mesh, fp =>
    match fread NavMeshTileHeader.size fp with
    | none => none
    | some (bs, fp) =>
      let tileHeader := NavMeshTileHeader.ofBytes bs
      if tileHeader.tileRef = 0 ∨ tileHeader.dataSize = 0 then some mesh
      -- as a `size_t` a negative size is more than `dtAlloc` can give
      else if tileHeader.dataSize < 0 then some mesh
      else
        match fread tileHeader.dataSize.toInt.toNat fp with
        | none => none
        | some (data, fp) =>
          let tile : NavMeshTile := ⟨tileHeader.tileRef, data⟩
          if addTile mesh tile then loadTiles n { mesh with tiles := mesh.tiles ++ [tile] } fp
          else loadTiles n mesh fp

/-- `Navigation::LoadAll`. -/
def loadAll (content : List UInt8) : Option dtNavMesh :=
  match fread NavMeshSetHeader.size content with
  | none => none
  | some (bs, fp) =>
    let header := NavMeshSetHeader.ofBytes bs
    if header.magic ≠ NAVMESHSET_MAGIC then none
    else if header.version ≠ NAVMESHSET_VERSION then none
    else if init header.params then
      loadTiles addTile header.numTiles.toInt.toNat ⟨header.params, []⟩ fp
    else none

end Navigation

/-! ### Complete files -/

namespace NavMeshTile

/-- The record of a tile in the file. -/
def bytes (t : NavMeshTile) : List UInt8 :=
  NavMeshTileHeader.bytes ⟨t.tileRef, Int32.ofNat t.data.length⟩ ++ t.data

/-- A reference that is not zero, and a size that is positive and fits. -/
structure Valid (t : NavMeshTile) : Prop where
  tileRef : t.tileRef ≠ 0
  nonempty : t.data ≠ []
  length_lt : t.data.length < 2 ^ 31

theorem Valid.toInt_length {t : NavMeshTile} (h : t.Valid) :
    (Int32.ofNat t.data.length).toInt = t.data.length :=
  Int32.toInt_ofNat_of_lt h.length_lt

end NavMeshTile

section File

variable (init : List UInt8 → Bool) (addTile : dtNavMesh → NavMeshTile → Bool)

/-- `addTile` takes each of the tiles, in their order. -/
def Accepted (params : List UInt8) (tiles : List NavMeshTile) : Prop :=
  ∀ l t r, tiles = l ++ t :: r → addTile ⟨params, l⟩ t = true

/-- The content is a header that is accepted, and as many records as it says, complete and accepted:
those of the tiles of `mesh`. -/
structure CompleteFile (content : List UInt8) (mesh : dtNavMesh) : Prop where
  content_eq : ∃ numTiles : Int32, numTiles.toInt = mesh.tiles.length ∧
    content = NavMeshSetHeader.bytes ⟨NAVMESHSET_MAGIC, NAVMESHSET_VERSION, numTiles, mesh.params⟩ ++
      mesh.tiles.flatMap NavMeshTile.bytes
  length_params : mesh.params.length = 28
  init : init mesh.params = true
  valid : ∀ t ∈ mesh.tiles, t.Valid
  accepted : Accepted addTile mesh.params mesh.tiles

/-- A header that is not all there, or is not accepted. -/
def RefusedFile (content : List UInt8) : Prop :=
  content.length < NavMeshSetHeader.size ∨
    let header := NavMeshSetHeader.ofBytes (content.take NavMeshSetHeader.size)
    header.magic ≠ NAVMESHSET_MAGIC ∨ header.version ≠ NAVMESHSET_VERSION ∨
      init header.params = false

/-- A record that would go on, with its reference and its size, is not all there. -/
def CutRecord (fp : List UInt8) : Prop :=
  fp.length < NavMeshTileHeader.size ∨
    ∃ header : NavMeshTileHeader, ∃ data, fp = header.bytes ++ data ∧ header.tileRef ≠ 0 ∧
      0 < header.dataSize.toInt ∧ data.length < header.dataSize.toInt

/-- One of the first `n` records is not all there, and those before it are. -/
inductive CutShort : ℕ → List UInt8 → Prop
  | here {n : ℕ} {fp : List UInt8} : CutRecord fp → CutShort (n + 1) fp
  | later {n : ℕ} {fp : List UInt8} {t : NavMeshTile} :
      t.Valid → CutShort n fp → CutShort (n + 1) (t.bytes ++ fp)

/-- The content ends inside a record, behind a header that says there is more. -/
def CutShortFile (content : List UInt8) : Prop :=
  NavMeshSetHeader.size ≤ content.length ∧
    CutShort (NavMeshSetHeader.ofBytes (content.take NavMeshSetHeader.size)).numTiles.toInt.toNat
      (content.drop NavMeshSetHeader.size)

/-- `LoadAll` returns the mesh of a complete file, and nothing for any other content. -/
def LoadsExactly (content : List UInt8) : Prop :=
  ∀ mesh, Navigation.loadAll init addTile content = some mesh ↔
    CompleteFile init addTile content mesh

end File

/-! ### The loop -/

namespace Navigation

variable {init : List UInt8 → Bool} {addTile : dtNavMesh → NavMeshTile → Bool} {n : ℕ}
  {mesh : dtNavMesh} {fp : List UInt8}

theorem loadTiles_of_cut (h : fp.length < NavMeshTileHeader.size) :
    loadTiles addTile (n + 1) mesh fp = none := by
  rw [loadTiles, fread_eq_none.2 h]

theorem loadTiles_header (header : NavMeshTileHeader) :
    loadTiles addTile (n + 1) mesh (header.bytes ++ fp) =
      if header.tileRef = 0 ∨ header.dataSize = 0 then some mesh
      else if header.dataSize < 0 then some mesh
      else
        match fread header.dataSize.toInt.toNat fp with
        | none => none
        | some (data, fp) =>
          if addTile mesh ⟨header.tileRef, data⟩ then
            loadTiles addTile n { mesh with tiles := mesh.tiles ++ [⟨header.tileRef, data⟩] } fp
          else loadTiles addTile n mesh fp := by
  rw [loadTiles, fread_append header.length_bytes]
  simp only [NavMeshTileHeader.ofBytes_bytes]

theorem int32_pos_iff {i : Int32} : 0 < i.toInt ↔ ¬i = 0 ∧ ¬i < 0 := by
  rw [← Int32.toInt_inj, Int32.lt_iff_toInt_lt, Int32.toInt_zero]
  omega

theorem loadTiles_record {t : NavMeshTile} (ht : t.Valid) :
    loadTiles addTile (n + 1) mesh (t.bytes ++ fp) =
      if addTile mesh t then loadTiles addTile n { mesh with tiles := mesh.tiles ++ [t] } fp
      else loadTiles addTile n mesh fp := by
  have hsize := ht.toInt_length
  have hpos := int32_pos_iff.1 (by rw [hsize]; exact_mod_cast List.length_pos_of_ne_nil ht.nonempty)
  rw [NavMeshTile.bytes, List.append_assoc, loadTiles_header]
  rw [if_neg (not_or.2 ⟨ht.tileRef, hpos.1⟩), if_neg hpos.2, hsize, Int.toNat_natCast,
    fread_append rfl]

theorem loadTiles_complete {tiles : List NavMeshTile} (hvalid : ∀ t ∈ tiles, t.Valid)
    (haccepted : ∀ l t r, tiles = l ++ t :: r →
      addTile ⟨mesh.params, mesh.tiles ++ l⟩ t = true) :
    loadTiles addTile tiles.length mesh (tiles.flatMap NavMeshTile.bytes) =
      some ⟨mesh.params, mesh.tiles ++ tiles⟩ := by
  induction tiles generalizing mesh with
  | nil => rw [List.append_nil]; rfl
  | cons t tiles ih =>
    rw [List.forall_mem_cons] at hvalid
    have hfirst : addTile mesh t = true := by
      simpa using haccepted [] t tiles rfl
    rw [List.flatMap_cons, List.length_cons, loadTiles_record hvalid.1, if_pos hfirst, ih hvalid.2]
    · simp
    · intro l u r heq
      simpa using haccepted (t :: l) u r (by rw [heq]; rfl)

/-- A record that is cut short, or one behind it. -/
theorem cutShort_header_iff {header : NavMeshTileHeader} :
    CutShort (n + 1) (header.bytes ++ fp) ↔ header.tileRef ≠ 0 ∧ 0 < header.dataSize.toInt ∧
      (fp.length < header.dataSize.toInt ∨
        ∃ data rest, fp = data ++ rest ∧ data.length = header.dataSize.toInt ∧
          CutShort n rest) := by
  constructor
  · intro h
    generalize heq : header.bytes ++ fp = content at h
    cases h with
    | here hcut =>
      rcases hcut with hlen | ⟨header', data, hdata, href, hpos, hlt⟩
      · rw [← heq, List.length_append, header.length_bytes] at hlen
        omega
      · obtain ⟨rfl, rfl⟩ := NavMeshTileHeader.bytes_append_inj (heq.trans hdata)
        exact ⟨href, hpos, .inl hlt⟩
    | @later _ rest t ht hrest =>
      rw [NavMeshTile.bytes, List.append_assoc] at heq
      obtain ⟨rfl, rfl⟩ := NavMeshTileHeader.bytes_append_inj heq
      have hsize := ht.toInt_length
      refine ⟨ht.tileRef, ?_, .inr ⟨t.data, rest, rfl, hsize.symm, hrest⟩⟩
      rw [hsize]
      exact_mod_cast List.length_pos_of_ne_nil ht.nonempty
  · rintro ⟨href, hpos, hlt | ⟨data, rest, rfl, hlen, hrest⟩⟩
    · exact .here (.inr ⟨header, fp, rfl, href, hpos, hlt⟩)
    · have hmax : header.dataSize.toInt < 2 ^ 31 := header.dataSize.toInt_lt
      have hvalid : NavMeshTile.Valid ⟨header.tileRef, data⟩ := by
        refine ⟨href, ?_, by dsimp only; omega⟩
        rintro rfl
        rw [List.length_nil] at hlen
        omega
      have hsize : Int32.ofNat data.length = header.dataSize := by
        rw [← Int32.toInt_inj]
        exact hvalid.toInt_length.trans hlen
      have hbytes : header.bytes ++ (data ++ rest) =
          NavMeshTile.bytes ⟨header.tileRef, data⟩ ++ rest := by
        rw [NavMeshTile.bytes, hsize, List.append_assoc]
      rw [hbytes]
      exact .later hvalid hrest

/-- Behind data of the right size it is the next record that is cut short. -/
theorem cutShort_data_iff {data rest : List UInt8} {size : ℤ} (hdata : data.length = size) :
    ((data ++ rest).length < size ∨
      ∃ data' rest', data ++ rest = data' ++ rest' ∧ data'.length = size ∧ CutShort n rest') ↔
        CutShort n rest := by
  rw [List.length_append, or_iff_right (by omega)]
  constructor
  · rintro ⟨data', rest', heq, hlen, hcut⟩
    obtain ⟨rfl, rfl⟩ := List.append_inj heq (by omega)
    exact hcut
  · exact fun hcut => ⟨data, rest, rfl, hdata, hcut⟩

/-- **The loop fails** iff a record is cut short. -/
theorem loadTiles_eq_none_iff : loadTiles addTile n mesh fp = none ↔ CutShort n fp := by
  induction n generalizing mesh fp with
  | zero =>
    refine iff_of_false (Option.some_ne_none _) fun h => ?_
    cases h
  | succ n ih =>
    by_cases hlen : fp.length < NavMeshTileHeader.size
    · exact iff_of_true (loadTiles_of_cut hlen) (.here (.inl hlen))
    obtain ⟨header, rest, rfl⟩ : ∃ header : NavMeshTileHeader, ∃ rest, fp = header.bytes ++ rest := by
      have htake : (fp.take NavMeshTileHeader.size).length = NavMeshTileHeader.size :=
        List.length_take_of_le (not_lt.1 hlen)
      refine ⟨.ofBytes (fp.take NavMeshTileHeader.size), fp.drop NavMeshTileHeader.size, ?_⟩
      rw [NavMeshTileHeader.bytes_ofBytes htake, List.take_append_drop]
    rw [loadTiles_header, cutShort_header_iff]
    by_cases hzero : header.tileRef = 0 ∨ header.dataSize = 0
    · rw [if_pos hzero]
      refine iff_of_false (Option.some_ne_none _) fun ⟨href, hpos, _⟩ => ?_
      exact hzero.elim href (int32_pos_iff.1 hpos).1
    rw [if_neg hzero]
    rw [not_or] at hzero
    by_cases hneg : header.dataSize < 0
    · rw [if_pos hneg]
      exact iff_of_false (Option.some_ne_none _) fun ⟨_, hpos, _⟩ => (int32_pos_iff.1 hpos).2 hneg
    -- the record goes on, with a positive size
    have hpos : 0 < header.dataSize.toInt := int32_pos_iff.2 ⟨hzero.2, hneg⟩
    rw [if_neg hneg, and_iff_right hzero.1, and_iff_right hpos]
    cases hread : fread header.dataSize.toInt.toNat rest with
    | none =>
      rw [fread_eq_none] at hread
      exact iff_of_true rfl (.inl (by omega))
    | some res =>
      obtain ⟨data, rest'⟩ := res
      obtain ⟨rfl, hdata⟩ := fread_eq_some hread
      rw [cutShort_data_iff (by omega)]
      dsimp only
      split_ifs
      · exact ih
      · exact ih

/-! ### The whole file -/

/-- **Failure**: the file is refused, or cut short. -/
theorem loadAll_eq_none_iff {content : List UInt8} :
    loadAll init addTile content = none ↔ RefusedFile init content ∨ CutShortFile content := by
  rw [RefusedFile, CutShortFile]
  by_cases hlen : content.length < NavMeshSetHeader.size
  · rw [loadAll, fread_eq_none.2 hlen]
    exact iff_of_true rfl (.inl (.inl hlen))
  · have hread : fread NavMeshSetHeader.size content =
        some (content.take NavMeshSetHeader.size, content.drop NavMeshSetHeader.size) :=
      if_pos (not_lt.1 hlen)
    rw [loadAll, hread, or_iff_right hlen, and_iff_right (not_lt.1 hlen)]
    dsimp only
    split_ifs with hmagic hversion hinit
    · exact iff_of_true rfl (.inl (.inl hmagic))
    · exact iff_of_true rfl (.inl (.inr (.inl hversion)))
    · rw [loadTiles_eq_none_iff, or_iff_right]
      rintro (h | h | h)
      exacts [hmagic h, hversion h, Bool.false_ne_true (h.symm.trans hinit)]
    · exact iff_of_true rfl (.inl (.inr (.inr (Bool.eq_false_iff.2 hinit))))

theorem loadAll_complete {content : List UInt8} (h : CompleteFile init addTile content mesh) :
    loadAll init addTile content = some mesh := by
  obtain ⟨numTiles, hnum, rfl⟩ := h.content_eq
  have hlen : (NavMeshSetHeader.bytes
      ⟨NAVMESHSET_MAGIC, NAVMESHSET_VERSION, numTiles, mesh.params⟩).length =
        NavMeshSetHeader.size := by
    simp [NavMeshSetHeader.bytes, NavMeshSetHeader.size, h.length_params]
  rw [loadAll, fread_append hlen]
  dsimp only
  rw [NavMeshSetHeader.ofBytes_bytes, if_neg (not_not.2 rfl), if_neg (not_not.2 rfl), if_pos h.init,
    hnum, Int.toNat_natCast]
  exact loadTiles_complete h.valid h.accepted

/-- **When `LoadAll` reads complete files.**  For every content: where it is complete, where its
header is refused, and where it ends inside a record. -/
theorem loadAll_exact_iff (init : List UInt8 → Bool) (addTile : dtNavMesh → NavMeshTile → Bool)
    (content : List UInt8) :
    LoadsExactly init addTile content ↔
      (∃ mesh, CompleteFile init addTile content mesh) ∨ RefusedFile init content ∨
        CutShortFile content := by
  have hfail : loadAll init addTile content = none ↔ RefusedFile init content ∨ CutShortFile content :=
    loadAll_eq_none_iff
  rw [← hfail]
  constructor
  · intro h
    cases hload : loadAll init addTile content with
    | none => exact .inr rfl
    | some mesh => exact .inl ⟨mesh, (h mesh).1 hload⟩
  · rintro (⟨mesh, hmesh⟩ | hnone) mesh'
    · have hload := loadAll_complete hmesh
      refine ⟨fun h => ?_, loadAll_complete⟩
      obtain rfl := Option.some.inj (hload.symm.trans h)
      exact hmesh
    · refine ⟨fun h => ?_, loadAll_complete⟩
      rw [hnone] at h
      cases h

/-- The only tile is not taken, and an empty mesh is returned. -/
theorem loadAll_refused_tile : ¬∀ (init : List UInt8 → Bool)
    (addTile : dtNavMesh → NavMeshTile → Bool) (content : List UInt8),
    LoadsExactly init addTile content := by
  intro h
  have hcontent : loadAll (fun _ => true) (fun _ _ => false)
      (NavMeshSetHeader.bytes ⟨NAVMESHSET_MAGIC, NAVMESHSET_VERSION, 1, List.replicate 28 0⟩ ++
        NavMeshTile.bytes ⟨1, [7]⟩) = some ⟨List.replicate 28 0, []⟩ := by
    decide +kernel
  obtain ⟨numTiles, -, heq⟩ := ((h _ _ _ _).1 hcontent).content_eq
  have hlen := congrArg List.length heq
  simp [NavMeshSetHeader.bytes, NavMeshTile.bytes, NavMeshTileHeader.size] at hlen

end Navigation

end ClientServer
