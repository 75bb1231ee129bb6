import DTIO.Properties.SharedStore

/-!
# Concurrent Writes of Datasets

A write of a dataset gives the store one operation for each chunk.  Any number of processes write
any datasets at the same time, and the store performs their operations in some order.  No element is
torn: whatever the selections and the order are, an element is as one of the processes wrote it.

## Main definitions

- `operations`: what a write gives the store
- `Interleaves`: an order of the operations of several processes
- `perform`: the store after operations

## Main results

- `run_eq`: a write performs its operations
- `operation_spec`: one operation
- `untorn`: operations of any processes in any order
-/

namespace DTIO.Properties.ConcurrentChunks

open DTIO.Posix DTIO.Grid DTIO.Assignment DTIO.Vol
open DTIO.Properties.ChunkedStorage DTIO.Properties.DatasetReads DTIO.Properties.SharedStore

/-! ## Lists in step -/

section Related

variable {α β : Type} {R : α → β → Prop} {as : List α} {bs : List β}

theorem exists_right_of_mem (h : List.Forall₂ R as bs) {a : α} (ha : a ∈ as) :
    ∃ b ∈ bs, R a b := by
  induction h with
  | nil => cases ha
  | cons hab _ ih =>
    rcases List.mem_cons.mp ha with rfl | ha
    · exact ⟨_, List.mem_cons_self, hab⟩
    · obtain ⟨b, hb, hrel⟩ := ih ha
      exact ⟨b, List.mem_cons_of_mem _ hb, hrel⟩

theorem exists_left_of_mem (h : List.Forall₂ R as bs) {b : β} (hb : b ∈ bs) :
    ∃ a ∈ as, R a b := by
  obtain ⟨a, ha, hrel⟩ := exists_right_of_mem h.flip hb
  exact ⟨a, ha, hrel⟩

end Related

/-! ## The operations of a write -/

section Operations

variable {d : ArrayDataset} (w : ArrayWrite d) (env : Env)

/-- The operation on the object of a chunk. -/
def chunkOperation (single : Bool) (info : ChunkInfo) : Except Stop (Key × List Vol.Entry) :=
  (buildEqual env w.req single d.type.size info).map fun op =>
    (objectName d.toDataset info.chunkCoords, op)

/-- What a write gives the store, in order. -/
def operations : Except Stop (List (Key × List Vol.Entry)) :=
  if w.file.npoints = 0 then .ok []
  else do
    let selected ← selectChunks w.req w.file w.mem .null false
    let infos ← selected.1.deref
    infos.mapM (chunkOperation w env (infos.length == 1))

/-- An operation on one object. -/
def operate (buf : Buffer) (x : Key × List Vol.Entry) (σ : Store) : Except Stop Store :=
  writeOpOperate (userData buf) x.2 x.1 σ

/-- An operation on the object of a chunk pairs the bytes of its two selections. -/
structure Operates (info : ChunkInfo) (x : Key × List Vol.Entry) : Prop where
  piece : Piece w info
  key : x.1 = objectName d.toDataset info.chunkCoords
  bytes : opBytes x.2 = (info.fspace.bytes d.type.size).zip (info.mspace.bytes d.type.size)

variable {w env}

theorem chunkOperation_spec (single : Bool) {info : ChunkInfo} (hp : Piece w info) :
    ∃ x, chunkOperation w env single info = .ok x ∧ Operates w info x := by
  obtain ⟨op, hop, hbytes⟩ := buildEqual_spec w env single hp
  refine ⟨(_, op), ?_, hp, rfl, hbytes⟩
  unfold chunkOperation
  rw [hop]
  rfl

/-- One chunk of a write performs its operation. -/
theorem writeChunk_eq {single : Bool} {info : ChunkInfo} {x : Key × List Vol.Entry}
    (hx : chunkOperation w env single info = .ok x) (hp : Piece w info) {L : WriteLocals}
    (hequal : L.tconv.typesEqual = true) (hsize : L.tconv.srcTypeSize = d.type.size)
    (hoid : OidFits d.toDataset L.chunkOid) (σ : Store) :
    writeChunk env w.req w.buf single (L, σ) info = (operate w.buf x σ).map fun σ' =>
      ({ L with chunkOid := .live (objectName d.toDataset info.chunkCoords) }, σ') := by
  obtain ⟨op, hop, rfl⟩ := map_eq_ok.mp hx
  obtain ⟨hname, -⟩ := oidCreateChunk_spec hoid hp.room
  have hname' : oidCreateChunk w.req.dset.fileName w.req.dset.binOid w.req.dset.extent.length
      info.chunkCoords L.chunkOid = .ok (.live (objectName d.toDataset info.chunkCoords)) := hname
  unfold writeChunk
  simp only [hname', hequal, hsize, ok_bind, Ptr.deref, if_true, writeEqual, hop]
  rfl

/-- All chunks. -/
theorem writeChunks_eq {single : Bool} {infos : List ChunkInfo} :
    ∀ {l : List (Key × List Vol.Entry)} {L : WriteLocals},
      infos.mapM (chunkOperation w env single) = .ok l → (∀ info ∈ infos, Piece w info) →
      L.tconv.typesEqual = true → L.tconv.srcTypeSize = d.type.size →
      OidFits d.toDataset L.chunkOid → ∀ σ : Store,
    (infos.foldlM (writeChunk env w.req w.buf single) (L, σ)).map Prod.snd =
      l.foldlM (fun σ x => operate w.buf x σ) σ := by
  induction infos with
  | nil =>
    intro l L hl _ _ _ _ σ
    cases hl
    rfl
  | cons info infos ih =>
    intro l L hl hpieces hequal hsize hoid σ
    rw [List.mapM_cons] at hl
    obtain ⟨x, hx, hl⟩ := bind_eq_ok.mp hl
    obtain ⟨l, hl', hl⟩ := bind_eq_ok.mp hl
    cases hl
    -- the first chunk is one operation; `chunkOid` then holds its name
    have hp := hpieces info List.mem_cons_self
    rw [List.foldlM_cons, List.foldlM_cons, writeChunk_eq hx hp hequal hsize hoid]
    cases operate w.buf x σ with
    | error e => rfl
    | ok σ₁ =>
      exact ih (L := { L with chunkOid := .live (objectName d.toDataset info.chunkCoords) }) hl'
        (fun i hi => hpieces i (List.mem_cons_of_mem _ hi)) hequal hsize
        (oidCreateChunk_spec hoid hp.room).2 σ₁

variable (w env) in
/-- A write that selects something has an operation for each of its chunks. -/
theorem operations_spec (hne : w.file.npoints ≠ 0) {infos : List ChunkInfo} {L : WriteLocals}
    (hc : Chunks w infos L) :
    ∃ l, operations w env = .ok l ∧
      infos.mapM (chunkOperation w env (infos.length == 1)) = .ok l ∧
      List.Forall₂ (Operates w) infos l := by
  obtain ⟨closeSpaces, hselect⟩ := hc.select
  -- each chunk has one
  have hall : ∀ (single : Bool) {l : List ChunkInfo}, (∀ info ∈ l, Piece w info) →
      ∃ xs, l.mapM (chunkOperation w env single) = .ok xs ∧ List.Forall₂ (Operates w) l xs := by
    intro single l
    induction l with
    | nil => exact fun _ => ⟨[], rfl, .nil⟩
    | cons info l ih =>
      intro hpieces
      obtain ⟨x, hx, hoperates⟩ := chunkOperation_spec single (hpieces info List.mem_cons_self)
      obtain ⟨xs, hxs, hrest⟩ := ih fun i hi => hpieces i (List.mem_cons_of_mem _ hi)
      refine ⟨x :: xs, ?_, .cons hoperates hrest⟩
      rw [List.mapM_cons, hx, ok_bind, hxs]
      rfl
  obtain ⟨l, hl, hoperates⟩ := hall (infos.length == 1) hc.pieces.piece
  refine ⟨l, ?_, hl, hoperates⟩
  unfold operations
  rw [if_neg hne, hselect, ok_bind]
  exact hl

variable (w env) in
/-- **A write performs its operations**, in order, and nothing else. -/
theorem run_eq (σ : Store) :
    w.run env σ = operations w env >>= fun l => l.foldlM (fun σ x => operate w.buf x σ) σ := by
  obtain ⟨σ', hrun, -⟩ := ChunkedStorage.run_spec w env σ
  rw [hrun]
  obtain ⟨hnone, rfl⟩ | ⟨hne, infos, L, s, hc, hdone, rfl⟩ := run_ok w hrun
  · unfold operations
    rw [if_pos hnone]
    rfl
  · obtain ⟨l, hops, hl, -⟩ := operations_spec w env hne hc
    rw [hops, ok_bind, ← writeChunks_eq hl hc.pieces.piece hc.equal hc.size hc.oid, hdone]
    rfl

variable (w env) in
/-- Each chunk has an operation, and each selected element is in a chunk. -/
theorem operations_ok :
    ∃ infos l, operations w env = .ok l ∧ List.Forall₂ (Operates w) infos l ∧
      ∀ p ∈ w.pairs, chunkStart d.toDataset p.1 ∈ infos.map (startOf d.toDataset) := by
  obtain ⟨σ', hrun, -⟩ := ChunkedStorage.run_spec w env fun _ => none
  obtain ⟨hnone, -⟩ | ⟨hne, infos, L, s, hc, -⟩ := run_ok w hrun
  · refine ⟨[], [], if_pos hnone, .nil, ?_⟩
    rw [pairs_eq_nil w hnone]
    exact nofun
  · obtain ⟨l, hops, -, hoperates⟩ := operations_spec w env hne hc
    exact ⟨infos, l, hops, hoperates, hc.pieces.covers⟩

/-! ## One operation -/

/-- Some selected element is in the chunk. -/
theorem Operates.exists_pair {info : ChunkInfo} {x : Key × List Vol.Entry}
    (h : Operates w info x) :
    ∃ p ∈ w.pairs, chunkStart d.toDataset p.1 = startOf d.toDataset info := by
  have hlen : 0 < (info.fspace.points.zip info.mspace.points).length := by
    rw [List.length_zip, show info.mspace.points.length = info.fspace.points.length from
      h.piece.count, min_self]
    exact h.piece.pos
  rw [h.piece.pairs, List.length_map] at hlen
  obtain ⟨p, hp⟩ := List.exists_mem_of_length_pos hlen
  exact ⟨p, (List.mem_filter.mp hp).1, of_decide_eq_true (List.mem_filter.mp hp).2⟩

/-- The name of the object tells the chunk. -/
theorem Operates.start_eq {info info' : ChunkInfo} {x : Key × List Vol.Entry}
    (h : Operates w info x) (h' : Operates w info' x) :
    startOf d.toDataset info = startOf d.toDataset info' := by
  obtain ⟨p, hp, hstart⟩ := h.exists_pair
  obtain ⟨p', hp', hstart'⟩ := h'.exists_pair
  obtain ⟨hlen, hlt⟩ := chunkStart_spec d (file_inside w hp)
  obtain ⟨hlen', hlt'⟩ := chunkStart_spec d (file_inside w hp')
  rw [← hstart, ← hstart']
  refine objectName_inj d hlen hlen' (fun a ha => (hlt a ha).trans (by decide))
    (fun a ha => (hlt' a ha).trans (by decide)) ?_
  rw [hstart, hstart', ← objectName_chunkCoords, ← objectName_chunkCoords, ← h.key, h'.key]

variable (w) in
/-- The element that a write leaves at a coordinate that it selects. -/
def written (y : Coord) : List Byte := w.flatWrite (fun _ => []) y

theorem flatWrite_selected {y : Coord} (hy : y ∈ w.file.points) (a : Coord → List Byte) :
    w.flatWrite a y = written w y := by
  rw [← map_fst_pairs] at hy
  obtain ⟨x, hx, rfl⟩ := List.mem_map.mp hy
  unfold written
  rw [flatWrite_eq, flatWrite_eq]
  exact assigned_of_mem ⟨_, List.mem_map_of_mem hx, rfl⟩ _ _

theorem flatWrite_other {y : Coord} (hy : y ∉ w.file.points) (a : Coord → List Byte) :
    w.flatWrite a y = a y := by
  rw [flatWrite_eq, assigned_of_ne]
  intro u hu heq
  obtain ⟨x, hx, rfl⟩ := List.mem_map.mp hu
  refine hy ?_
  rw [← map_fst_pairs, ← heq]
  exact List.mem_map_of_mem hx

/-- The bytes of a pair that concern a byte of an element. -/
theorem assigned_pairBytes {x : Coord × Coord} (hx : x ∈ w.pairs) {y : Coord}
    (hy : Inside y d.extent) {j : Nat} (hj : j < d.type.size) (v : Byte) :
    assigned (pairBytes w x) (location d.toDataset y j) v =
      if x.1 = y then w.byteAt x.2 j else v := by
  have hsame : ∀ i < d.type.size, location d.toDataset x.1 i = location d.toDataset y j →
      x.1 = y ∧ i = j := fun i hi => location_inj d (file_inside w hx) hy hi hj
  by_cases hxy : x.1 = y
  · rw [if_pos hxy]
    refine assigned_of_eq ?_ ⟨_, List.mem_map_of_mem (List.mem_range.mpr hj), by rw [hxy]⟩ v
    intro u hu heq
    obtain ⟨i, hi, rfl⟩ := List.mem_map.mp hu
    rw [(hsame i (List.mem_range.mp hi) heq).2]
  · rw [if_neg hxy, assigned_of_ne]
    intro u hu heq
    obtain ⟨i, hi, rfl⟩ := List.mem_map.mp hu
    exact hxy (hsame i (List.mem_range.mp hi) heq).1

/-- The bytes of a chunk that concern a byte of an element. -/
theorem assigned_pieceBytes {info : ChunkInfo} (hp : Piece w info) {y : Coord}
    (hy : Inside y d.extent) {j : Nat} (hj : j < d.type.size) (old : Byte) :
    assigned (pieceBytes w info) (location d.toDataset y j) old =
      if chunkStart d.toDataset y = startOf d.toDataset info then
        assigned (w.pairs.map fun x => (x.1, w.byteAt x.2 j)) y old else old := by
  have hpairs : assigned (pieceBytes w info) (location d.toDataset y j) old =
      assigned ((w.pairs.filter fun x =>
        decide (chunkStart d.toDataset x.1 = startOf d.toDataset info)).map
          fun x => (x.1, w.byteAt x.2 j)) y old := by
    rw [pieceBytes_eq w hp]
    exact assigned_flatMap
      (fun x hx => assigned_pairBytes (List.mem_of_mem_filter hx) hy hj) old
  rw [hpairs]
  split
  next hstart =>
    exact assigned_filter (fun x _ heq => decide_eq_true (by rw [heq]; exact hstart)) old
  next hstart =>
    rw [assigned_of_ne]
    intro u hu heq
    obtain ⟨x, hx, rfl⟩ := List.mem_map.mp hu
    exact hstart (heq ▸ of_decide_eq_true (List.mem_filter.mp hx).2)

/-- **One operation** does the write on the elements of its chunk, and nothing else. -/
theorem operation_spec {info : ChunkInfo} {x : Key × List Vol.Entry} (h : Operates w info x)
    (σ : Store) :
    ∃ σ', operate w.buf x σ = .ok σ' ∧
      (∀ y, Inside y d.extent → storedValue d.toDataset σ' y =
        if chunkStart d.toDataset y = startOf d.toDataset info then
          w.flatWrite (storedValue d.toDataset σ) y else storedValue d.toDataset σ y) ∧
      ∀ key, key ≠ x.1 → σ' key = σ key := by
  -- what the operation does to each byte of its object
  obtain ⟨σ', hσ', hloc, hframe⟩ := writeOp_spec w h.key h.piece.count.symm h.bytes σ
  refine ⟨σ', hσ', fun y hy => ?_, hframe⟩
  -- the same at the bytes of one element, in this chunk or in another
  have hbyte : ∀ j < d.type.size, byteOf σ' (location d.toDataset y j) =
      if chunkStart d.toDataset y = startOf d.toDataset info then
        assigned (w.pairs.map fun x => (x.1, w.byteAt x.2 j)) y
          (byteOf σ (location d.toDataset y j))
      else byteOf σ (location d.toDataset y j) := fun j hj => by
    rw [hloc, assigned_pieceBytes h.piece hy hj]
  split
  -- the element is in this chunk: it is put together from its bytes
  next hstart =>
    rw [flatWrite_eq]
    unfold storedValue ArrayWrite.element
    rw [assigned_vector]
    refine List.map_congr_left fun j hj => ?_
    rw [hbyte j (List.mem_range.mp hj), if_pos hstart]
  -- the element is in another chunk: none of its bytes changed
  next hstart =>
    refine List.map_congr_left fun j hj => ?_
    rw [hbyte j (List.mem_range.mp hj), if_neg hstart]

end Operations

/-! ## Operations of many processes -/

section Processes

variable {ι κ : Type} {ds : Datasets κ} {target : ι → κ}
  (ws : ∀ i, ArrayWrite (ds.dataset (target i)))

/-- The store after operations, each with the process that it comes from. -/
def perform (l : List (ι × Key × List Vol.Entry)) (σ : Store) : Except Stop Store :=
  l.foldlM (fun σ x => operate (ws x.1).buf x.2 σ) σ

/-- A process writes the element at `y` of dataset `k`. -/
def Selects (k : κ) (y : Coord) (i : ι) : Prop := target i = k ∧ y ∈ (ws i).file.points

/-- An operation is one of the process that it comes from. -/
def Belongs (x : ι × Key × List Vol.Entry) : Prop := ∃ info, Operates (ws x.1) info x.2

/-- An operation contains the element at `y` of dataset `k`. -/
def Contains (k : κ) (y : Coord) (x : ι × Key × List Vol.Entry) : Prop :=
  Selects ws k y x.1 ∧ ∃ info, Operates (ws x.1) info x.2 ∧
    chunkStart (ds.dataset k).toDataset y = startOf (ds.dataset k).toDataset info

variable {ws}

/-- An operation of another dataset leaves an element. -/
theorem storedValue_other {d d' : ArrayDataset} {w : ArrayWrite d'} {info : ChunkInfo}
    {x : Key × List Vol.Entry} (h : Operates w info x)
    (hne : d.fileName ≠ d'.fileName ∨ d.binOid ≠ d'.binOid) {σ σ' : Store}
    (hframe : ∀ key, key ≠ x.1 → σ' key = σ key) {y : Coord} (hy : Inside y d.extent) :
    storedValue d.toDataset σ' y = storedValue d.toDataset σ y := by
  refine List.map_congr_left fun j _ => (location_frame (fun start hstart => ?_) hy j).1
  apply hframe
  rw [h.key]
  exact objectName_ne hne hstart.ge h.piece.room

/-- One operation: an element stays, or is as its process writes it. -/
theorem step_value {x : ι × Key × List Vol.Entry} (hx : Belongs ws x) (σ : Store) :
    ∃ σ', operate (ws x.1).buf x.2 σ = .ok σ' ∧
      (∀ k y, Inside y (ds.dataset k).extent →
        (Selects ws k y x.1 ∧
          storedValue (ds.dataset k).toDataset σ' y = written (ws x.1) y) ∨
        (¬ Contains ws k y x ∧
          storedValue (ds.dataset k).toDataset σ' y =
            storedValue (ds.dataset k).toDataset σ y)) ∧
      ∀ key, (∀ k start, (ds.dataset k).extent.length ≤ start.length →
        key ≠ objectName (ds.dataset k).toDataset start) → σ' key = σ key := by
  obtain ⟨i, x⟩ := x
  obtain ⟨info, h⟩ := hx
  obtain ⟨σ', hok, hvalue, hframe⟩ := operation_spec h σ
  refine ⟨σ', hok, fun k y hy => ?_, fun key hkey => hframe key ?_⟩
  -- the write's own dataset: the chunk of `y`, then whether `y` is selected
  · by_cases hk : target i = k
    · subst hk
      by_cases hstart : chunkStart (ds.dataset (target i)).toDataset y =
          startOf (ds.dataset (target i)).toDataset info
      · rw [hvalue y hy, if_pos hstart]
        by_cases hsel : y ∈ (ws i).file.points
        · exact Or.inl ⟨⟨rfl, hsel⟩, flatWrite_selected hsel _⟩
        · exact Or.inr ⟨fun hc => hsel hc.1.2, flatWrite_other hsel _⟩
      · refine Or.inr ⟨fun hc => ?_, by rw [hvalue y hy, if_neg hstart]⟩
        obtain ⟨-, info', h', hstart'⟩ := hc
        exact hstart (hstart'.trans (h'.start_eq h))
    -- another dataset: its objects have other names
    · refine Or.inr ⟨fun hc => hk hc.1.1, ?_⟩
      exact storedValue_other h (ds.distinct _ _ fun heq => hk heq.symm) hframe hy
  · rw [h.key]
    exact hkey _ _ h.piece.room

/-- Operations of any processes: an element stays, or is as one of the processes writes it, and
the names of other objects do not matter. -/
theorem perform_value {l : List (ι × Key × List Vol.Entry)} :
    (∀ x ∈ l, Belongs ws x) → ∀ σ : Store,
    ∃ σ', perform ws l σ = .ok σ' ∧
      (∀ k y, Inside y (ds.dataset k).extent →
        (∃ x ∈ l, Selects ws k y x.1 ∧
          storedValue (ds.dataset k).toDataset σ' y = written (ws x.1) y) ∨
        ((∀ x ∈ l, ¬ Contains ws k y x) ∧
          storedValue (ds.dataset k).toDataset σ' y =
            storedValue (ds.dataset k).toDataset σ y)) ∧
      ∀ key, (∀ k start, (ds.dataset k).extent.length ≤ start.length →
        key ≠ objectName (ds.dataset k).toDataset start) → σ' key = σ key := by
  induction l with
  | nil => exact fun _ σ => ⟨σ, rfl, fun _ _ _ => Or.inr ⟨nofun, rfl⟩, fun _ _ => rfl⟩
  | cons x l ih =>
    intro hl σ
    obtain ⟨σ₁, hok, hfirst, hframe⟩ := step_value (hl x List.mem_cons_self) σ
    obtain ⟨σ', hrest, hvalue, hframe'⟩ := ih (fun y hy => hl y (List.mem_cons_of_mem _ hy)) σ₁
    refine ⟨σ', ?_, fun k y hy => ?_, fun key hkey => (hframe' key hkey).trans (hframe key hkey)⟩
    · unfold perform
      rw [List.foldlM_cons, hok]
      exact hrest
    -- the last operation that contains the element decides
    · rcases hvalue k y hy with ⟨z, hz, hsel, hval⟩ | ⟨hnone, hval⟩
      · exact Or.inl ⟨z, List.mem_cons_of_mem _ hz, hsel, hval⟩
      · rcases hfirst k y hy with ⟨hsel, hval₁⟩ | ⟨hnot, hval₁⟩
        · exact Or.inl ⟨x, List.mem_cons_self, hsel, hval.trans hval₁⟩
        · exact Or.inr ⟨List.forall_mem_cons.mpr ⟨hnot, hnone⟩, hval.trans hval₁⟩

variable [DecidableEq ι]

variable (ws) in
/-- The operations of all processes in some order, those of each process in its own order. -/
def Interleaves (envs : ι → Env) (l : List (ι × Key × List Vol.Entry)) : Prop :=
  ∀ i, operations (ws i) (envs i) = .ok ((l.filter fun x => decide (x.1 = i)).map Prod.snd)

section Order

variable {envs : ι → Env} {l : List (ι × Key × List Vol.Entry)} (h : Interleaves ws envs l)
include h

/-- All operations belong to their processes. -/
theorem belongs {x : ι × Key × List Vol.Entry} (hx : x ∈ l) : Belongs ws x := by
  obtain ⟨infos, xs, hops, hoperates, -⟩ := operations_ok (ws x.1) (envs x.1)
  obtain rfl := Except.ok.inj ((h x.1).symm.trans hops)
  have hmem : x.2 ∈ (l.filter fun y => decide (y.1 = x.1)).map Prod.snd :=
    List.mem_map_of_mem (List.mem_filter.mpr ⟨hx, decide_eq_true rfl⟩)
  obtain ⟨info, -, hinfo⟩ := exists_left_of_mem hoperates hmem
  exact ⟨info, hinfo⟩

/-- An element that a process selects is in one of the operations. -/
theorem exists_contains {k : κ} {y : Coord} {i : ι} (hsel : Selects ws k y i) :
    ∃ x ∈ l, Contains ws k y x := by
  obtain ⟨rfl, hy⟩ := hsel
  obtain ⟨infos, xs, hops, hoperates, hcovers⟩ := operations_ok (ws i) (envs i)
  obtain rfl := Except.ok.inj ((h i).symm.trans hops)
  have hpair := hy
  rw [← map_fst_pairs] at hpair
  obtain ⟨p, hp, rfl⟩ := List.mem_map.mp hpair
  obtain ⟨info, hinfo, hstart⟩ := List.mem_map.mp (hcovers p hp)
  obtain ⟨x, hx, hinfo⟩ := exists_right_of_mem hoperates hinfo
  obtain ⟨⟨i', x'⟩, hmem, rfl⟩ := List.mem_map.mp hx
  obtain ⟨hl, hi⟩ := List.mem_filter.mp hmem
  obtain rfl : i' = i := of_decide_eq_true hi
  exact ⟨_, hl, ⟨rfl, hy⟩, info, hinfo, hstart.symm⟩

/-- **No element is torn.**  Any number of processes write any datasets, each in one call without
conversion and with selections of one rank and shape, and the store performs the operations of
their writes in any order.  All operations succeed.  An element that some of them select is
afterwards as one of these processes wrote it as a whole; all other elements and the metadata of
all files are as before. -/
theorem untorn (σ : Store) :
    ∃ σ', perform ws l σ = .ok σ' ∧
      (∀ k y, Inside y (ds.dataset k).extent → (∃ i, Selects ws k y i) →
        ∃ i, Selects ws k y i ∧
          storedValue (ds.dataset k).toDataset σ' y = written (ws i) y) ∧
      (∀ k y, Inside y (ds.dataset k).extent → (∀ i, ¬ Selects ws k y i) →
        storedValue (ds.dataset k).toDataset σ' y =
          storedValue (ds.dataset k).toDataset σ y) ∧
      ∀ fileName binOid, σ' (stringName fileName binOid) = σ (stringName fileName binOid) := by
  obtain ⟨σ', hok, hvalue, hframe⟩ := perform_value (fun x hx => belongs h hx) σ
  refine ⟨σ', hok, fun k y hy hsome => ?_, fun k y hy hnone => ?_, fun fileName binOid => ?_⟩
  · obtain ⟨i, hsel⟩ := hsome
    rcases hvalue k y hy with ⟨x, -, hx, hval⟩ | ⟨hnot, -⟩
    · exact ⟨x.1, hx, hval⟩
    · obtain ⟨x, hx, hcontains⟩ := exists_contains h hsel
      exact absurd hcontains (hnot x hx)
  · rcases hvalue k y hy with ⟨x, -, hx, -⟩ | ⟨-, hval⟩
    · exact absurd hx (hnone x.1)
    · exact hval
  · exact hframe _ fun k start _ => (chunkName_ne_stringName _ _ _ _ _ start).symm

end Order

end Processes

/-! ## Two processes on a small dataset -/

/-- One dataset. -/
abbrev alone : Datasets Unit where
  dataset _ := nine
  distinct := fun _ _ h => absurd rfl h

/-- All elements, and the second column. -/
def demoWrites (second : Bool) : ArrayWrite nine := if second then columnWrite else wholeWrite

/-- The operations of a write, each with its process. -/
def tagged (second : Bool) : List (Bool × Key × List Vol.Entry) :=
  match operations (demoWrites second) plain with
  | .ok l => l.map fun x => (second, x)
  | .error _ => []

/-- The second process is faster than the first one. -/
def demoOrder : List (Bool × Key × List Vol.Entry) :=
  (tagged false).take 2 ++ (tagged true ++ (tagged false).drop 2)

theorem filter_tagged (b second : Bool) {l : List (Bool × Key × List Vol.Entry)}
    (h : ∀ x ∈ l, x.1 = second) :
    (l.filter fun x => decide (x.1 = b)) = if second = b then l else [] := by
  split
  next hb => exact List.filter_eq_self.mpr fun x hx => decide_eq_true ((h x hx).trans hb)
  next hb => exact List.filter_eq_nil_iff.mpr fun x hx => by simp [h x hx, hb]

theorem tagged_fst (second : Bool) : ∀ x ∈ tagged second, x.1 = second := by
  intro x hx
  unfold tagged at hx
  split at hx
  · obtain ⟨y, -, rfl⟩ := List.mem_map.mp hx
    rfl
  · cases hx

theorem operations_tagged (second : Bool) :
    operations (demoWrites second) plain = .ok ((tagged second).map Prod.snd) := by
  obtain ⟨_, l, hops, -⟩ := operations_ok (demoWrites second) plain
  unfold tagged
  rw [hops]
  simp

theorem interleaves_demo : @Interleaves Bool Unit alone (fun _ => ()) demoWrites _
    (fun _ => plain) demoOrder := by
  intro second
  have hfalse := tagged_fst false
  rw [operations_tagged second]
  unfold demoOrder
  rw [List.filter_append, List.filter_append, filter_tagged second true (tagged_fst true),
    filter_tagged second false fun x hx => hfalse x (List.mem_of_mem_take hx),
    filter_tagged second false fun x hx => hfalse x (List.mem_of_mem_drop hx)]
  cases second
  · simp
  · simp

theorem untorn_nine :
    ∃ σ', @perform Bool Unit alone (fun _ => ()) demoWrites demoOrder (fun _ => none) = .ok σ' ∧
      (storedValue nine.toDataset σ' [2, 1] = [14, 15] ∨
        storedValue nine.toDataset σ' [2, 1] = [112, 113]) ∧
      storedValue nine.toDataset σ' [2, 2] = [16, 17] := by
  obtain ⟨σ', hok, hvalue, -⟩ := untorn interleaves_demo fun _ => none
  have hinside : Inside [2, 1] nine.extent ∧ Inside [2, 2] nine.extent := by
    simp [Inside, nine]
  have hall : ∀ y ∈ [[2, 1], [2, 2]], y ∈ wholeWrite.file.points := by decide
  refine ⟨σ', hok, ?_, ?_⟩
  · obtain ⟨i, -, hval⟩ := hvalue () [2, 1] hinside.1 ⟨false, rfl, hall _ (by simp)⟩
    cases i with
    | false =>
      have hwhole : written wholeWrite [2, 1] = [14, 15] := by decide +kernel
      exact Or.inl (hval.trans hwhole)
    | true =>
      have hcolumn : written columnWrite [2, 1] = [112, 113] := by decide +kernel
      exact Or.inr (hval.trans hcolumn)
  · obtain ⟨i, ⟨-, hy⟩, hval⟩ := hvalue () [2, 2] hinside.2 ⟨false, rfl, hall _ (by simp)⟩
    cases i with
    | false =>
      have hwhole : written wholeWrite [2, 2] = [16, 17] := by decide +kernel
      exact hval.trans hwhole
    | true =>
      -- the column does not contain it
      have hnot : [2, 2] ∉ columnWrite.file.points := by decide
      exact absurd hy hnot

end DTIO.Properties.ConcurrentChunks
