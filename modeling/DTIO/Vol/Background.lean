import DTIO.Vol.Transfer

/-!
# The Background of a Conversion

A conversion of compound types works on a background, into which it puts the members that the
source has.  This module follows the bytes of one chunk through a transfer with a conversion:
from the object into the background, through `H5Tconvert`, and back.

## Main definitions

- `Members.list`: the members of a compound type, with their places
- `Datatype.padded`: types with bytes that belong to no member
- `storedByte`: a byte of an object, if it is stored

## Main results

- `needBkg_eq_padded`: the background is filled for padding
- `readContiguous_spec`: what is read into a background
- `writeConverted_of_background`: a chunk that is written from a given background
-/

namespace DTIO.Vol

open DTIO.Posix DTIO.Assignment DTIO.MachineInt DTIO.Memory

/-! ## Members -/

/-- A member of a compound type. -/
structure Member where
  name : List Char
  offset : Nat
  type : Datatype

def Members.list : Members → List Member
  | .nil => []
  | .cons name offset type rest => ⟨name, offset, type⟩ :: rest.list

/-- Byte `j` of an element belongs to the member. -/
def Member.Owns (m : Member) (j : Nat) : Prop := m.offset ≤ j ∧ j < m.offset + m.type.size

/-! ## Padding -/

/-- The bytes that belong to members. -/
def Members.used : Members → Nat
  | .nil => 0
  | .cons _ _ type rest => type.size + rest.used

mutual

/-- A compound type in it, in a member or in the elements of an array, has bytes that belong to no
member. -/
def Datatype.padded : Datatype → Bool
  | .compound size members => members.padded || members.used != size
  | .array _ base => base.padded
  | _ => false

def Members.padded : Members → Bool
  | .nil => false
  | .cons _ _ type rest => type.padded || rest.padded

end

mutual

/-- `src` has all members of `dst`, whose types are supported. -/
def Datatype.provides (src : Datatype) : Datatype → Bool
  | .atomic .. => true
  | .compound size members => src.providesAll members && decide (members.used ≤ size)
  | .array _ base =>
    match src.super with
    | none => false
    | some src => src.provides base
  | _ => false

def Datatype.providesAll (src : Datatype) : Members → Bool
  | .nil => true
  | .cons name _ type rest =>
    match src.member name with
    | none => false
    | some src' => src'.provides type && src.providesAll rest

end

mutual

/-- **When the background is filled**: if the destination, whose members the source has, is
padded. -/
theorem needBkg_eq_padded (src : Datatype) :
    ∀ dst, src.provides dst = true → ∃ need, needBkg src dst = .returns need dst.padded
  | .atomic .., _ => ⟨false, rfl⟩
  | .compound size members, h => by
    simp only [Datatype.provides, Bool.and_eq_true, decide_eq_true_eq] at h
    have hused : 0 + members.used ≤ size := by
      rw [Nat.zero_add]
      exact h.2
    have hall := needBkgMembers_eq_padded src size members 0 h.1 hused
    rw [Nat.zero_add] at hall
    exact ⟨true, hall⟩
  | .array count base, h => by
    unfold needBkg
    cases hsuper : src.super with
    | none => simp [Datatype.provides, hsuper] at h
    | some src' =>
      simp only [Datatype.provides, hsuper] at h
      exact needBkg_eq_padded src' base h
  | .reference _, h => nomatch h
  | .vlen .., h => nomatch h

theorem needBkgMembers_eq_padded (src : Datatype) (size : Nat) :
    ∀ members sizeUsed, src.providesAll members = true → sizeUsed + members.used ≤ size →
      needBkgMembers src size members sizeUsed =
        .returns true (members.padded || sizeUsed + members.used != size)
  | .nil, sizeUsed, _, hused => by
    simp only [needBkgMembers, Members.padded, Members.used, Nat.add_zero] at hused ⊢
    rw [if_pos hused]
    rfl
  | .cons name offset type rest, sizeUsed, h, hused => by
    cases hmember : src.member name with
    | none => simp [Datatype.providesAll, hmember] at h
    | some src' =>
      simp only [Datatype.providesAll, hmember, Bool.and_eq_true] at h
      rw [Members.used, ← Nat.add_assoc] at hused
      obtain ⟨need, hneed⟩ := needBkg_eq_padded src' type h.1
      simp only [needBkgMembers, hmember, hneed, Members.padded, Members.used, ← Nat.add_assoc]
      -- a padded member ends the loop
      cases type.padded with
      | true => rfl
      | false => exact needBkgMembers_eq_padded src size rest _ h.2 hused

end

/-- A compound type needs a background. -/
theorem needBkgMembers_needs {src : Datatype} {size : Nat} {need fill : Bool} :
    ∀ {members : Members} {sizeUsed : Nat},
      needBkgMembers src size members sizeUsed = .returns need fill → need = true
  | .nil, sizeUsed, h => by
    unfold needBkgMembers at h
    split at h
    · cases h
      rfl
    · cases h
  | .cons name offset type rest, sizeUsed, h => by
    unfold needBkgMembers at h
    split at h
    · cases h
      rfl
    · split at h
      · cases h
        rfl
      · exact needBkgMembers_needs h
      next hother =>
        -- the loop ends with the failure of a member
        simp_all

/-! ## Contiguous buffers -/

/-- An operation with a contiguous buffer takes its bytes in order. -/
theorem opBytes_contiguous (runs : List Run) (off : Nat) :
    opBytes (contiguous runs off) = (runs.flatMap Run.bytes).zipIdx off := by
  induction runs generalizing off with
  | nil => rfl
  | cons r runs ih =>
    have hentry : (⟨off, r.len, r.off⟩ : Entry).bytes = r.bytes.zipIdx off := by
      apply List.ext_getElem
      · simp [Entry.bytes, Run.bytes]
      · intro i _ _
        simp [Entry.bytes, Run.bytes]
    have hlen : r.bytes.length = r.len := by simp [Run.bytes]
    rw [contiguous, opBytes_cons, ih, hentry, List.flatMap_cons, List.zipIdx_append, hlen]

/-- The bytes of a selection in order: byte `j` of the `i`-th element. -/
theorem zipIdx_bytes (s : Dataspace) (size : Nat) :
    (s.bytes size).zipIdx = s.points.zipIdx.flatMap fun x =>
      (List.range size).map fun j => (Grid.rowMajor s.extent x.1 * size + j, x.2 * size + j) := by
  obtain ⟨extent, points⟩ := s
  -- the induction starts at any element
  suffices h : ∀ k, (Dataspace.bytes ⟨extent, points⟩ size).zipIdx (k * size) =
      (points.zipIdx k).flatMap fun x => (List.range size).map fun j =>
        (Grid.rowMajor extent x.1 * size + j, x.2 * size + j) by
    have hzero := h 0
    rwa [Nat.zero_mul] at hzero
  unfold Dataspace.bytes
  induction points with
  | nil => exact fun _ => rfl
  | cons p points ih =>
    intro k
    have hfirst : ((List.range size).map fun j => Grid.rowMajor extent p * size + j).zipIdx
        (k * size) = (List.range size).map fun j =>
          (Grid.rowMajor extent p * size + j, k * size + j) := by
      apply List.ext_getElem
      · simp
      · intro i _ _
        simp
    have hnext : k * size + size = (k + 1) * size := (Nat.succ_mul k size).symm
    simp only [List.flatMap_cons, List.zipIdx_append, List.zipIdx_cons, List.length_map,
      List.length_range, hfirst, hnext, ih]

/-- An operation with a contiguous buffer for a selection. -/
theorem buildIoOpContig_spec (iter : SelIter) {s : Dataspace} (hs : s.Valid) {size : Nat}
    (hsize : 0 < size) (hpos : 0 < s.npoints) :
    ∃ runs, buildIoOpContig iter s size s.npoints = .ok (contiguous runs 0) ∧
      runs.flatMap Run.bytes = s.bytes size := by
  obtain ⟨runs, hruns, hbytes⟩ := sequences_spec iter hs hsize hpos
  refine ⟨runs, ?_, hbytes⟩
  rw [buildIoOpContig, if_pos hpos, hruns]
  rfl

theorem sum_len {runs : List Run} {s : Dataspace} {size : Nat}
    (h : runs.flatMap Run.bytes = s.bytes size) :
    (runs.map Run.len).sum = s.npoints * size := by
  rw [← length_bytes, ← h, length_flatMap_bytes]

/-! ## Writing from a buffer of the connector -/

/-- The byte at a place of an object, if there is one. -/
def storedByte (σ : Store) (loc : Key × Nat) : Option Byte := (σ.object loc.1)[loc.2]?

/-- An operation within a buffer writes what the buffer has. -/
theorem foldlM_load {mem : List Byte} {op : List Entry}
    (h : ∀ e ∈ op, e.bufOff + e.len ≤ mem.length) (obj : List Byte) :
    op.foldlM (writeEntry (load mem)) obj =
      op.foldlM (writeEntry (userData fun i => mem.getD i 0)) obj := by
  induction op generalizing obj with
  | nil => rfl
  | cons e op ih =>
    have hfit : e.bufOff + e.len ≤ mem.length := h e List.mem_cons_self
    have hentry : writeEntry (load mem) obj e =
        writeEntry (userData fun i => mem.getD i 0) obj e := by
      -- what is loaded is the content of the buffer, byte by byte
      have hload : load mem e.bufOff e.len =
          userData (fun i => mem.getD i 0) e.bufOff e.len := by
        unfold load userData
        rw [if_pos hfit]
        congr 1
        apply List.ext_getElem
        · simp [ByteFile.readAt]
          omega
        · intro i hi _
          rw [ByteFile.length_readAt] at hi
          have hlt : e.bufOff + i < mem.length := by omega
          simp [ByteFile.readAt, List.getD_eq_getElem?_getD, hlt]
      unfold writeEntry
      rw [hload]
    rw [List.foldlM_cons, List.foldlM_cons, hentry]
    congr 1
    funext obj'
    exact ih (fun e' he' => h e' (List.mem_cons_of_mem _ he')) obj'

/-- No operation makes an object shorter. -/
theorem length_le_writeOp {data : Nat → Nat → Option (List Byte)} {op : List Entry}
    {obj obj' : List Byte} (h : op.foldlM (writeEntry data) obj = some obj') :
    obj.length ≤ obj'.length := by
  induction op generalizing obj with
  | nil =>
    cases h
    exact le_rfl
  | cons e op ih =>
    obtain ⟨obj₁, hobj₁, h⟩ := Option.bind_eq_some_iff.mp h
    obtain ⟨bytes, -, rfl⟩ := Option.map_eq_some_iff.mp hobj₁
    exact (ByteFile.le_length_writeAt ..).trans (ih h)

/-- The triples of a contiguous buffer are within it. -/
theorem contiguous_within {runs : List Run} {off : Nat} {e : Entry}
    (h : e ∈ contiguous runs off) : e.bufOff + e.len ≤ off + (runs.map Run.len).sum := by
  induction runs generalizing off with
  | nil => cases h
  | cons r runs ih =>
    rw [List.map_cons, List.sum_cons]
    rcases List.mem_cons.mp h with rfl | h
    · show off + r.len ≤ _
      omega
    · have := ih h
      omega

/-- A read leaves the length of a buffer. -/
theorem length_readOp {op : List Entry} {key : Key} {σ : Store} {dst dst' : List Byte}
    (h : readOpOperate op key σ dst = .ok dst') : dst'.length = dst.length := by
  replace h := orFault_eq_ok.mp h
  induction op generalizing dst with
  | nil =>
    cases h
    rfl
  | cons e op ih =>
    obtain ⟨d, hd, h⟩ := Option.bind_eq_some_iff.mp h
    exact (ih h).trans (length_store hd)

section Contiguous

variable {runs : List Run} {s : Dataspace} {size : Nat} {σ : Store}

/-- What a contiguous buffer assigns to the places of a selection. -/
def elementBytes (s : Dataspace) (size : Nat) (mem : List Byte) : List (Nat × Byte) :=
  s.points.zipIdx.flatMap fun x => (List.range size).map fun j =>
    (Grid.rowMajor s.extent x.1 * size + j, mem.getD (x.2 * size + j) 0)

/-- The triples of a contiguous buffer are within one that is long enough. -/
theorem contiguous_fits {mem : List Byte} (hfit : (runs.map Run.len).sum ≤ mem.length) :
    ∀ e ∈ contiguous runs 0, e.bufOff + e.len ≤ mem.length := by
  intro e he
  have hle := contiguous_within he
  rw [Nat.zero_add] at hle
  exact hle.trans hfit

/-- A write from a contiguous buffer that is long enough. -/
theorem writeContiguous_ok {mem : List Byte} (hfit : (runs.map Run.len).sum ≤ mem.length)
    (key : Key) (σ : Store) :
    ∃ σ', writeOpOperate (load mem) (contiguous runs 0) key σ = .ok σ' := by
  obtain ⟨obj, hobj, -⟩ :=
    getD_writeOp (fun i => mem.getD i 0) (contiguous runs 0) (σ.object key)
  rw [← foldlM_load (contiguous_fits hfit)] at hobj
  refine ⟨Function.update σ key (some obj), ?_⟩
  unfold writeOpOperate
  rw [hobj]
  rfl

/-- An object after a write from a contiguous buffer. -/
theorem writeContiguous_spec (hbytes : runs.flatMap Run.bytes = s.bytes size) {mem : List Byte}
    (hfit : s.npoints * size ≤ mem.length) (key : Key) (σ : Store) :
    ∃ σ', writeOpOperate (load mem) (contiguous runs 0) key σ = .ok σ' ∧
      (∀ key', key' ≠ key → σ' key' = σ key') ∧
      (σ.object key).length ≤ (σ'.object key).length ∧
      ∀ o, (σ'.object key).getD o 0 =
        assigned (elementBytes s size mem) o ((σ.object key).getD o 0) := by
  rw [← sum_len hbytes] at hfit
  obtain ⟨obj, hobj, hvalue⟩ :=
    getD_writeOp (fun i => mem.getD i 0) (contiguous runs 0) (σ.object key)
  -- all sequences are within the buffer
  rw [← foldlM_load (contiguous_fits hfit)] at hobj
  have hobject : Store.object (Function.update σ key (some obj)) key = obj := by
    simp [Store.object]
  refine ⟨Function.update σ key (some obj), ?_, ?_, ?_, ?_⟩
  · unfold writeOpOperate
    rw [hobj]
    rfl
  · intro key' hne
    exact Function.update_of_ne hne ..
  · rw [hobject]
    exact length_le_writeOp hobj
  -- the sequences are the bytes of the selected elements, one after the other
  · intro o
    rw [hobject, hvalue, opBytes_contiguous, hbytes, zipIdx_bytes, List.map_flatMap]
    simp only [List.map_map]
    rfl

/-- An assignment to byte `j` of `p` comes from byte `j` of an element selected at `p`. -/
theorem of_mem_elementBytes (hs : s.Valid) {p : Grid.Coord} (hp : Grid.Inside p s.extent) {j : Nat}
    (hj : j < size) {mem : List Byte} {x : Nat × Byte} (hx : x ∈ elementBytes s size mem)
    (hplace : x.1 = Grid.rowMajor s.extent p * size + j) :
    ∃ i, s.points[i]? = some p ∧ x.2 = mem.getD (i * size + j) 0 := by
  obtain ⟨⟨q, i⟩, hq, hx⟩ := List.mem_flatMap.mp hx
  obtain ⟨j', hj', rfl⟩ := List.mem_map.mp hx
  have hqi : s.points[i]? = some q := List.mem_zipIdx_iff_getElem?.mp hq
  have hqin : Grid.Inside q s.extent := hs.inside q (List.mem_of_getElem? hqi)
  obtain ⟨hrow, rfl⟩ := (Grid.mul_add_inj (List.mem_range.mp hj') hj).mp hplace
  rw [Grid.rowMajor_inj hqin hp hrow] at hqi
  exact ⟨i, hqi, rfl⟩

theorem mem_elementBytes {p : Grid.Coord} (hp : p ∈ s.points) {j : Nat} (hj : j < size)
    (mem : List Byte) :
    ∃ x ∈ elementBytes s size mem, x.1 = Grid.rowMajor s.extent p * size + j := by
  obtain ⟨i, hi⟩ := List.getElem?_of_mem hp
  have hpi : (p, i) ∈ s.points.zipIdx := List.mem_zipIdx_iff_getElem?.mpr hi
  refine ⟨(Grid.rowMajor s.extent p * size + j, mem.getD (i * size + j) 0), ?_, rfl⟩
  exact List.mem_flatMap.mpr ⟨_, hpi, List.mem_map.mpr ⟨j, List.mem_range.mpr hj, rfl⟩⟩

/-- What is read into a contiguous buffer: the bytes that the object has. -/
theorem readContiguous_spec (obj : List Byte) :
    ∀ {runs : List Run} {off : Nat} {dst : List Byte}, off + (runs.map Run.len).sum ≤ dst.length →
      ∃ dst', (contiguous runs off).foldlM (readEntry obj) dst = some dst' ∧
        dst'.length = dst.length ∧ (∀ k, k < off → dst'[k]? = dst[k]?) ∧
        ∀ x ∈ opBytes (contiguous runs off), x.1 < obj.length → dst'[x.2]? = obj[x.1]? := by
  intro runs
  induction runs with
  | nil => exact fun {off dst} _ => ⟨dst, rfl, rfl, fun _ _ => rfl, nofun⟩
  | cons r runs ih =>
    intro off dst hfit
    rw [List.map_cons, List.sum_cons] at hfit
    have hlen : (ByteFile.readAt obj r.off r.len).length ≤ r.len := by
      rw [ByteFile.length_readAt]
      exact min_le_left _ _
    obtain ⟨d, hd⟩ : ∃ d, store dst off (ByteFile.readAt obj r.off r.len) = some d :=
      ⟨_, if_pos (by omega)⟩
    have hdlen : d.length = dst.length := length_store hd
    have hdget := getElem?_store hd
    have hrest : off + r.len + (runs.map Run.len).sum ≤ d.length := by omega
    obtain ⟨dst', hdst', hlen', hframe, hread⟩ := ih hrest
    refine ⟨dst', ?_, hlen'.trans hdlen, ?_, ?_⟩
    · rw [contiguous, List.foldlM_cons]
      show (store dst off _ >>= _) = _
      rw [hd]
      exact hdst'
    · intro k hk
      rw [hframe k (by omega), hdget, if_neg (by omega)]
    · intro x hx hxlt
      rw [contiguous, opBytes_cons, List.mem_append] at hx
      rcases hx with hx | hx
      · -- the first triple, which the others leave alone
        obtain ⟨j, hj, rfl⟩ := List.mem_map.mp hx
        have hj : j < r.len := List.mem_range.mp hj
        have hjlt : r.off + j < obj.length := hxlt
        rw [hframe (off + j) (Nat.add_lt_add_left hj off), hdget, ByteFile.length_readAt,
          if_pos (by omega), Nat.add_sub_cancel_left]
        simp [ByteFile.readAt, hj]
      · exact hread x hx hxlt

end Contiguous

/-! ## One chunk -/

section Chunk

variable {env : Env} {r : Request} {buf : Buffer} {t : Tconv} {info : ChunkInfo} {key : Key}
variable {runs : List Run} {σ : Store}

/-- The background of a chunk: the bytes that are stored, or the buffer as it is. -/
theorem background_spec (hneed : t.needBkg = true)
    (hbytes : runs.flatMap Run.bytes = info.fspace.bytes t.srcTypeSize) {b : List Byte}
    (hroom : info.fspace.npoints * t.srcTypeSize ≤ b.length) (key : Key) (σ : Store) :
    ∃ b', background t (contiguous runs 0) key σ (.live b) = .ok (some b') ∧
      b'.length = b.length ∧ (t.fillBkg = false → b' = b) ∧
      (t.fillBkg = true → ∀ i p j v, info.fspace.points[i]? = some p → j < t.srcTypeSize →
        storedByte σ (key, Grid.rowMajor info.fspace.extent p * t.srcTypeSize + j) = some v →
          b'.getD (i * t.srcTypeSize + j) 0 = v) := by
  cases hfill : t.fillBkg with
  | false =>
    refine ⟨b, ?_, rfl, fun _ => rfl, nofun⟩
    unfold background
    rw [hfill, hneed]
    rfl
  | true =>
    have hfit : 0 + (runs.map Run.len).sum ≤ b.length := by
      rw [Nat.zero_add, sum_len hbytes]
      exact hroom
    obtain ⟨b', hb', hlen, -, hread⟩ := readContiguous_spec (σ.object key) hfit
    refine ⟨b', ?_, hlen, nofun, ?_⟩
    · unfold background readOpOperate
      simp only [hfill, if_true, Ptr.deref, ok_bind, hb', orFault_some]
      rfl
    · intro _ i p j v hp hj hv
      -- byte `j` of this element is one of the bytes of the operation
      have hmem : (Grid.rowMajor info.fspace.extent p * t.srcTypeSize + j,
          i * t.srcTypeSize + j) ∈ opBytes (contiguous runs 0) := by
        rw [opBytes_contiguous, hbytes, zipIdx_bytes]
        refine List.mem_flatMap.mpr ⟨(p, i), List.mem_zipIdx_iff_getElem?.mpr hp, ?_⟩
        exact List.mem_map.mpr ⟨j, List.mem_range.mpr hj, rfl⟩
      obtain ⟨hlt, -⟩ := List.getElem?_eq_some_iff.mp hv
      rw [List.getD_eq_getElem?_getD, hread _ hmem hlt]
      exact congrArg (Option.getD · 0) hv

/-- The elements of a selection are gathered where there is room for them. -/
theorem gather_ok {space : Dataspace} (buf : Buffer) {size : Nat} {dst : List Byte}
    (h : space.npoints * size ≤ dst.length) :
    ∃ g, gather space buf size dst = .ok g ∧ g.length = dst.length := by
  have hfit : 0 + ((space.bytes size).map buf).length ≤ dst.length := by
    rwa [List.length_map, length_bytes, Nat.zero_add]
  have hg : gather space buf size dst = .ok _ := orFault_eq_ok.mpr (if_pos hfit)
  exact ⟨_, hg, length_store (orFault_eq_ok.mp hg)⟩

/-- Elements are converted where there is room for both types. -/
theorem hConvert_ok (env : Env) {src dst : Datatype} {n : Nat} {tconv : List Byte}
    {bkg : Option (List Byte)} (h : n * max src.size dst.size ≤ tconv.length)
    (hbkg : ∀ b ∈ bkg, n * dst.size ≤ b.length) :
    hConvert env src dst n tconv bkg =
      .ok ((List.range tconv.length).map (env.convert src dst n tconv bkg).tconv,
        bkg.map fun b => (List.range b.length).map (env.convert src dst n tconv bkg).bkg) :=
  if_pos ⟨h, hbkg⟩

/-- **A chunk from a given background**: there is room for the elements of both types, and what
`H5Tconvert` leaves is written. -/
theorem writeConverted_of_background (env : Env) (r : Request) (buf : Buffer)
    (hop : buildIoOpContig env.iter info.fspace t.srcTypeSize info.mspace.npoints =
      .ok (contiguous runs 0))
    (hbytes : runs.flatMap Run.bytes = info.fspace.bytes t.srcTypeSize)
    (hcount : info.mspace.npoints = info.fspace.npoints)
    (hsizes : t.srcTypeSize = r.dset.type.size ∧ t.dstTypeSize = r.memType.size)
    {bkgBuf : Ptr (List Byte)} {bkg : Option (List Byte)}
    (hback : background t (contiguous runs 0) key σ bkgBuf = .ok bkg)
    (hbkg : ∀ b ∈ bkg, info.fspace.npoints * t.srcTypeSize ≤ b.length) {tconv : List Byte}
    (hroom : info.fspace.npoints * max t.srcTypeSize t.dstTypeSize ≤ tconv.length) :
    ∃ g σ', g.length = tconv.length ∧
      writeConverted env r buf t info key (.live tconv) bkgBuf σ =
        .ok ((List.range tconv.length).map
            (env.convert r.memType r.dset.type info.fspace.npoints g bkg).tconv,
          bkg.map fun b => (List.range b.length).map
            (env.convert r.memType r.dset.type info.fspace.npoints g bkg).bkg, σ') ∧
      writeOpOperate (load ((List.range tconv.length).map
        (env.convert r.memType r.dset.type info.fspace.npoints g bkg).tconv))
          (contiguous runs 0) key σ = .ok σ' := by
  -- the elements in memory fit
  have hgather : info.mspace.npoints * t.dstTypeSize ≤ tconv.length := by
    rw [hcount]
    exact (Nat.mul_le_mul_left _ (le_max_right ..)).trans hroom
  obtain ⟨g, hg, hglen⟩ := gather_ok buf hgather
  have hfit : info.fspace.npoints * max r.memType.size r.dset.type.size ≤ g.length := by
    rwa [hglen, ← hsizes.1, ← hsizes.2, max_comm]
  rw [hsizes.1] at hbkg
  have hconvert := hConvert_ok env hfit hbkg
  rw [hglen] at hconvert
  -- and so do the elements in the file
  have hwrite : info.fspace.npoints * t.srcTypeSize ≤ ((List.range tconv.length).map
      (env.convert r.memType r.dset.type info.fspace.npoints g bkg).tconv).length := by
    rw [List.length_map, List.length_range]
    exact (Nat.mul_le_mul_left _ (le_max_left ..)).trans hroom
  obtain ⟨σ', hσ', -⟩ := writeContiguous_spec hbytes hwrite key σ
  refine ⟨g, σ', hglen, ?_, hσ'⟩
  rw [hcount] at hop
  unfold writeConverted
  simp only [hop, hback, Ptr.deref, hg, hcount, hconvert, hσ', ok_bind]
  rfl

/-- The buffers of a conversion have room for `n` elements. -/
structure HasRoom (t : Tconv) (n : Nat) (tconvBuf bkgBuf : Ptr (List Byte)) : Prop where
  elements : ∃ m, tconvBuf = .live m ∧ n * max t.srcTypeSize t.dstTypeSize ≤ m.length
  background : t.needBkg = true → ∃ b, bkgBuf = .live b ∧ n * t.srcTypeSize ≤ b.length

/-- A background is the buffer for it, perhaps with another content. -/
theorem background_some {bkgBuf : Ptr (List Byte)} {op : List Vol.Entry} {b' : List Byte}
    (h : background t op key σ bkgBuf = .ok (some b')) :
    ∃ b, bkgBuf = .live b ∧ b'.length = b.length := by
  unfold background at h
  split at h
  · obtain ⟨b, hderef, h⟩ := bind_eq_ok.mp h
    obtain ⟨b'', hb', h⟩ := bind_eq_ok.mp h
    cases h
    exact ⟨b, Ptr.deref_eq_ok.mp hderef, length_readOp hb'⟩
  · split at h
    · obtain ⟨b, hderef, h⟩ := bind_eq_ok.mp h
      cases h
      exact ⟨b', Ptr.deref_eq_ok.mp hderef, rfl⟩
    · cases h

/-- A conversion that needs a background has one. -/
theorem background_ne_none {bkgBuf : Ptr (List Byte)} {op : List Vol.Entry}
    (hneed : t.needBkg = true) : background t op key σ bkgBuf ≠ .ok none := by
  unfold background
  rw [hneed]
  intro h
  split at h
  · obtain ⟨_, -, h⟩ := bind_eq_ok.mp h
    obtain ⟨_, -, h⟩ := bind_eq_ok.mp h
    cases h
  · obtain ⟨_, -, h⟩ := bind_eq_ok.mp h
    cases h

/-- What a chunk that is written has used: its background, the elements gathered in the buffer of
the conversion, and the room in both, whose lengths stay. -/
theorem writeConverted_used {tconvBuf bkgBuf : Ptr (List Byte)}
    {done : List Byte × Option (List Byte) × Store}
    (h : writeConverted env r buf t info key tconvBuf bkgBuf σ = .ok done) :
    ∃ op bkg tconv, background t op key σ bkgBuf = .ok bkg ∧ tconvBuf = .live tconv ∧
      info.mspace.npoints * max r.memType.size r.dset.type.size ≤ tconv.length ∧
      (∀ b ∈ bkg, info.mspace.npoints * r.dset.type.size ≤ b.length) ∧
      done.1.length = tconv.length ∧ done.2.1.map List.length = bkg.map List.length := by
  unfold writeConverted at h
  obtain ⟨op, -, h⟩ := bind_eq_ok.mp h
  obtain ⟨bkg, hback, h⟩ := bind_eq_ok.mp h
  obtain ⟨tconv, htconv, h⟩ := bind_eq_ok.mp h
  obtain ⟨g, hg, h⟩ := bind_eq_ok.mp h
  obtain ⟨converted, hconverted, h⟩ := bind_eq_ok.mp h
  obtain ⟨σ', -, h⟩ := bind_eq_ok.mp h
  cases h
  -- neither the gathering nor the conversion changes the length of the buffer
  have hglen : g.length = tconv.length := length_store (orFault_eq_ok.mp hg)
  unfold hConvert at hconverted
  split at hconverted
  next hfit =>
    cases hconverted
    rw [hglen] at hfit
    refine ⟨op, bkg, tconv, hback, Ptr.deref_eq_ok.mp htconv, hfit.1, hfit.2, ?_, ?_⟩
    · rw [List.length_map, List.length_range, hglen]
    · cases bkg with
      | none => rfl
      | some b => simp
  next => cases hconverted

/-- The buffers of a chunk that is written have room for its elements. -/
theorem writeConverted_room {tconvBuf bkgBuf : Ptr (List Byte)}
    {done : List Byte × Option (List Byte) × Store}
    (hsizes : t.srcTypeSize = r.dset.type.size ∧ t.dstTypeSize = r.memType.size)
    (h : writeConverted env r buf t info key tconvBuf bkgBuf σ = .ok done) :
    HasRoom t info.mspace.npoints tconvBuf bkgBuf := by
  obtain ⟨op, bkg, tconv, hback, htconv, hroom, hbkg, -, -⟩ := writeConverted_used h
  rw [← hsizes.1, ← hsizes.2, max_comm] at hroom
  refine ⟨⟨tconv, htconv, hroom⟩, fun hneed => ?_⟩
  cases bkg with
  | none => exact absurd hback (background_ne_none hneed)
  | some b' =>
    obtain ⟨b, hb, hlen⟩ := background_some hback
    have hle := hbkg b' rfl
    rw [← hsizes.1, hlen] at hle
    exact ⟨b, hb, hle⟩

/-- A chunk leaves buffers of the same lengths. -/
theorem length_writeConverted {tconvBuf bkgBuf : Ptr (List Byte)}
    {done : List Byte × Option (List Byte) × Store}
    (h : writeConverted env r buf t info key tconvBuf bkgBuf σ = .ok done) :
    (∃ m, tconvBuf = .live m ∧ done.1.length = m.length) ∧
      ∀ b' ∈ done.2.1, ∃ b, bkgBuf = .live b ∧ b'.length = b.length := by
  obtain ⟨op, bkg, tconv, hback, htconv, -, -, hlen, hlens⟩ := writeConverted_used h
  refine ⟨⟨tconv, htconv, hlen⟩, fun b' hb' => ?_⟩
  rw [Option.mem_def.mp hb', Option.map_some] at hlens
  obtain ⟨b₁, rfl, hb₁⟩ := Option.map_eq_some_iff.mp hlens.symm
  obtain ⟨b, hb, hsame⟩ := background_some hback
  exact ⟨b, hb, hb₁.symm.trans hsame⟩

/-- The operation of a chunk: as many bytes as the elements have. -/
theorem buildIoOpContig_len (iter : SelIter) {s : Dataspace} (hs : s.Valid) {size n : Nat}
    (hsize : 0 < size) (hn : n < 18446744073709551616) {op : List Vol.Entry}
    (h : buildIoOpContig iter s size n = .ok op) :
    ∃ runs, op = contiguous runs 0 ∧ (runs.map Run.len).sum = n * size := by
  unfold buildIoOpContig at h
  split at h
  · obtain ⟨runs, hruns, rfl⟩ := map_eq_ok.mp h
    obtain ⟨m, hm, hle, hmod⟩ := sequences_len (iter.count hs hsize (by decide)) hn hruns
    -- the selection is so small that the counter does not wrap
    rw [sum_nelem iter hs hsize] at hle
    have hlt : m < 18446744073709551616 := by
      have := hs.selected
      unfold Dataspace.npoints at hle
      omega
    rw [Nat.mod_eq_of_lt hlt] at hmod
    exact ⟨runs, rfl, by rw [hm, hmod]⟩
  · cases h

/-- A background is there if its buffer has room. -/
theorem background_ok (ht : t.fillBkg = true → t.needBkg = true) {bkgBuf : Ptr (List Byte)}
    (hbkg : t.needBkg = true → ∃ b, bkgBuf = .live b ∧ (runs.map Run.len).sum ≤ b.length) :
    ∃ bkg, background t (contiguous runs 0) key σ bkgBuf = .ok bkg ∧
      ∀ b ∈ bkg, (runs.map Run.len).sum ≤ b.length := by
  cases hneed : t.needBkg with
  -- without a background nothing is filled
  | false =>
    have hfill : t.fillBkg = false := by
      by_contra hfill
      rw [Bool.not_eq_false] at hfill
      exact absurd (ht hfill) (by simp [hneed])
    refine ⟨none, ?_, nofun⟩
    unfold background
    rw [hfill, hneed]
    rfl
  | true =>
    obtain ⟨b, rfl, hb⟩ := hbkg hneed
    cases hfill : t.fillBkg with
    -- a background that is not filled stays as it is
    | false =>
      refine ⟨some b, ?_, ?_⟩
      · unfold background
        rw [hfill, hneed]
        rfl
      · intro b' hb'
        obtain rfl := Option.some.inj hb'
        exact hb
    -- filling it keeps its length
    | true =>
      obtain ⟨b', hb', hlen, -⟩ := readContiguous_spec (σ.object key)
        (show 0 + (runs.map Run.len).sum ≤ b.length by rwa [Nat.zero_add])
      refine ⟨some b', ?_, ?_⟩
      · unfold background readOpOperate
        simp only [hfill, if_true, Ptr.deref, ok_bind, hb', orFault_some]
        rfl
      · intro b'' hb''
        obtain rfl := Option.some.inj hb''
        rwa [hlen]

/-- **A chunk is written** if and only if the buffers have room for its elements. -/
theorem writeConverted_iff (ht : t.fillBkg = true → t.needBkg = true)
    (hsizes : t.srcTypeSize = r.dset.type.size ∧ t.dstTypeSize = r.memType.size)
    (hop : buildIoOpContig env.iter info.fspace t.srcTypeSize info.mspace.npoints =
      .ok (contiguous runs 0))
    (hlen : (runs.map Run.len).sum = info.mspace.npoints * t.srcTypeSize)
    {tconvBuf bkgBuf : Ptr (List Byte)} :
    (∃ done, writeConverted env r buf t info key tconvBuf bkgBuf σ = .ok done) ↔
      HasRoom t info.mspace.npoints tconvBuf bkgBuf := by
  constructor
  · rintro ⟨done, hdone⟩
    exact writeConverted_room hsizes hdone
  · rintro ⟨⟨tconv, rfl, hroom⟩, hbkg⟩
    rw [← hlen] at hbkg
    obtain ⟨bkg, hback, hfit⟩ : ∃ bkg, background t (contiguous runs 0) key σ bkgBuf = .ok bkg ∧
        ∀ b ∈ bkg, (runs.map Run.len).sum ≤ b.length := background_ok ht hbkg
    have hgather : info.mspace.npoints * t.dstTypeSize ≤ tconv.length :=
      (Nat.mul_le_mul_left _ (le_max_right ..)).trans hroom
    obtain ⟨g, hg, hglen⟩ := gather_ok buf hgather
    have helements : info.mspace.npoints * max r.memType.size r.dset.type.size ≤ g.length := by
      rwa [hglen, ← hsizes.1, ← hsizes.2, max_comm]
    rw [hlen, hsizes.1] at hfit
    have hconvert := hConvert_ok env helements hfit
    -- the write takes no more than the conversion
    have hwrite : (runs.map Run.len).sum ≤ ((List.range g.length).map
        (env.convert r.memType r.dset.type info.mspace.npoints g bkg).tconv).length := by
      rw [List.length_map, List.length_range, hglen, hlen]
      exact (Nat.mul_le_mul_left _ (le_max_left ..)).trans hroom
    obtain ⟨σ', hσ'⟩ := writeContiguous_ok hwrite key σ
    unfold writeConverted
    simp only [hop, hback, Ptr.deref, hg, ok_bind, hconvert, hσ']
    exact ⟨_, rfl⟩

end Chunk

end DTIO.Vol
