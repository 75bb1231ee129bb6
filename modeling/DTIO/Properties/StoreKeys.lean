import DTIO.Vol.OidBuffers

/-!
# Keys of the Object Store

All files share one store.  An object's key is put together from the file's name, the binary oid
and, for a chunk, the rank and the position, without separators.  The fields at both ends have a
fixed width, so the key can be taken apart again, whatever the file is called.

## Main definitions

- `KeyId`: what a key stands for
- `Produced`: the buffers that the two functions return, new ones and those used again

## Main results

- `keyOf_inj`: the names determine what they stand for
- `keys_never_collide`: so do the strings that the functions produce
-/

namespace DTIO.Properties.StoreKeys

open DTIO.Vol DTIO.Grid

/-- What a key stands for: a metadata object, or the chunk of a dataset at a position.  The
position has an entry for each dimension of the rank. -/
inductive KeyId where
  | object (file : FileName) (binOid : UInt64)
  | chunk (file : FileName) (binOid : UInt64) (loc : List UInt64) (rank_le : loc.length ≤ 99)

/-- The entries of `chunk_loc`. -/
def coords (loc : List UInt64) : Coord := loc.map UInt64.toNat

/-- The name for it. -/
def keyOf : KeyId → Key
  | .object file binOid => stringName file.name binOid.toNat
  | .chunk file binOid loc _ => chunkName file.name binOid.toNat loc.length (coords loc)

/-- The size of its buffer. -/
def allocated : KeyId → Nat
  | .object file _ => 2 + file.fileNameLen + 16 + 1
  | .chunk file _ loc _ => chunkOidLen file loc.length

/-- A buffer that was returned: a new one, or one of the same file and rank written again. -/
inductive Produced : KeyId → List Char → Prop
  | object {file binOid old buf} : oidCreateString (some old) file binOid.toNat = .ok buf →
      Produced (.object file binOid) buf
  | chunk {file binOid loc rank_le old buf} :
      oidCreateChunkInto (some old) file binOid.toNat loc.length (coords loc) none = .ok buf →
      Produced (.chunk file binOid loc rank_le) buf
  | reused {file binOid loc rank_le binOid' loc' rank_le' heap buf buf'} :
      Produced (.chunk file binOid' loc' rank_le') buf' → loc'.length = loc.length →
      oidCreateChunkInto heap file binOid.toNat loc.length (coords loc) (some buf') = .ok buf →
      Produced (.chunk file binOid loc rank_le) buf

/-! ## Names determine what they stand for -/

theorem decimal2_inj {m n : Nat} (hm : m ≤ 99) (hn : n ≤ 99) (h : decimal2 m = decimal2 n) :
    m = n := by
  obtain ⟨htens, hunits⟩ := List.cons.inj h
  have hdiv : m / 10 = n / 10 := hexDigit_inj (by omega) (by omega) htens
  have hmod : m % 10 = n % 10 := hexDigit_inj (by omega) (by omega) (List.cons.inj hunits).1
  omega

/-- The last sixteen digits of a string are the oid, what is left is the file. -/
theorem stringName_inj {name name' : Key} {oid oid' : UInt64}
    (h : stringName name oid.toNat = stringName name' oid'.toNat) : name = name' ∧ oid = oid' := by
  obtain ⟨hname, hoid⟩ := List.append_inj' h (by simp)
  have hnames : name = name' := List.cons.inj (List.cons.inj hname).2 |>.2
  exact ⟨hnames, UInt64.toNat_inj.mp (hex_inj oid.toNat_lt oid'.toNat_lt hoid)⟩

/-- The first two digits give the rank and with it the width of what follows the file. -/
theorem chunkName_inj_all {name name' : Key} {oid oid' : UInt64} {loc loc' : List UInt64}
    (hrank : loc.length ≤ 99) (hrank' : loc'.length ≤ 99)
    (h : chunkName name oid.toNat loc.length (coords loc) =
      chunkName name' oid'.toNat loc'.length (coords loc')) :
    name = name' ∧ oid = oid' ∧ loc = loc' := by
  -- two digits give the rank, so the coordinates have equal lengths
  obtain ⟨hdigits, hrest⟩ := List.append_inj h (by simp [decimal2])
  have hlen : loc.length = loc'.length := decimal2_inj hrank hrank' hdigits
  have htake : (coords loc).take loc.length = coords loc :=
    List.take_of_length_le (by simp [coords])
  have htake' : (coords loc').take loc'.length = coords loc' :=
    List.take_of_length_le (by simp [coords])
  rw [htake, htake'] at hrest
  -- they are cut from the end, the id before them, and the name is what is left
  obtain ⟨hname, hrest⟩ := List.append_inj' hrest
    (by simp [List.length_flatMap, coords, hlen, Function.comp_def])
  obtain ⟨hoid, hloc⟩ := List.append_inj hrest (by simp)
  -- sixteen digits each give back the coordinates
  have hcoords : coords loc = coords loc' := by
    refine flatMap_hex_inj ?_ ?_ (by simp [coords, hlen]) hloc
    · intro a ha
      obtain ⟨x, -, rfl⟩ := List.mem_map.mp ha
      exact x.toNat_lt
    · intro a ha
      obtain ⟨x, -, rfl⟩ := List.mem_map.mp ha
      exact x.toNat_lt
  have hinj : Function.Injective UInt64.toNat := fun _ _ h => UInt64.toNat_inj.mp h
  exact ⟨hname, UInt64.toNat_inj.mp (hex_inj oid.toNat_lt oid'.toNat_lt hoid),
    List.map_injective_iff.mpr hinj hcoords⟩

theorem keyOf_inj {id id' : KeyId} (h : keyOf id = keyOf id') : id = id' := by
  cases id with
  | object file oid =>
    cases id' with
    | object file' oid' =>
      obtain ⟨hname, rfl⟩ := stringName_inj h
      rw [FileName.ext hname]
    | chunk file' oid' loc' hrank' => exact absurd h.symm (chunkName_ne_stringName _ _ _ _ _ _)
  | chunk file oid loc hrank =>
    cases id' with
    | object file' oid' => exact absurd h (chunkName_ne_stringName _ _ _ _ _ _)
    | chunk file' oid' loc' hrank' =>
      obtain ⟨hname, rfl, rfl⟩ := chunkName_inj_all hrank hrank' h
      obtain rfl := FileName.ext hname
      rfl

/-! ## Buffers -/

theorem nul_notMem_keyOf (id : KeyId) : nul ∉ keyOf id := by
  cases id with
  | object file oid => exact nul_notMem_stringName _
  | chunk file oid loc hrank => exact nul_notMem_chunkName _ _ _

theorem length_keyOf (id : KeyId) : (keyOf id ++ [nul]).length = allocated id := by
  cases id with
  | object file oid => simp [keyOf, allocated, FileName.fileNameLen]
  | chunk file oid loc hrank =>
    have hcoords : loc.length ≤ (coords loc).length := by simp [coords]
    rw [List.length_append, keyOf, length_chunkName _ _ hcoords]
    rfl

/-- Every buffer that is returned, a new one or one used again, holds the name and its
terminator and nothing else. -/
theorem Produced.eq {id : KeyId} {buf : List Char} (h : Produced id buf) :
    buf = keyOf id ++ [nul] := by
  induction h with
  | object h =>
    rw [oidCreateString_eq] at h
    exact (Except.ok.inj h).symm
  | @chunk file binOid loc hrank old buf h =>
    rw [oidCreateChunkInto_new file old _ hrank (by simp [coords])] at h
    exact (Except.ok.inj h).symm
  | @reused file binOid loc hrank binOid' loc' hrank' heap buf buf' _ hlen h ih =>
    -- the buffer has the size that the new name needs
    have hbuf : buf'.length = chunkOidLen file loc.length := by
      rw [ih, length_keyOf, allocated, hlen]
    rw [oidCreateChunkInto_reused file heap _ hrank (by simp [coords]) hbuf] at h
    exact (Except.ok.inj h).symm

/-- Where memory can be allocated the functions succeed. -/
theorem exists_produced (id : KeyId) : ∃ buf, Produced id buf := by
  cases id with
  | object file oid => exact ⟨_, .object (oidCreateString_eq file (fun _ => nul) _)⟩
  | chunk file oid loc hrank =>
    exact ⟨_, .chunk (oidCreateChunkInto_new file (fun _ => nul) _ hrank (by simp [coords]))⟩

/-- A buffer can always be used again for the same file and rank. -/
theorem exists_reused {file : FileName} {oid' : UInt64} {loc' : List UInt64}
    {hrank' : loc'.length ≤ 99} {buf' : List Char}
    (h : Produced (.chunk file oid' loc' hrank') buf') (heap : Option (Nat → Char)) (oid : UInt64)
    {loc : List UInt64} (hlen : loc'.length = loc.length) :
    ∃ buf, oidCreateChunkInto heap file oid.toNat loc.length (coords loc) (some buf') =
      .ok buf := by
  have hbuf : buf'.length = chunkOidLen file loc.length := by
    rw [h.eq, length_keyOf, allocated, hlen]
  exact ⟨_, oidCreateChunkInto_reused file heap _ (hlen ▸ hrank') (by simp [coords]) hbuf⟩

/-- The functions produce a terminated string of the allocated length for everything that needs a
key, also in a buffer of the same file and rank, and never the same string for two things. -/
theorem keys_never_collide :
    (∀ id, ∃ buf, Produced id buf) ∧
      (∀ file oid' loc' hrank' buf', Produced (.chunk file oid' loc' hrank') buf' →
        ∀ (heap : Option (Nat → Char)) (oid : UInt64) (loc : List UInt64),
          loc'.length = loc.length → ∃ buf,
            oidCreateChunkInto heap file oid.toNat loc.length (coords loc) (some buf') = .ok buf) ∧
      (∀ id buf, Produced id buf → buf = cString buf ++ [nul] ∧ buf.length = allocated id) ∧
      ∀ id id' buf buf', Produced id buf → Produced id' buf' →
        cString buf = cString buf' → id = id' := by
  have hstring : ∀ {id buf}, Produced id buf → cString buf = keyOf id := by
    intro id buf h
    rw [h.eq, cString_terminated (nul_notMem_keyOf id)]
  refine ⟨exists_produced, fun file oid' loc' hrank' buf' h heap oid loc hlen => ?_,
    fun id buf h => ⟨?_, ?_⟩, fun id id' buf buf' h h' heq => ?_⟩
  · exact exists_reused h heap oid hlen
  · rw [hstring h]
    exact h.eq
  · rw [h.eq]
    exact length_keyOf id
  · rw [hstring h, hstring h'] at heq
    exact keyOf_inj heq

end DTIO.Properties.StoreKeys
