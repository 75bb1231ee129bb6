import DTIO.Vol.Transfer

/-!
# Buffers of Object Names

The names of objects are C strings that `snprintf` writes into buffers of the connector
(`H5VL_dtio_oid_create_string_name`, `H5VL_dtio_oid_create_chunk`).  The name of a chunk is
written in parts, each over the terminator of the one before, into a new buffer or into one that
holds another name of the same file and rank.

## Main definitions

- `snprintf`: what the C library does to a buffer
- `oidCreateString`, `oidCreateChunkInto`: the two functions on buffers

## Main results

- `oidCreateString_eq`, `encodeChunk_eq`: the buffers hold the names of `ObjectNames`, and a
  terminator behind them
-/

namespace DTIO.Vol

open DTIO.Grid DTIO.MachineInt DTIO.Memory

/-! ## C strings -/

/-- The terminator of a string. -/
def nul : Char := Char.ofNat 0

/-- The string at the beginning of a buffer. -/
def cString (buf : List Char) : Key := buf.takeWhile (· ≠ nul)

theorem cString_terminated {name : Key} (h : nul ∉ name) (rest : List Char) :
    cString (name ++ nul :: rest) = name := by
  induction name with
  | nil => simp [cString]
  | cons c name ih =>
    have hc : c ≠ nul := fun hc => h (hc ▸ List.mem_cons_self)
    have hrest := ih fun hmem => h (List.mem_cons_of_mem _ hmem)
    simpa [cString, hc] using hrest

/-- `snprintf(mem + off, size, …)` where the formatted text is `out`: as much as fits and a
terminator, and the length of the whole text if it is an `int`. -/
def snprintf (mem : List Char) (off size : Nat) (out : Key) : Except Stop (Int × List Char) :=
  let count : Int := if out.length ≤ 2147483647 then out.length else -1
  if size = 0 then .ok (count, mem)
  else (orFault (store mem off (out.take (size - 1) ++ [nul]))).map fun mem' => (count, mem')

/-- The comparison of the count with the one that was expected. -/
def expectCount (r : Int × List Char) (n : Int) : Except Stop (List Char) :=
  if r.1 = n then .ok r.2 else .error .fail

/-! ## The two functions -/

/-- `H5VL_dtio_oid_create_string_name`.  `heap` is what the allocated memory held before, or
`none` if there is no memory. -/
def oidCreateStringName (heap : Option (Nat → Char)) (fileName : Key) (fileNameLen binOid : Nat) :
    Except Stop (List Char) :=
  match heap with
  | none => .error .fail
  | some old => do
    let r ← snprintf (malloc old (2 + fileNameLen + 16 + 1)) 0 (2 + fileNameLen + 16 + 1)
      ('o' :: 'b' :: fileName ++ hex 16 binOid)
    expectCount r (2 + toSigned32 fileNameLen + 16)

/-- The name of an open file, `file->file_name`. -/
@[ext] structure FileName where
  name : Key
  noNul : nul ∉ name
  length_lt : name.length < 2147482624

/-- `file->file_name_len`, set by `strlen`. -/
def FileName.fileNameLen (file : FileName) : Nat := file.name.length

/-- `H5VL_dtio_oid_create_string`. -/
def oidCreateString (heap : Option (Nat → Char)) (file : FileName) (binOid : Nat) :
    Except Stop (List Char) :=
  oidCreateStringName heap file.name file.fileNameLen binOid

/-- The loop over the entries of `chunk_loc`. -/
def encodeLoc (oidLen : Nat) : Coord → Nat → List Char → Except Stop (List Char)
  | [], _, encBuf => .ok encBuf
  | c :: loc, oidOff, encBuf => do
    let r ← snprintf encBuf oidOff (oidLen - oidOff) (hex 16 c)
    let encBuf ← expectCount r 16
    encodeLoc oidLen loc (oidOff + 16) encBuf

/-- `oid_len` of `H5VL_dtio_oid_create_chunk`. -/
def chunkOidLen (file : FileName) (rank : Nat) : Nat := 2 + file.fileNameLen + 16 + rank * 16 + 1

/-- The encoding part of `H5VL_dtio_oid_create_chunk`. -/
def encodeChunk (file : FileName) (binOid rank : Nat) (chunkLoc : Coord) (encBuf : List Char) :
    Except Stop (List Char) := do
  let r ← snprintf encBuf 0 (chunkOidLen file rank)
    (decimal2 rank ++ (file.name ++ hex 16 binOid))
  let encBuf ← expectCount r (2 + toSigned32 file.fileNameLen + 16)
  -- `chunk_loc` has an entry for each dimension
  let loc ← orFault (if rank ≤ chunkLoc.length then some (chunkLoc.take rank) else none)
  encodeLoc (chunkOidLen file rank) loc (2 + file.fileNameLen + 16) encBuf

/-- `H5VL_dtio_oid_create_chunk`; `oid` is the buffer that is to be used again. -/
def oidCreateChunkInto (heap : Option (Nat → Char)) (file : FileName) (binOid rank : Nat)
    (chunkLoc : Coord) (oid : Option (List Char)) : Except Stop (List Char) :=
  -- the assertion
  if 99 < rank then .error .fault
  else
    match oid, heap with
    | some buf, _ => encodeChunk file binOid rank chunkLoc buf
    | none, some old => encodeChunk file binOid rank chunkLoc (malloc old (chunkOidLen file rank))
    | none, none => .error .fail

/-! ## What they leave in the buffer -/

/-- A text that fits, written into a part of a buffer that has its length. -/
theorem snprintf_eq {pre old post : List Char} {off size : Nat} {out : Key}
    (hoff : pre.length = off) (hold : old.length = out.length + 1) (hsize : out.length < size)
    (hint : out.length ≤ 2147483647) :
    snprintf (pre ++ (old ++ post)) off size out =
      .ok (out.length, pre ++ (out ++ nul :: post)) := by
  have htake : out.take (size - 1) = out := List.take_of_length_le (by omega)
  have hstore : store (pre ++ (old ++ post)) off (out ++ [nul]) =
      some (pre ++ ((out ++ [nul]) ++ post)) := store_append hoff (by simp [hold])
  have hpos : size ≠ 0 := by omega
  simp only [snprintf, if_neg hpos, if_pos hint, htake, hstore, orFault_some]
  simp [Except.map]

/-- At the beginning of a buffer. -/
theorem snprintf_first {mem : List Char} {size : Nat} {out : Key}
    (hmem : out.length + 1 ≤ mem.length) (hsize : out.length < size)
    (hint : out.length ≤ 2147483647) :
    snprintf mem 0 size out = .ok (out.length, out ++ nul :: mem.drop (out.length + 1)) := by
  have hempty : ([] : List Char).length = 0 := rfl
  have htake : (mem.take (out.length + 1)).length = out.length + 1 :=
    List.length_take_of_le hmem
  have hwrite : snprintf ([] ++ (mem.take (out.length + 1) ++ mem.drop (out.length + 1))) 0 size
      out = .ok (out.length, [] ++ (out ++ nul :: mem.drop (out.length + 1))) :=
    snprintf_eq hempty htake hsize hint
  rwa [List.nil_append, List.nil_append, List.take_append_drop] at hwrite

@[simp] theorem expectCount_self (n : Int) (mem : List Char) :
    expectCount (n, mem) n = .ok mem := if_pos rfl

/-- One entry of the position moves the terminator by sixteen digits. -/
theorem encodeLoc_eq {oidLen : Nat} {loc : Coord} {pre rest : List Char}
    (hrest : rest.length = 16 * loc.length) (hlen : oidLen = pre.length + 1 + rest.length) :
    encodeLoc oidLen loc pre.length (pre ++ nul :: rest) =
      .ok (pre ++ loc.flatMap (hex 16) ++ [nul]) := by
  induction loc generalizing pre rest with
  | nil =>
    have hnil : rest = [] := List.eq_nil_of_length_eq_zero (by simpa using hrest)
    simp [encodeLoc, hnil]
  | cons c loc ih =>
    simp only [List.length_cons] at hrest
    -- the first 16 characters behind the prefix are where this coordinate goes
    have hparts : pre ++ nul :: rest = pre ++ ((nul :: rest.take 16) ++ rest.drop 16) := by
      simp
    have hwrite : snprintf (pre ++ nul :: rest) pre.length (oidLen - pre.length) (hex 16 c) =
        .ok (((hex 16 c).length : Nat), pre ++ (hex 16 c ++ nul :: rest.drop 16)) := by
      rw [hparts]
      refine snprintf_eq rfl ?_ ?_ ?_
      · simp only [List.length_cons, List.length_take, length_hex]
        omega
      · simp only [length_hex]
        omega
      · simp
    have hlength : (pre ++ hex 16 c).length = pre.length + 16 := by simp
    -- the rest is written behind the longer prefix
    have htail : encodeLoc oidLen loc (pre.length + 16)
        ((pre ++ hex 16 c) ++ nul :: rest.drop 16) =
          .ok (pre ++ hex 16 c ++ loc.flatMap (hex 16) ++ [nul]) := by
      rw [← hlength]
      apply ih
      · simp only [List.length_drop]
        omega
      · simp only [List.length_drop, hlength]
        omega
    rw [List.append_assoc] at htail
    rw [encodeLoc, hwrite, ok_bind, length_hex, Nat.cast_ofNat, expectCount_self, ok_bind, htail]
    simp

variable (file : FileName)

theorem toSigned32_fileNameLen : toSigned32 file.fileNameLen = file.name.length := by
  have hlt := file.length_lt
  exact Int.bmod_eq_of_le_mul_two (by simp only [FileName.fileNameLen]; omega)
    (by simp only [FileName.fileNameLen]; omega)

@[simp] theorem length_stringName (fileName : Key) (binOid : Nat) :
    (stringName fileName binOid).length = 2 + fileName.length + 16 := by
  simp [stringName]
  omega

/-- The buffer of the name of a metadata object is filled exactly. -/
theorem oidCreateString_eq (old : Nat → Char) (binOid : Nat) :
    oidCreateString (some old) file binOid = .ok (stringName file.name binOid ++ [nul]) := by
  have hlt := file.length_lt
  have hlen : file.fileNameLen = file.name.length := rfl
  have hwrite := @snprintf_first (malloc old (2 + file.fileNameLen + 16 + 1))
    (2 + file.fileNameLen + 16 + 1) (stringName file.name binOid)
    (by simp [hlen]) (by simp [hlen]) (by rw [length_stringName]; omega)
  -- nothing is left behind the terminator
  have hrest : (malloc old (2 + file.fileNameLen + 16 + 1)).drop
      ((stringName file.name binOid).length + 1) = [] :=
    List.drop_eq_nil_of_le (by simp [hlen])
  rw [hrest, length_stringName] at hwrite
  rw [oidCreateString, oidCreateStringName]
  change (snprintf _ 0 _ (stringName file.name binOid) >>= _) = _
  rw [hwrite, ok_bind, toSigned32_fileNameLen]
  exact expectCount_self _ _

/-- The buffer of the name of a chunk is filled exactly, whatever it held. -/
theorem encodeChunk_eq (binOid : Nat) {rank : Nat} {chunkLoc : Coord} {encBuf : List Char}
    (hloc : rank ≤ chunkLoc.length) (hbuf : encBuf.length = chunkOidLen file rank) :
    encodeChunk file binOid rank chunkLoc encBuf =
      .ok (chunkName file.name binOid rank chunkLoc ++ [nul]) := by
  have hlt := file.length_lt
  have hlen : file.fileNameLen = file.name.length := rfl
  -- the rank, the file name and the object id come first
  have hfirst : (decimal2 rank ++ (file.name ++ hex 16 binOid)).length =
      2 + file.name.length + 16 := by
    simp [decimal2]
    omega
  rw [chunkOidLen, hlen] at hbuf
  have hwrite := @snprintf_first encBuf (chunkOidLen file rank)
    (decimal2 rank ++ (file.name ++ hex 16 binOid)) (by rw [hfirst]; omega)
    (by rw [hfirst, chunkOidLen, hlen]; omega) (by rw [hfirst]; omega)
  -- then the coordinates of the chunk
  have htail := @encodeLoc_eq (chunkOidLen file rank) (chunkLoc.take rank)
    (decimal2 rank ++ (file.name ++ hex 16 binOid))
    (encBuf.drop ((decimal2 rank ++ (file.name ++ hex 16 binOid)).length + 1))
    (by rw [List.length_drop, hfirst, List.length_take_of_le hloc]; omega)
    (by rw [List.length_drop, hfirst, chunkOidLen, hlen]; omega)
  rw [hfirst] at hwrite htail
  rw [encodeChunk, hwrite, ok_bind, toSigned32_fileNameLen]
  -- the first `snprintf` wrote as many characters as the code expects
  have hcount : expectCount (((2 + file.name.length + 16 : Nat) : Int),
      decimal2 rank ++ (file.name ++ hex 16 binOid) ++
        nul :: encBuf.drop (2 + file.name.length + 16 + 1)) (2 + file.name.length + 16) =
      .ok (decimal2 rank ++ (file.name ++ hex 16 binOid) ++
        nul :: encBuf.drop (2 + file.name.length + 16 + 1)) := expectCount_self _ _
  rw [hcount, ok_bind, if_pos hloc, orFault_some, ok_bind, hlen, htail]
  simp [chunkName]

/-- A new buffer holds the name of the chunk. -/
theorem oidCreateChunkInto_new (old : Nat → Char) (binOid : Nat) {rank : Nat} {chunkLoc : Coord}
    (hrank : rank ≤ 99) (hloc : rank ≤ chunkLoc.length) :
    oidCreateChunkInto (some old) file binOid rank chunkLoc none =
      .ok (chunkName file.name binOid rank chunkLoc ++ [nul]) := by
  rw [oidCreateChunkInto, if_neg (not_lt.mpr hrank)]
  exact encodeChunk_eq file binOid hloc (length_malloc old _)

/-- So does a buffer of a name with the same file and rank. -/
theorem oidCreateChunkInto_reused (heap : Option (Nat → Char)) (binOid : Nat) {rank : Nat}
    {chunkLoc : Coord} {buf : List Char} (hrank : rank ≤ 99) (hloc : rank ≤ chunkLoc.length)
    (hbuf : buf.length = chunkOidLen file rank) :
    oidCreateChunkInto heap file binOid rank chunkLoc (some buf) =
      .ok (chunkName file.name binOid rank chunkLoc ++ [nul]) := by
  rw [oidCreateChunkInto, if_neg (not_lt.mpr hrank)]
  exact encodeChunk_eq file binOid hloc hbuf

/-! ## Terminators -/

theorem hexDigit_ne_nul (d : Nat) : hexDigit d ≠ nul := by
  rcases lt_or_ge d 16 with hd | hd
  · have hall : ∀ x : Fin 16, hexDigit x ≠ nul := by decide
    exact hall ⟨d, hd⟩
  · rw [hexDigit, List.getD_eq_default _ _ hd]
    decide

theorem nul_notMem_hex (k n : Nat) : nul ∉ hex k n := by
  induction k generalizing n with
  | zero => simp [hex]
  | succ k ih => simp [hex, ih, (hexDigit_ne_nul _).symm]

variable {file}

/-- No name contains the terminator, so the buffers hold them as C strings. -/
theorem nul_notMem_stringName (binOid : Nat) : nul ∉ stringName file.name binOid := by
  have ho : nul ≠ 'o' := by decide
  have hb : nul ≠ 'b' := by decide
  simp [stringName, file.noNul, nul_notMem_hex, ho, hb]

theorem nul_notMem_chunkName (binOid rank : Nat) (loc : Coord) :
    nul ∉ chunkName file.name binOid rank loc := by
  simp [chunkName, decimal2, file.noNul, nul_notMem_hex, (hexDigit_ne_nul _).symm]

end DTIO.Vol
