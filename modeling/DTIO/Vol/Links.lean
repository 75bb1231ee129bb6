import DTIO.Vol.Open
import DTIO.Vol.Transfer

/-!
# Links

The links of a group are the values of keys that its object has
(`H5VL_dtio_link_write`, `H5VL_dtio_link_read` in `adapter/vol/vol-old/H5VLDTIO.cc`).  A value is
a byte for the type of the link, and the oid of a hard link or the target of a soft link without
its terminator.

The operations on keys are not part of the repository.

## Main definitions

- `LinkVal`, `Omap`: values of links, and the operations on keys
- `linkWrite`, `linkRead`: the two functions

## Main results

- `linkWrite_ok`: what a write to a writable group leaves
- `linkRead_hard`, `linkRead_soft`: what is read from a value that was written
-/

namespace DTIO.Vol

open DTIO.Posix DTIO.Memory

/-! ## Values -/

theorem zero_notMem_takeWhile (buf : List Byte) : 0 ∉ buf.takeWhile (· ≠ 0) := by
  intro hmem
  have hne := List.all_eq_true.mp List.all_takeWhile 0 hmem
  simp at hne

/-- A C string. -/
@[ext] structure CString where
  bytes : List Byte
  noNul : 0 ∉ bytes
  deriving DecidableEq, Repr

/-- The string at the beginning of a buffer. -/
def CString.ofBuffer (buf : List Byte) : CString :=
  ⟨buf.takeWhile (· ≠ 0), zero_notMem_takeWhile buf⟩

/-- A string and the terminator. -/
theorem CString.ofBuffer_terminated (target : CString) (rest : List Byte) :
    CString.ofBuffer (target.bytes ++ 0 :: rest) = target := by
  have hall : ∀ b ∈ target.bytes, decide (b ≠ 0) = true := by
    intro b hb
    have hne : b ≠ 0 := fun h => target.noNul (h ▸ hb)
    simpa using hne
  apply CString.ext
  simp only [CString.ofBuffer]
  rw [List.takeWhile_append_of_pos hall]
  simp

/-! The names `a` and `b`, by which links are called in examples. -/

theorem zero_notMem_a : (0 : Byte) ∉ [97] := by decide

theorem zero_notMem_b : (0 : Byte) ∉ [98] := by decide

/-- `H5VL_dtio_link_val_t`; `H5L_TYPE_HARD` is 0 and `H5L_TYPE_SOFT` is 1. -/
inductive LinkVal where
  | hard (oid : UInt64)
  | soft (target : CString)
  | unsupported (type : Int) (neither : type ≠ 0 ∧ type ≠ 1)
  deriving DecidableEq, Repr

/-- A type of link that both functions know. -/
def LinkVal.Supported : LinkVal → Prop
  | .hard _ => True
  | .soft _ => True
  | .unsupported .. => False

/-- `H5VL_DTIO_LINK_VAL_BUF_SIZE`. -/
def linkValBufSize : Nat := 256

/-- `H5F_ACC_RDWR`. -/
def accRdwr : Nat := 1

/-- What the functions read of a group: `grp->obj.oid`, and the `flags` of its file. -/
structure LinkGroup where
  oid : Key
  flags : Nat
  deriving DecidableEq, Repr

/-- A group of a file that was opened for writing. -/
def LinkGroup.Writable (grp : LinkGroup) : Prop := grp.flags &&& accRdwr ≠ 0

instance instDecidableWritable (grp : LinkGroup) : Decidable grp.Writable :=
  inferInstanceAs (Decidable (_ ≠ _))

/-! ## Keys of an object -/

/-- What reading the value of one key returns: the results of `dtio_read_op_operate`, of the read
in it and of `dtio_omap_get_next`, and the value, which is empty if there is no such key. -/
structure OmapReply where
  ret : Int
  readRet : Int
  nextRet : Int
  val : List Byte

/-- The operations on the keys of an object, of a store with states `σ`.  There is no result if
the operation could not be created. -/
structure Omap (σ : Type) where
  /-- `dtio_write_op_omap_set` of one key, and `dtio_write_op_operate` -/
  set : σ → Key → CString → List Byte → Option (Int × σ)
  /-- `dtio_read_op_omap_get_vals_by_keys` of one key -/
  get : σ → Key → CString → Option OmapReply

/-- The operations succeed, and store and return the given bytes exactly.  `contents` are the
values of the keys. -/
structure Omap.Exact {σ : Type} (kv : Omap σ) (contents : σ → Key → CString → List Byte) :
    Prop where
  set_ok : ∀ s oid name data, ∃ ret s', kv.set s oid name data = some (ret, s') ∧ 0 ≤ ret ∧
    ∀ oid' name', contents s' oid' name' =
      if oid' = oid ∧ name' = name then data else contents s oid' name'
  get_ok : ∀ s oid name, ∃ reply, kv.get s oid name = some reply ∧ 0 ≤ reply.ret ∧
    0 ≤ reply.readRet ∧ 0 ≤ reply.nextRet ∧ reply.val = contents s oid name

/-! ## The two functions -/

/-- `malloc`, if there is memory; `old` is what it held before. -/
def mallocOrFail (old : Option (Nat → Byte)) (n : Nat) : Except Stop (List Byte) :=
  match old with
  | some heap => .ok (malloc heap n)
  | none => .error .fail

/-- `val_buf` for a value of `valLen` bytes. -/
def valBuf (stack : Nat → Byte) (heap : Option (Nat → Byte)) (valLen : Nat) :
    Except Stop (List Byte) :=
  if valLen > linkValBufSize then mallocOrFail heap valLen
  else .ok (malloc stack linkValBufSize)

/-- The first `val_len` bytes of `val_buf`, when they are written. -/
def encodeLinkVal (stack : Nat → Byte) (heap : Option (Nat → Byte)) :
    LinkVal → Except Stop (List Byte)
  | .hard oid => do
    -- always in the static buffer
    let buf ← orFault (store (malloc stack linkValBufSize) 0 [0])
    let buf ← orFault (store buf 1 (encode64 oid.toNat))
    orFault (load buf 0 9)
  | .soft target => do
    -- the type takes the place of the terminator
    let valLen := target.bytes.length + 1
    let buf ← valBuf stack heap valLen
    let buf ← orFault (store buf 0 [1])
    let buf ← orFault (store buf 1 target.bytes)
    orFault (load buf 0 valLen)
  | .unsupported .. => .error .fail

variable {σ : Type}

/-- The end of `H5VL_dtio_link_write`. -/
def writeResult : Option (Int × σ) → Except Stop σ
  | none => .error .fail
  | some (ret, s) => if ret < 0 then .error .fail else .ok s

/-- `H5VL_dtio_link_write`. -/
def linkWrite (kv : Omap σ) (s : σ) (grp : LinkGroup) (name : CString) (val : LinkVal)
    (stack : Nat → Byte) (heap : Option (Nat → Byte)) : Except Stop σ :=
  if grp.Writable then do
    let data ← encodeLinkVal stack heap val
    writeResult (kv.set s grp.oid name data)
  else .error .fail

/-- The value of a soft link of `len` bytes.  The bytes are copied from `val + 1`, which is the
memory `behind` the structure that the caller passes, and not from `p`. -/
def readSoft (heap : Option (Nat → Byte)) (behind : List Byte) (len : Nat) :
    Except Stop LinkVal := do
  let buf ← mallocOrFail heap len
  -- `memcpy(val->target.soft, val + 1, len - 1)`
  let copied ← orFault (load behind 0 (len - 1))
  let buf ← orFault (store buf 0 copied)
  let buf ← orFault (store buf (len - 1) [0])
  .ok (.soft (CString.ofBuffer buf))

/-- The value of the key is decoded; an empty one is for a link that was not found. -/
def decodeLinkVal (heap : Option (Nat → Byte)) (behind : List Byte) :
    List Byte → Except Stop LinkVal
  | [] => .error .fail
  | type :: p =>
    if type = 0 then (orFault (uint64 p 0)).map fun oid => .hard (UInt64.ofNat oid)
    else if type = 1 then readSoft heap behind (p.length + 1)
    else .error .fail

/-- `H5VL_dtio_link_read`. -/
def linkRead (kv : Omap σ) (s : σ) (grp : LinkGroup) (name : CString)
    (heap : Option (Nat → Byte)) (behind : List Byte) : Except Stop LinkVal :=
  match kv.get s grp.oid name with
  | none => .error .fail
  | some reply =>
    if reply.ret < 0 ∨ reply.readRet < 0 ∨ reply.nextRet < 0 then .error .fail
    else decodeLinkVal heap behind reply.val

/-! ## What is written -/

/-- The format of a value. -/
def linkBytes : LinkVal → List Byte
  | .hard oid => 0 :: encode64 oid.toNat
  | .soft target => 1 :: target.bytes
  | .unsupported .. => []

/-- A type and what follows it, in a buffer that is long enough. -/
theorem store_type_data {buf data : List Byte} (type : Byte) (hlen : data.length + 1 ≤ buf.length) :
    ∃ buf', (orFault (store buf 0 [type]) >>= fun buf => orFault (store buf 1 data) >>=
      fun buf => orFault (load buf 0 (data.length + 1))) = .ok buf' ∧ buf' = type :: data := by
  obtain ⟨first, mid, post, rfl, hfirst, hmid, hpost⟩ : ∃ first mid post : List Byte,
      buf = first ++ (mid ++ post) ∧ first.length = 1 ∧ mid.length = data.length ∧
        post.length = buf.length - (data.length + 1) := exists_parts (by omega)
  have htype : store (first ++ (mid ++ post)) 0 [type] = some ([type] ++ (mid ++ post)) :=
    store_first _ hfirst
  have hdata : store ([type] ++ (mid ++ post)) 1 data = some ([type] ++ (data ++ post)) :=
    store_append rfl hmid
  have hload : load (([type] ++ data) ++ post) 0 (data.length + 1) = some ([type] ++ data) :=
    load_first _ (by simp)
  rw [List.append_assoc] at hload
  refine ⟨_, ?_, rfl⟩
  rw [htype, orFault_some, ok_bind, hdata, orFault_some, ok_bind, hload, orFault_some]
  rfl

theorem valBuf_ok (stack heap : Nat → Byte) (valLen : Nat) :
    ∃ buf, valBuf stack (some heap) valLen = .ok buf ∧ valLen ≤ buf.length := by
  unfold valBuf
  split
  · exact ⟨_, rfl, by simp⟩
  · exact ⟨_, rfl, by simp only [length_malloc]; omega⟩

/-- Both buffers are filled with the format of the value. -/
theorem encodeLinkVal_ok (stack heap : Nat → Byte) {val : LinkVal}
    (hval : val.Supported) :
    encodeLinkVal stack (some heap) val = .ok (linkBytes val) := by
  cases val with
  | hard oid =>
    obtain ⟨buf, hbuf, rfl⟩ := @store_type_data (malloc stack linkValBufSize)
      (encode64 oid.toNat) 0 (by simp [linkValBufSize])
    rw [length_encode64] at hbuf
    exact hbuf
  | soft target =>
    obtain ⟨buf, hbuf, hlen⟩ := valBuf_ok stack heap (target.bytes.length + 1)
    obtain ⟨buf', hstore, rfl⟩ := @store_type_data buf target.bytes 1 hlen
    simp only [encodeLinkVal, hbuf, ok_bind]
    exact hstore
  | unsupported => exact hval.elim

section Exact

variable {kv : Omap σ} {contents : σ → Key → CString → List Byte} (hkv : kv.Exact contents)
include hkv

/-- A write stores the format of the value and leaves all other keys alone. -/
theorem linkWrite_ok (s : σ) {grp : LinkGroup} (hw : grp.Writable) (name : CString)
    (stack heap : Nat → Byte) {val : LinkVal} (hval : val.Supported) :
    ∃ s', linkWrite kv s grp name val stack (some heap) = .ok s' ∧
      ∀ oid' name', contents s' oid' name' =
        if oid' = grp.oid ∧ name' = name then linkBytes val else contents s oid' name' := by
  obtain ⟨ret, s', hset, hret, hcontents⟩ := hkv.set_ok s grp.oid name (linkBytes val)
  refine ⟨s', ?_, hcontents⟩
  simp only [linkWrite, if_pos hw, encodeLinkVal_ok stack heap hval, ok_bind, hset, writeResult,
    if_neg (not_lt.mpr hret)]

/-- A read only depends on the value of the key. -/
theorem linkRead_eq (s : σ) (grp : LinkGroup) (name : CString) (heap : Option (Nat → Byte))
    (behind : List Byte) :
    linkRead kv s grp name heap behind = decodeLinkVal heap behind (contents s grp.oid name) := by
  obtain ⟨reply, hget, hret, hread, hnext, hval⟩ := hkv.get_ok s grp.oid name
  have hok : ¬ (reply.ret < 0 ∨ reply.readRet < 0 ∨ reply.nextRet < 0) := by omega
  simp only [linkRead, hget, if_neg hok, hval]

end Exact

/-! ## What is read -/

/-- The oid of a hard link. -/
theorem decodeLinkVal_hard (heap : Option (Nat → Byte)) (behind : List Byte) (oid : UInt64) :
    decodeLinkVal heap behind (linkBytes (.hard oid)) = .ok (.hard oid) := by
  have hdecode : uint64 (encode64 oid.toNat ++ []) 0 = some oid.toNat :=
    uint64_first [] oid.toNat_lt
  rw [List.append_nil] at hdecode
  simp [decodeLinkVal, linkBytes, hdecode, Except.map]

/-- The target of a soft link is as long as the one that was written, and ends at the first zero
of the memory behind the structure. -/
theorem decodeLinkVal_soft (heap : Nat → Byte) {behind : List Byte} {target : CString}
    (hbehind : target.bytes.length ≤ behind.length) :
    decodeLinkVal (some heap) behind (linkBytes (.soft target)) =
      .ok (.soft (CString.ofBuffer (behind.take target.bytes.length ++ [0]))) := by
  -- what is copied is what stands behind the caller's struct
  have hcopied : load behind 0 target.bytes.length =
      some (behind.take target.bytes.length) := by
    simp [load, ByteFile.readAt, hbehind]
  have htake : (behind.take target.bytes.length).length = target.bytes.length :=
    List.length_take_of_le hbehind
  -- it fills the allocated buffer up to the last byte, which gets the terminator
  obtain ⟨pre, last, post, hbuf, hpre, hlast, hpost⟩ : ∃ pre last post : List Byte,
      malloc heap (target.bytes.length + 1) = pre ++ (last ++ post) ∧
        pre.length = target.bytes.length ∧ last.length = 1 ∧ post.length = 0 :=
    exists_parts (by simp)
  obtain rfl := List.length_eq_zero_iff.mp hpost
  have hfirst : store (pre ++ (last ++ [])) 0 (behind.take target.bytes.length) =
      some (behind.take target.bytes.length ++ (last ++ [])) :=
    store_first _ (by rw [hpre, htake])
  have hnul : store (behind.take target.bytes.length ++ (last ++ [])) target.bytes.length [0] =
      some (behind.take target.bytes.length ++ ([0] ++ [])) := store_append htake hlast
  rw [List.append_nil] at hfirst hnul hbuf
  have hone : ¬ (1 : Byte) = 0 := by decide
  simp only [decodeLinkVal, linkBytes, if_neg hone, if_true, readSoft, mallocOrFail, ok_bind,
    hbuf, Nat.add_sub_cancel, hcopied, orFault_some, hfirst, hnul, List.append_nil]

/-- Memory that is too short is read out of its bounds. -/
theorem decodeLinkVal_short (heap : Nat → Byte) {behind : List Byte} {target : CString}
    (hbehind : behind.length < target.bytes.length) :
    decodeLinkVal (some heap) behind (linkBytes (.soft target)) = .error .fault := by
  have hcopied : load behind 0 target.bytes.length = none := if_neg (by omega)
  have hone : ¬ (1 : Byte) = 0 := by decide
  simp only [decodeLinkVal, linkBytes, if_neg hone, if_true, readSoft, mallocOrFail, ok_bind,
    Nat.add_sub_cancel, hcopied, orFault_none, error_bind]

end DTIO.Vol
