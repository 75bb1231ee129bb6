import DTIO.Posix.State

/-!
# Tasks of the DTIO Module

The task records of `dtiomod_tasks.h` and their transfer between nodes.  A task that runs on
another node is written to an archive by `SerializeStart`, read into a fresh task there, and
on return its results travel back through `SerializeEnd`.  Each serializer is one template
that both directions instantiate, so here it is one list of fields that `save` reads and
`load` assigns, in order.
-/

namespace DTIO.Chimod

open DTIO.Posix

/-- `enum class IoClientType`. -/
inductive IoClientType where
  | kStdio
  | kPosix
  | kHdf5
  | kUring
  | kMulti
  deriving DecidableEq, Repr

/-! ## Task records -/

/-- The fields `WriteTask` and `ReadTask` have in common.  `data` is the memory the
`hipc::Pointer data_` points at; `data_size_` and `data_offset_` are `size_t`. -/
structure IoTask where
  data : List Byte
  dataOffset : Nat
  dataSize : Nat
  filename : PathStr
  iface : IoClientType
  deriving DecidableEq, Repr

abbrev WriteTask := IoTask
abbrev ReadTask := IoTask

structure MetaPutTask where
  key : List Char
  val : List Char
  deriving DecidableEq, Repr

structure MetaGetTask where
  key : List Char
  val : List Char
  presence : Bool
  deriving DecidableEq, Repr

structure ScheduleTask where
  scheduleNum : Nat
  deriving DecidableEq, Repr

/-! ## Archives -/

/-- What an archive holds: strings, numbers, flags, and bulk data. -/
inductive Item where
  | str (s : List Char)
  | num (n : Nat)
  | flag (b : Bool)
  | iface (i : IoClientType)
  | bulk (bytes : List Byte)
  deriving DecidableEq, Repr

/-- One argument of `ar(...)` or one `ar.bulk(...)`: what is saved, and how the receiver
assigns it. -/
structure Field (T : Type) where
  get : T → Item
  set : T → Item → T

/-- `ar << task`. -/
def save {T : Type} (fields : List (Field T)) (t : T) : List Item :=
  fields.map fun f => f.get t

/-- `ar >> task`: the fields are assigned in the order in which they were saved. -/
def load {T : Type} (fields : List (Field T)) (ar : List Item) (t : T) : T :=
  (fields.zip ar).foldl (fun t fi => fi.1.set t fi.2) t

@[simp] theorem load_nil {T : Type} (ar : List Item) (t : T) : load [] ar t = t := rfl

@[simp] theorem load_cons {T : Type} (f : Field T) (fs : List (Field T)) (i : Item)
    (ar : List Item) (t : T) : load (f :: fs) (i :: ar) t = load fs ar (f.set t i) := rfl

/-- `ar(member)` for a string member. -/
def strField {T : Type} (get : T → List Char) (set : T → List Char → T) : Field T :=
  ⟨fun t => .str (get t), fun t i => match i with | .str s => set t s | _ => t⟩

/-- `ar(member)` for an integer member. -/
def numField {T : Type} (get : T → Nat) (set : T → Nat → T) : Field T :=
  ⟨fun t => .num (get t), fun t i => match i with | .num n => set t n | _ => t⟩

/-- `ar(member)` for a `bool` member. -/
def flagField {T : Type} (get : T → Bool) (set : T → Bool → T) : Field T :=
  ⟨fun t => .flag (get t), fun t i => match i with | .flag b => set t b | _ => t⟩

namespace IoTask

/-- `ar.bulk(DT_WRITE, data_, data_size_)`: the receiver gets a buffer with the sender's
first `data_size_` bytes. -/
def bulkField : Field IoTask :=
  ⟨fun t => .bulk (t.data.take t.dataSize),
   fun t i => match i with | .bulk bytes => { t with data := bytes } | _ => t⟩

def filenameField : Field IoTask := strField (·.filename) fun t s => { t with filename := s }
def dataSizeField : Field IoTask := numField (·.dataSize) fun t n => { t with dataSize := n }
def dataOffsetField : Field IoTask := numField (·.dataOffset) fun t n => { t with dataOffset := n }

def ifaceField : Field IoTask :=
  ⟨fun t => .iface t.iface,
   fun t i => match i with | .iface f => { t with iface := f } | _ => t⟩

end IoTask

/-- `WriteTask::SerializeStart`: the bulk data, then
`ar(filename_, data_size_, data_offset_, iface_)`. -/
def WriteTask.serializeStart : List (Field WriteTask) :=
  [IoTask.bulkField, IoTask.filenameField, IoTask.dataSizeField, IoTask.dataOffsetField,
    IoTask.ifaceField]

def WriteTask.serializeEnd : List (Field WriteTask) := []

/-- `ReadTask::SerializeStart` has the same body. -/
def ReadTask.serializeStart : List (Field ReadTask) :=
  [IoTask.bulkField, IoTask.filenameField, IoTask.dataSizeField, IoTask.dataOffsetField,
    IoTask.ifaceField]

/-- `ReadTask::SerializeEnd` transfers nothing. -/
def ReadTask.serializeEnd : List (Field ReadTask) := []

def MetaPutTask.serializeStart : List (Field MetaPutTask) :=
  [strField (·.key) fun t s => { t with key := s }, strField (·.val) fun t s => { t with val := s }]

def MetaPutTask.serializeEnd : List (Field MetaPutTask) := []

def MetaGetTask.serializeStart : List (Field MetaGetTask) :=
  [strField (·.key) fun t s => { t with key := s }]

def MetaGetTask.serializeEnd : List (Field MetaGetTask) :=
  [strField (·.val) fun t s => { t with val := s },
    flagField (·.presence) fun t b => { t with presence := b }]

def ScheduleTask.serializeStart : List (Field ScheduleTask) := []

def ScheduleTask.serializeEnd : List (Field ScheduleTask) :=
  [numField (·.scheduleNum) fun t n => { t with scheduleNum := n }]

end DTIO.Chimod
