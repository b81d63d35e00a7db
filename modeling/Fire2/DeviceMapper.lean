import Fire2.Bytes
import Fire2.Volumes

/-! The buffers of a device-mapper ioctl: a header, and after it the targets of a
table, each a spec with its params. What the kernel writes has other `next` fields
than what it reads: relative to data_start, not to the spec they stand in.

Where Go slices out of range, or makes what no address space holds, it panics, and
the functions here have no value. A count, a size or an offset of 32 bits is far
from the end of an `int`, so these are naturals. -/

namespace Fire2.DeviceMapper
open Host (Fault quote nameSize targetTypeSize)

def headerSize : Nat := 312
def offVersion : Nat := 0
def offDataSize : Nat := 12
def offDataStart : Nat := 16
def offTargetCount : Nat := 20
def offName : Nat := 48

def specSize : Nat := 40
def offSpecStart : Nat := 0
def offSpecLength : Nat := 8
def offSpecNext : Nat := 20
def offSpecType : Nat := 24

structure Target where
  start : UInt64
  length : UInt64
  typ : Bytes
  params : Bytes
  deriving DecidableEq, Repr

def text (b : Bytes) : String := String.ofList (b.map fun c => Char.ofNat c.toNat)

def newRequest (o : Endian) (name : Bytes) (payloadSize : Nat) : Option (Except Fault Bytes) :=
  if nameSize ≤ name.length then
    some (.error (.new ("device name " ++ quote (text name) ++ " too long")))
  else do
    let buf := Bytes.zeros (headerSize + payloadSize)
    let buf ← o.put 4 buf offVersion 4
    let buf ← o.put 4 buf offDataSize buf.length
    let buf ← o.put 4 buf offDataStart headerSize
    let buf ← buf.copy offName (offName + nameSize) name
    return .ok buf

def align8 (n : Nat) : Nat := (n + 7) / 8 * 8

def encodeSpec (o : Endian) (t : Target) : Option Bytes := do
  let size := align8 (specSize + t.params.length + 1)
  let spec := Bytes.zeros size
  let spec ← o.put 8 spec offSpecStart t.start.toNat
  let spec ← o.put 8 spec offSpecLength t.length.toNat
  let spec ← o.put 4 spec offSpecNext size
  let spec ← spec.copy offSpecType (offSpecType + targetTypeSize) t.typ
  spec.copy specSize spec.length t.params

def encodeFrom (o : Endian) (out : Bytes) : List Target → Option (Except Fault Bytes)
  | [] => some (.ok out)
  | t :: targets =>
    if targetTypeSize ≤ t.typ.length then
      some (.error (.new ("target type " ++ quote (text t.typ) ++ " too long")))
    else do
      let spec ← encodeSpec o t
      encodeFrom o (out ++ spec) targets

def encodeTargets (o : Endian) (targets : List Target) : Option (Except Fault Bytes) :=
  encodeFrom o [] targets

/-- The request of a table load, or what a table status call answers with: the
header with the target count, and the payload. -/
def tableRequest (o : Endian) (name payload : Bytes) (count : Nat) :
    Option (Except Fault Bytes) := do
  match ← newRequest o name payload.length with
  | .error err => return .error err
  | .ok buf =>
    let buf ← buf.copy headerSize buf.length payload
    let buf ← o.put 4 buf offTargetCount count
    return .ok buf

/-- The kernel's side: the `next` fields of so many specs, from `off` on, made
relative to the first. -/
def rebase (o : Endian) : Nat → Nat → Bytes → Option Bytes
  | 0, _, payload => some payload
  | n + 1, off, payload => do
    let next ← o.get 4 payload (off + offSpecNext)
    let payload ← o.put 4 payload (off + offSpecNext) (off + next)
    rebase o n (off + next) payload

def makeTargets (count : Nat) : Option Unit := if 48 * count ≤ 2 ^ 48 then some () else none

def decodeSpec (o : Endian) (data : Bytes) (off : Nat) : Option (Target × Nat) := do
  let spec ← data.slice off data.length
  let params ← spec.slice specSize spec.length
  let start ← o.get 8 spec offSpecStart
  let length ← o.get 8 spec offSpecLength
  let typ ← spec.slice offSpecType (offSpecType + targetTypeSize)
  let next ← o.get 4 spec offSpecNext
  return (⟨.ofNat start, .ofNat length, typ.cString, params.cString⟩, next)

def decodeFrom (o : Endian) (data : Bytes) :
    Nat → Nat → List Target → Option (Except Fault (List Target))
  | 0, _, targets => some (.ok targets)
  | count + 1, off, targets =>
    if data.length < off + specSize then some (.error (.new "dm target spec out of bounds"))
    else do
      let (t, next) ← decodeSpec o data off
      decodeFrom o data count next (targets ++ [t])

def decodeTargets (o : Endian) (buf : Bytes) : Option (Except Fault (List Target)) :=
  if buf.length < headerSize then some (.error (.new "short dm ioctl buffer"))
  else do
    let count ← o.get 4 buf offTargetCount
    let dataStart ← o.get 4 buf offDataStart
    let dataSize ← o.get 4 buf offDataSize
    if buf.length < dataSize ∨ dataSize < dataStart then
      return .error (.new "dm ioctl output out of bounds")
    else
      let data ← buf.slice dataStart dataSize
      makeTargets count
      decodeFrom o data count 0 []

def Target.size (t : Target) : Nat := align8 (specSize + t.params.length + 1)

theorem align8_bounds (n : Nat) : n ≤ align8 n ∧ align8 n < n + 8 ∧ align8 n % 8 = 0 := by
  unfold align8
  omega

theorem Target.size_bounds (t : Target) :
    specSize + t.params.length + 1 ≤ t.size ∧ t.size < specSize + t.params.length + 9 ∧
    t.size % 8 = 0 := by
  have bounds := align8_bounds (specSize + t.params.length + 1)
  exact ⟨bounds.1, by have := bounds.2.1; simp only [Target.size]; omega, bounds.2.2⟩

section Encode
variable {o : Endian} {t : Target} {targets : List Target} {next : Nat}

def specHead (o : Endian) (next : Nat) (t : Target) : Bytes :=
  o.encode 8 t.start.toNat ++ (o.encode 8 t.length.toNat ++ (Bytes.zeros 4 ++ (o.encode 4 next ++
    (t.typ ++ Bytes.zeros (targetTypeSize - t.typ.length)))))

def specBytes (o : Endian) (next : Nat) (t : Target) : Bytes :=
  specHead o next t ++ (t.params ++ Bytes.zeros (t.size - specSize - t.params.length))

theorem length_specHead (short : t.typ.length < targetTypeSize) :
    (specHead o next t).length = specSize := by
  simp only [specHead, List.length_append, Endian.length_encode, Bytes.length_zeros, targetTypeSize,
    specSize] at short ⊢
  omega

theorem length_specBytes (short : t.typ.length < targetTypeSize) :
    (specBytes o next t).length = t.size := by
  have bounds := t.size_bounds
  rw [specBytes, List.length_append, length_specHead short, List.length_append, Bytes.length_zeros]
  omega

theorem encodeSpec_eq (short : t.typ.length < targetTypeSize) :
    encodeSpec o t = some (specBytes o t.size t) := by
  have bounds := t.size_bounds
  simp only [specSize, targetTypeSize] at bounds short
  have blank : Bytes.zeros t.size = Bytes.zeros 8 ++
    (Bytes.zeros 8 ++ (Bytes.zeros 4 ++ (Bytes.zeros 4 ++
      (Bytes.zeros t.typ.length ++ (Bytes.zeros (targetTypeSize - t.typ.length) ++
      (Bytes.zeros t.params.length ++ Bytes.zeros (t.size - specSize - t.params.length))))))) := by
    simp only [Bytes.zeros, List.replicate_append_replicate, specSize, targetTypeSize]
    congr 1
    omega
  have size : align8 (specSize + t.params.length + 1) = t.size := rfl
  simp only [encodeSpec, size, blank]
  simp only [Option.bind_eq_bind, specBytes, specHead, List.append_assoc, offSpecStart,
    offSpecLength, offSpecNext, offSpecType, specSize, targetTypeSize]
  simp (disch := first | simp; done | simp; omega) only [Endian.put_append_right, Endian.put_head,
    Bytes.copy_append_right, Option.bind_some, Option.map_some, Endian.length_encode,
    Bytes.length_zeros, Nat.reduceSub, Nat.reduceAdd]
  rw [Bytes.copy_head (by simp) (by omega) (by simp; omega)]
  simp only [Option.map_some, Option.bind_some, List.length_append,
    Endian.length_encode, Bytes.length_zeros]
  simp (disch := first | omega | simp; done | simp; omega) only [Bytes.copy_append_right,
    Endian.length_encode, Bytes.length_zeros, Nat.reduceSub, Nat.sub_self]
  rw [Bytes.copy_head (by simp) (by omega) (by simp)]
  rfl

theorem encodeFrom_eq (short : ∀ t ∈ targets, t.typ.length < targetTypeSize) (out : Bytes) :
    encodeFrom o out targets =
      some (.ok (out ++ targets.flatMap fun t => specBytes o t.size t)) := by
  induction targets generalizing out with
  | nil => simp [encodeFrom]
  | cons t targets ih =>
    have here := short t List.mem_cons_self
    rw [encodeFrom, if_neg (Nat.not_le.2 here), encodeSpec_eq here]
    simp [ih (fun t' mem => short t' (List.mem_cons_of_mem _ mem))]

theorem encodeTargets_eq (short : ∀ t ∈ targets, t.typ.length < targetTypeSize) :
    encodeTargets o targets = some (.ok (targets.flatMap fun t => specBytes o t.size t)) :=
  encodeFrom_eq short []

end Encode

def encodedSize (targets : List Target) : Nat := (targets.map Target.size).sum

theorem encodedSize_cons (t : Target) (targets : List Target) :
    encodedSize (t :: targets) = t.size + encodedSize targets := rfl

def statusBytes (o : Endian) : Nat → List Target → Bytes
  | _, [] => []
  | off, t :: targets => specBytes o (off + t.size) t ++ statusBytes o (off + t.size) targets

section Kernel
variable {o : Endian} {t : Target} {targets : List Target} {next n off : Nat} {pre rest : Bytes}

theorem get_next (start : pre.length = off) (small : next < 2 ^ 32) :
    o.get 4 (pre ++ (specBytes o next t ++ rest)) (off + offSpecNext) = some next := by
  subst start
  rw [Endian.get_append_right (Nat.le_add_right _ _), Nat.add_sub_cancel_left, specBytes,
    specHead, offSpecNext]
  simp only [List.append_assoc]
  simp (disch := simp) only [Endian.get_append_right, Endian.length_encode,
    Bytes.length_zeros, Nat.reduceSub, Endian.get_head]
  rw [Nat.mod_eq_of_lt (lt_of_lt_of_eq small (by decide))]

theorem put_next (start : pre.length = off) :
    o.put 4 (pre ++ (specBytes o next t ++ rest)) (off + offSpecNext) n =
      some (pre ++ (specBytes o n t ++ rest)) := by
  subst start
  rw [Endian.put_append_right (Nat.le_add_right _ _), Nat.add_sub_cancel_left, specBytes,
    specHead, offSpecNext]
  simp only [List.append_assoc]
  simp (disch := simp) only [Endian.put_append_right, Endian.length_encode,
    Bytes.length_zeros, Nat.reduceSub, Endian.put_head, Option.map_some, specBytes,
    specHead, List.append_assoc]

theorem rebase_eq (short : ∀ t ∈ targets, t.typ.length < targetTypeSize) (start : pre.length = off)
    (small : off + encodedSize targets < 2 ^ 32) :
    rebase o targets.length off (pre ++ targets.flatMap fun t => specBytes o t.size t) =
      some (pre ++ statusBytes o off targets) := by
  induction targets generalizing off pre with
  | nil => simp [rebase, statusBytes]
  | cons t targets ih =>
    rw [encodedSize_cons] at small
    have here : (specBytes o (off + t.size) t).length = t.size := length_specBytes
      (short t List.mem_cons_self)
    rw [List.length_cons, rebase, List.flatMap_cons, get_next start (by omega),
      Option.bind_eq_bind, Option.bind_some, put_next start, Option.bind_eq_bind, Option.bind_some,
      ← List.append_assoc]
    rw [ih (fun t' mem => short t' (List.mem_cons_of_mem _ mem))
      (by rw [List.length_append, start, here]) (by omega), statusBytes, List.append_assoc]

end Kernel

section Decode
variable {o : Endian} {t : Target} {targets : List Target} {next count off : Nat} {pre rest : Bytes}

theorem get_start : o.get 8 (specBytes o next t ++ rest) offSpecStart = some t.start.toNat := by
  simp only [specBytes, specHead, List.append_assoc, offSpecStart]
  rw [Endian.get_head, Nat.mod_eq_of_lt (lt_of_lt_of_eq t.start.toNat_lt (by decide))]

theorem get_length : o.get 8 (specBytes o next t ++ rest) offSpecLength = some t.length.toNat := by
  simp only [specBytes, specHead, List.append_assoc, offSpecLength]
  rw [Endian.get_append_right (by simp), Endian.length_encode, Nat.sub_self, Endian.get_head,
    Nat.mod_eq_of_lt (lt_of_lt_of_eq t.length.toNat_lt (by decide))]

theorem slice_typ (short : t.typ.length < targetTypeSize) :
    Bytes.slice (specBytes o next t ++ rest) offSpecType (offSpecType + targetTypeSize) =
      some (t.typ ++ Bytes.zeros (targetTypeSize - t.typ.length)) := by
  have fields : specBytes o next t ++
    rest = (o.encode 8 t.start.toNat ++ (o.encode 8 t.length.toNat ++
      (Bytes.zeros 4 ++ o.encode 4 next))) ++
      ((t.typ ++ Bytes.zeros (targetTypeSize - t.typ.length)) ++
        (t.params ++ (Bytes.zeros (t.size - specSize - t.params.length) ++ rest))) := by
    simp only [specBytes, specHead, List.append_assoc]
  rw [fields]
  refine Bytes.slice_field (by simp [offSpecType]) ?_
  rw [List.length_append, Bytes.length_zeros]
  omega

theorem slice_params (short : t.typ.length < targetTypeSize) :
    Bytes.slice (specBytes o next t ++ rest) specSize (specBytes o next t ++ rest).length =
      some (t.params ++ (Bytes.zeros (t.size - specSize - t.params.length) ++ rest)) := by
  rw [specBytes, List.append_assoc, List.append_assoc]
  exact Bytes.slice_rest (length_specHead short)

theorem decodeSpec_eq (short : t.typ.length < targetTypeSize)
    (plain : (0 : UInt8) ∉ t.typ ∧ (0 : UInt8) ∉ t.params)
    (start : pre.length = off) (small : next < 2 ^ 32) :
    decodeSpec o (pre ++ (specBytes o next t ++ rest)) off = some (t, next) := by
  have bounds := t.size_bounds
  have typ : Bytes.cString (t.typ ++ Bytes.zeros (targetTypeSize - t.typ.length)) = t.typ := by
    simpa using Bytes.cString_terminated plain.1 (Nat.sub_pos_of_lt short) []
  have params : Bytes.cString (t.params ++ (Bytes.zeros (t.size - specSize - t.params.length) ++
      rest)) = t.params :=
    Bytes.cString_terminated plain.2 (by omega) rest
  have next_ : o.get 4 (specBytes o next t ++ rest) offSpecNext = some next := by
    have here : o.get 4 ([] ++ (specBytes o next t ++ rest))
      (0 + offSpecNext) = some next := get_next rfl small
    simpa using here
  simp only [decodeSpec, Bytes.slice_rest start, slice_params short, get_start, get_length,
    slice_typ short, next_, Option.bind_eq_bind, Option.bind_some, Option.pure_def, typ,
    params, UInt64.ofNat_toNat]

theorem decodeFrom_eq {acc : List Target} (short : ∀ t ∈ targets, t.typ.length < targetTypeSize)
    (plain : ∀ t ∈ targets, (0 : UInt8) ∉ t.typ ∧ (0 : UInt8) ∉ t.params) (start : pre.length = off)
    (small : off + encodedSize targets < 2 ^ 32) :
    decodeFrom o (pre ++ statusBytes o off targets) targets.length off acc =
      some (.ok (acc ++ targets)) := by
  induction targets generalizing off pre acc with
  | nil => simp [decodeFrom]
  | cons t targets ih =>
    rw [encodedSize_cons] at small
    have bounds := t.size_bounds
    have here : (specBytes o (off + t.size) t).length = t.size := length_specBytes
      (short t List.mem_cons_self)
    have inside : ¬ (pre ++
      (specBytes o (off + t.size) t ++ statusBytes o (off + t.size) targets)).length <
        off + specSize := by
      simp only [List.length_append, here]
      omega
    rw [List.length_cons, decodeFrom, statusBytes, if_neg inside,
      decodeSpec_eq (short t List.mem_cons_self) (plain t List.mem_cons_self) start (by omega),
      Option.bind_eq_bind, Option.bind_some, ← List.append_assoc pre]
    dsimp only
    rw [ih (fun t' mem => short t' (List.mem_cons_of_mem _ mem))
      (fun t' mem => plain t' (List.mem_cons_of_mem _ mem))
      (by rw [List.length_append, start, here]) (by omega), List.append_assoc,
      List.singleton_append]

end Decode
/-- What a decoder reads of a buffer of so many bytes. -/
structure Headed (o : Endian) (size count : Nat) (payload buf : Bytes) : Prop where
  length : buf.length = headerSize + payload.length
  dataSize : o.get 4 buf offDataSize = some (size % 2 ^ 32)
  dataStart : o.get 4 buf offDataStart = some headerSize
  targetCount : o.get 4 buf offTargetCount = some (count % 2 ^ 32)
  data : buf.slice headerSize (headerSize + payload.length) = some payload

section Requests
variable {o : Endian} {name payload buf : Bytes} {count : Nat}

theorem newRequest_eq (fits : name.length < nameSize) (n : Nat) :
    ∃ buf, newRequest o name n = some (.ok buf) ∧
    buf.length = headerSize + n ∧ o.get 4 buf offDataSize = some ((headerSize + n) % 2 ^ 32) ∧
    o.get 4 buf offDataStart = some headerSize := by
  have long : (Bytes.zeros (headerSize + n)).length = headerSize + n := Bytes.length_zeros _
  obtain ⟨b, version, wrote, -⟩ := Endian.put_wrote o 4 offVersion
    (b := Bytes.zeros (headerSize + n)) (by rw [long, headerSize, offVersion]; omega) 4
  rw [← wrote.length] at long
  obtain ⟨c, dataSize, wrote, size⟩ := Endian.put_wrote o 4 offDataSize (b := b)
    (by rw [long, headerSize, offDataSize]; omega) b.length
  rw [long] at size
  rw [← wrote.length] at long
  obtain ⟨d, dataStart, wrote, start⟩ := Endian.put_wrote o 4 offDataStart (b := c)
    (by rw [long, headerSize, offDataStart]; omega) headerSize
  rw [← Endian.get_wrote wrote (.inl (by decide))] at size
  rw [← wrote.length] at long
  obtain ⟨buf, named, wrote, -⟩ := Bytes.copy_wrote d offName (offName + nameSize) name
    (by rw [long, headerSize, offName, nameSize]; omega) (by omega)
  rw [← Endian.get_wrote wrote (.inl (by decide))] at size start
  refine ⟨buf, ?_, wrote.length.trans long, size, start⟩
  simp only [newRequest, if_neg (Nat.not_le.2 fits), version, dataSize, dataStart, named,
    Option.bind_eq_bind, Option.bind_some, Option.pure_def]

theorem tableRequest_headed (o : Endian) (payload : Bytes) (count : Nat)
    (fits : name.length < nameSize) : ∃ buf, tableRequest o name payload count = some (.ok buf) ∧
    Headed o (headerSize + payload.length) count payload buf := by
  obtain ⟨b, request, long, size, start⟩ := newRequest_eq (o := o) fits payload.length
  obtain ⟨c, copied, wrote, data⟩ := Bytes.copy_wrote b headerSize b.length payload
    (by omega) (by omega)
  rw [← Endian.get_wrote wrote (.inl (by decide))] at size start
  rw [← wrote.length] at long
  obtain ⟨buf, counted, wrote, targets⟩ := Endian.put_wrote o 4 offTargetCount (b := c)
    (by rw [long, headerSize, offTargetCount]; omega) count
  rw [← Endian.get_wrote wrote (.inl (by decide))] at size start
  rw [← wrote.elsewhere _ _ (.inr (by decide))] at data
  refine ⟨buf, ?_, wrote.length.trans long, size, start, targets, data⟩
  simp only [tableRequest, request, copied, counted, Option.bind_eq_bind,
    Option.bind_some, Option.pure_def]

theorem decodeTargets_headed (h : Headed o (headerSize + payload.length) count payload buf)
    (fits : headerSize + payload.length < 2 ^ 32) (few : count < 2 ^ 32) :
    decodeTargets o buf = decodeFrom o payload count 0 [] := by
  have long := h.length
  have size := h.dataSize
  have counted := h.targetCount
  rw [Nat.mod_eq_of_lt fits] at size
  rw [Nat.mod_eq_of_lt few] at counted
  have room : makeTargets count = some () := if_pos (by omega)
  simp only [decodeTargets, if_neg (show ¬ buf.length < headerSize by omega), size,
    counted, h.dataStart, Option.bind_eq_bind, Option.bind_some]
  rw [if_neg (by omega)]
  simp only [h.data, room, Option.bind_some]

theorem decodeTargets_cut {size : Nat} (h : Headed o size count payload buf)
    (cut : size % 2 ^ 32 < headerSize) :
    decodeTargets o buf = some (.error (.new "dm ioctl output out of bounds")) := by
  have long := h.length
  simp only [decodeTargets, if_neg (show ¬ buf.length < headerSize by omega), h.dataSize,
    h.targetCount, h.dataStart, Option.bind_eq_bind, Option.bind_some]
  rw [if_pos (.inr cut)]
  rfl

end Requests

section RoundTrip
variable {o : Endian} {targets : List Target} {t : Target} {k : Nat}

theorem length_flatMap (short : ∀ t ∈ targets, t.typ.length < targetTypeSize) :
    (targets.flatMap fun t => specBytes o t.size t).length = encodedSize targets := by
  induction targets with
  | nil => rfl
  | cons t targets ih =>
    rw [List.flatMap_cons, List.length_append, length_specBytes (short t List.mem_cons_self),
      ih fun t' mem => short t' (List.mem_cons_of_mem _ mem), encodedSize_cons]

theorem length_statusBytes (short : ∀ t ∈ targets, t.typ.length < targetTypeSize) (off : Nat) :
    (statusBytes o off targets).length = encodedSize targets := by
  induction targets generalizing off with
  | nil => rfl
  | cons t targets ih =>
    rw [statusBytes, List.length_append, length_specBytes (short t List.mem_cons_self),
      ih fun t' mem => short t' (List.mem_cons_of_mem _ mem), encodedSize_cons]

theorem encodedSize_aligned (targets : List Target) : encodedSize targets % 8 = 0 := by
  induction targets with
  | nil => rfl
  | cons t targets ih =>
    have bounds := t.size_bounds
    rw [encodedSize_cons]
    omega

theorem length_le_encodedSize (targets : List Target) : targets.length ≤ encodedSize targets := by
  induction targets with
  | nil => exact Nat.le_refl _
  | cons t targets ih =>
    have bounds := t.size_bounds
    rw [encodedSize_cons, List.length_cons]
    omega

theorem size_le_encodedSize (mem : t ∈ targets) : t.size ≤ encodedSize targets := by
  induction targets with
  | nil => cases mem
  | cons t' targets ih =>
    rw [encodedSize_cons]
    obtain rfl | mem := List.mem_cons.1 mem
    · exact Nat.le_add_right _ _
    · exact Nat.le_add_left_of_le (ih mem)

theorem slice_ended {pre rest : Bytes} {next off : Nat} (short : t.typ.length < targetTypeSize)
    (start : pre.length = off) : Bytes.slice (pre ++ (specBytes o next t ++ rest)) (off + specSize)
      (off + specSize + t.params.length + 1) = some (t.params ++ [0]) := by
  have bounds := t.size_bounds
  obtain ⟨n, more⟩ : ∃ n, t.size - specSize - t.params.length = n + 1 :=
    Nat.exists_eq_add_one_of_ne_zero (by omega)
  have fields : pre ++ (specBytes o next t ++ rest) = (pre ++ specHead o next t) ++
    ((t.params ++ [0]) ++
      (Bytes.zeros n ++ rest)) := by
    simp [specBytes, more, Bytes.zeros, List.replicate_succ]
  rw [fields]
  refine Bytes.slice_field ?_ ?_
  · rw [List.length_append, start, length_specHead short]
  · rw [List.length_append, List.length_singleton]
    omega

/-- Where the spec of a target is, what its `next` field says, and its params with
the zero byte that ends them. -/
structure SpecAt (o : Endian) (payload : Bytes) (off : Nat) (t : Target) : Prop where
  aligned : off % 8 = 0
  next : o.get 4 payload (off + offSpecNext) = some t.size
  covers : specSize + t.params.length + 1 ≤ t.size
  params : payload.slice (off + specSize) (off + specSize + t.params.length + 1) =
    some (t.params ++ [0])

theorem encoded_specAt (short : ∀ t ∈ targets, t.typ.length < targetTypeSize)
    (small : encodedSize targets < 2 ^ 32) (found : targets[k]? = some t) :
    SpecAt o (targets.flatMap fun t => specBytes o t.size t) (encodedSize (targets.take k)) t := by
  obtain ⟨inside, here⟩ := List.getElem?_eq_some_iff.1 found
  have split : targets = targets.take k ++ t :: targets.drop (k + 1) := by
    rw [← here, List.getElem_cons_drop, List.take_append_drop]
  have bounds := t.size_bounds
  have shortHere : t.typ.length < targetTypeSize := short t (List.mem_of_getElem? found)
  have start : ((targets.take k).flatMap fun t => specBytes o t.size t).length =
      encodedSize (targets.take k) :=
    length_flatMap fun t' mem => short t' (List.mem_of_mem_take mem)
  have size : t.size < 2 ^ 32 := Nat.lt_of_le_of_lt
    (size_le_encodedSize (List.mem_of_getElem? found)) small
  have layout : (targets.flatMap fun t => specBytes o t.size t) = ((targets.take k).flatMap fun t =>
    specBytes o t.size t) ++
      (specBytes o t.size t ++ (targets.drop (k + 1)).flatMap fun t => specBytes o t.size t) := by
    conv_lhs => rw [split, List.flatMap_append, List.flatMap_cons]
  rw [layout]
  exact ⟨encodedSize_aligned _, get_next start size, bounds.1, slice_ended shortHere start⟩

/-- A table whose types fit their fields and whose types and params have no zero
byte is encoded; if header and encoding together fit in 32 bits, what the kernel
makes of it decodes to the same table. -/
theorem targets_round_trip (o : Endian) (targets : List Target)
    (short : ∀ t ∈ targets, t.typ.length < targetTypeSize)
    (plain : ∀ t ∈ targets, (0 : UInt8) ∉ t.typ ∧ (0 : UInt8) ∉ t.params)
    (fits : headerSize + encodedSize targets < 2 ^ 32) :
    ∃ payload output, encodeTargets o targets = some (.ok payload) ∧ payload.length =
      encodedSize targets ∧
      (∀ k t, targets[k]? = some t → SpecAt o payload (encodedSize (targets.take k)) t) ∧
      rebase o targets.length 0 payload = some output ∧
      ∀ name, name.length < nameSize → ∃ buf,
      tableRequest o name output targets.length = some (.ok buf) ∧
        decodeTargets o buf = some (.ok targets) := by
  have start : ([] : Bytes).length = 0 := rfl
  have rebased := rebase_eq (o := o) short start (by omega)
  refine ⟨_, _, encodeTargets_eq short, length_flatMap short, fun k t found => ?_, rebased,
    fun name named => ?_⟩
  · exact encoded_specAt short (by omega) found
  · have long : (statusBytes o 0 targets).length = encodedSize targets := length_statusBytes short 0
    have few := length_le_encodedSize targets
    obtain ⟨buf, request, headed⟩ := tableRequest_headed o
      (statusBytes o 0 targets) targets.length named
    refine ⟨buf, request, ?_⟩
    rw [decodeTargets_headed headed (by omega) (by omega)]
    have decoded : decodeFrom o ([] ++ statusBytes o 0 targets) targets.length 0 [] =
        some (.ok ([] ++ targets)) :=
      decodeFrom_eq short plain start (by omega)
    exact decoded

def someTable : List Target :=
  [⟨0, 2048, [116, 104, 105, 110], [50, 53, 51, 58, 48, 32, 49, 48, 48]⟩,
    ⟨2048, 8, [122, 101, 114, 111], []⟩]

theorem targets_round_trip_some :
    ∃ payload output buf, encodeTargets .little someTable = some (.ok payload) ∧
    payload.length = 104 ∧ rebase .little 2 0 payload = some output ∧
    tableRequest .little [100, 101, 118] output 2 = some (.ok buf) ∧
    decodeTargets .little buf = some (.ok someTable) := by
  obtain ⟨payload, output, encoded, long, -, rebased, decodes⟩ :=
    targets_round_trip .little someTable (by decide) (by decide) (by decide)
  obtain ⟨buf, request, decoded⟩ := decodes [100, 101, 118] (by decide)
  exact ⟨payload, output, buf, encoded, long, rebased, request, decoded⟩

def paddedTarget (n : Nat) : Target := ⟨0, 0, [], List.replicate n 97⟩

theorem paddedTarget_size (n : Nat) : encodedSize [paddedTarget n] = align8 (specSize + n + 1) := by
  rw [encodedSize_cons, Target.size, paddedTarget, List.length_replicate]
  rfl

theorem paddedTarget_plain (n : Nat) : (0 : UInt8) ∉ (paddedTarget n).params := fun mem =>
  nomatch (List.eq_of_mem_replicate mem)

theorem padded_refused {n : Nat}
    (cut : (headerSize + encodedSize [paddedTarget n]) % 2 ^ 32 < headerSize)
    (fits : encodedSize [paddedTarget n] < 2 ^ 32) : ∃ payload output buf,
    encodeTargets .little [paddedTarget n] = some (.ok payload) ∧ payload.length < 2 ^ 32 ∧
    rebase .little 1 0 payload = some output ∧ tableRequest .little
    [100, 101, 118] output 1 = some (.ok buf) ∧
    decodeTargets .little buf = some (.error (.new "dm ioctl output out of bounds")) := by
  have short : ∀ t ∈ [paddedTarget n], t.typ.length < targetTypeSize := fun t mem => by
    rw [List.mem_singleton.1 mem]
    exact Nat.zero_lt_succ 15
  have start : ([] : Bytes).length = 0 := rfl
  have rebased := rebase_eq (o := .little) short start (by omega)
  obtain ⟨buf, request, headed⟩ := tableRequest_headed .little
    (statusBytes .little 0 [paddedTarget n]) 1
    (show ([100, 101, 118] : Bytes).length < nameSize by decide)
  refine ⟨_, _, buf, encodeTargets_eq short, ?_, rebased, request, decodeTargets_cut headed ?_⟩
  · rw [length_flatMap short]
    exact fits
  · rw [length_statusBytes short]
    exact cut

theorem long_table_refused : ∃ n payload output buf, (paddedTarget n).typ.length < targetTypeSize ∧
    (0 : UInt8) ∉ (paddedTarget n).typ ∧ (0 : UInt8) ∉ (paddedTarget n).params ∧
    encodeTargets .little [paddedTarget n] = some (.ok payload) ∧ payload.length < 2 ^ 32 ∧
    rebase .little 1 0 payload = some output ∧ tableRequest .little
    [100, 101, 118] output 1 = some (.ok buf) ∧
    decodeTargets .little buf = some (.error (.new "dm ioctl output out of bounds")) := by
  -- an encoding that fits in 32 bits, but not together with the header
  obtain ⟨n, size⟩ : ∃ n, align8 (specSize + n + 1) = 2 ^ 32 - headerSize := ⟨4294966943, by decide⟩
  rw [← paddedTarget_size] at size
  obtain ⟨payload, output, buf, refused⟩ := padded_refused (n := n) (by rw [size]; decide)
    (by rw [size]; decide)
  exact ⟨n, payload, output, buf, Nat.zero_lt_succ 15, List.not_mem_nil,
    paddedTarget_plain n, refused⟩

end RoundTrip
/-- The target is what the spec at `off` holds, with params up to `hi` at most. -/
structure ReadAt (o : Endian) (buf : Bytes) (off hi : Nat) (t : Target) : Prop where
  start : o.get 8 buf (off + offSpecStart) = some t.start.toNat
  length : o.get 8 buf (off + offSpecLength) = some t.length.toNat
  typ : (buf.slice (off + offSpecType) (off + offSpecType + targetTypeSize)).map
    Bytes.cString = some t.typ
  params : (buf.slice (off + specSize) hi).map Bytes.cString = some t.params

section Safety
variable {o : Endian} {data : Bytes} {off : Nat}

theorem ReadAt.plain {buf : Bytes} {hi : Nat} {t : Target} (h : ReadAt o buf off hi t) :
    (0 : UInt8) ∉ t.typ ∧ (0 : UInt8) ∉ t.params := by
  obtain ⟨typ, -, eq⟩ := Option.map_eq_some_iff.1 h.typ
  obtain ⟨params, -, eq'⟩ := Option.map_eq_some_iff.1 h.params
  rw [← eq, ← eq']
  exact ⟨Bytes.zero_notMem_cString typ, Bytes.zero_notMem_cString params⟩

theorem ReadAt.of_slice {buf : Bytes} {lo hi : Nat} {t : Target}
    (sliced : buf.slice lo hi = some data) (inside : off + specSize ≤ data.length)
    (h : ReadAt o data off data.length t) : ReadAt o buf (lo + off) hi t := by
  obtain ⟨order, -, length⟩ := Bytes.slice_bounds sliced
  have whole : lo + data.length = hi := by omega
  simp only [specSize] at inside
  constructor
  · rw [← h.start, Endian.get_slice sliced (by rw [offSpecStart]; omega), Nat.add_assoc]
  · rw [← h.length, Endian.get_slice sliced (by rw [offSpecLength]; omega), Nat.add_assoc]
  · rw [← h.typ, Bytes.slice_slice sliced (by rw [offSpecType, targetTypeSize]; omega)]
    simp only [Nat.add_assoc]
  · rw [← h.params, Bytes.slice_slice sliced whole.le, whole, Nat.add_assoc]

theorem decodeSpec_safe (inside : off + specSize ≤ data.length) :
    ∃ t next, decodeSpec o data off = some (t, next) ∧ ReadAt o data off data.length t := by
  simp only [specSize] at inside
  obtain ⟨spec, sliced⟩ : ∃ spec, data.slice off data.length = some spec :=
    ⟨_, Bytes.slice_eq_some (by omega)⟩
  obtain ⟨-, -, size⟩ := Bytes.slice_bounds sliced
  obtain ⟨params, params_⟩ : ∃ params, spec.slice specSize spec.length = some params :=
    ⟨_, Bytes.slice_eq_some (by rw [specSize]; omega)⟩
  obtain ⟨start, start_, small⟩ := Endian.get_inside o 8 offSpecStart (b := spec)
    (by rw [offSpecStart]; omega)
  obtain ⟨length, length_, small'⟩ := Endian.get_inside o 8 offSpecLength (b := spec)
    (by rw [offSpecLength]; omega)
  obtain ⟨typ, typ_⟩ : ∃ typ, spec.slice offSpecType (offSpecType + targetTypeSize) = some typ :=
    ⟨_, Bytes.slice_eq_some (by rw [offSpecType, targetTypeSize]; omega)⟩
  obtain ⟨next, next_, -⟩ := Endian.get_inside o 4 offSpecNext (b := spec)
    (by rw [offSpecNext]; omega)
  have read : ReadAt o spec 0 spec.length ⟨.ofNat start, .ofNat length, typ.cString,
      params.cString⟩ := by
    constructor
    · rw [Nat.zero_add, start_, UInt64.toNat_ofNat_of_lt' small]
    · rw [Nat.zero_add, length_, UInt64.toNat_ofNat_of_lt' small']
    · rw [Nat.zero_add, typ_, Option.map_some]
    · rw [Nat.zero_add, params_, Option.map_some]
  refine ⟨_, next, ?_, .of_slice sliced (by rw [specSize]; omega) read⟩
  simp only [decodeSpec, sliced, params_, start_, length_, typ_, next_,
    Option.bind_eq_bind, Option.bind_some, Option.pure_def]

theorem decodeFrom_safe (data : Bytes) (count off : Nat) (acc : List Target) :
    ∃ r, decodeFrom o data count off acc = some r ∧
    ∀ targets, r = .ok targets → ∃ read, targets = acc ++ read ∧ read.length = count ∧
      ∀ t ∈ read, ∃ off, off + specSize ≤ data.length ∧ ReadAt o data off data.length t := by
  induction count generalizing off acc with
  | zero => exact ⟨_, rfl, fun targets eq => ⟨[], by cases eq; simp⟩⟩
  | succ count ih =>
    unfold decodeFrom
    split
    · exact ⟨_, rfl, nofun⟩
    · rename_i inside
      obtain ⟨t, next, decoded, here⟩ := decodeSpec_safe (o := o) (Nat.not_lt.1 inside)
      obtain ⟨r, rest, reads⟩ := ih next (acc ++ [t])
      refine ⟨r, by rw [decoded]; exact rest, fun targets eq => ?_⟩
      obtain ⟨read, rfl, length, all⟩ := reads targets eq
      refine ⟨t :: read, by simp, by rw [List.length_cons, length], fun t' mem => ?_⟩
      obtain rfl | mem := List.mem_cons.1 mem
      · exact ⟨off, Nat.not_lt.1 inside, here⟩
      · exact all t' mem

/-- On any bytes no slice is out of range; what is returned without an error are as
many targets as the header says, each from a full spec between data_start and
data_size, its type and params without a zero byte. -/
theorem decodeTargets_safe (o : Endian) (buf : Bytes) :
    ∃ r, decodeTargets o buf = some r ∧ ∀ targets, r = .ok targets →
    ∃ count dataStart dataSize, o.get 4 buf offTargetCount = some count ∧
      o.get 4 buf offDataStart = some dataStart ∧ o.get 4 buf offDataSize = some dataSize ∧
      dataStart ≤ dataSize ∧ dataSize ≤ buf.length ∧ targets.length = count ∧
      ∀ t ∈ targets, ((0 : UInt8) ∉ t.typ ∧ (0 : UInt8) ∉ t.params) ∧
        ∃ off, dataStart ≤ off ∧ off + specSize ≤ dataSize ∧ ReadAt o buf off dataSize t := by
  unfold decodeTargets
  split
  · exact ⟨_, rfl, nofun⟩
  rename_i long
  simp only [headerSize] at long
  obtain ⟨count, count_, few⟩ := Endian.get_inside o 4 offTargetCount (b := buf)
    (by rw [offTargetCount]; omega)
  obtain ⟨dataStart, start_, -⟩ := Endian.get_inside o 4 offDataStart (b := buf)
    (by rw [offDataStart]; omega)
  obtain ⟨dataSize, size_, -⟩ := Endian.get_inside o 4 offDataSize (b := buf)
    (by rw [offDataSize]; omega)
  simp only [count_, start_, size_, Option.bind_eq_bind, Option.bind_some]
  split
  · exact ⟨_, rfl, nofun⟩
  rename_i inside
  obtain ⟨data, data_⟩ : ∃ data, buf.slice dataStart dataSize = some data :=
    ⟨_, Bytes.slice_eq_some (by omega)⟩
  have room : makeTargets count = some () := if_pos (by omega)
  obtain ⟨r, decoded, reads⟩ := decodeFrom_safe (o := o) data count 0 []
  simp only [data_, room, Option.bind_some]
  refine ⟨r, decoded, fun targets eq => ?_⟩
  obtain ⟨read, same, length, all⟩ := reads targets eq
  rw [List.nil_append] at same
  subst same
  refine ⟨count, dataStart, dataSize, rfl, rfl, rfl, by omega, by omega, length, fun t mem => ?_⟩
  obtain ⟨off, fits, here⟩ := all t mem
  have size := (Bytes.slice_bounds data_).2.2
  exact ⟨here.plain, dataStart + off, Nat.le_add_right _ _, by omega, here.of_slice data_ fits⟩

end Safety
end Fire2.DeviceMapper
