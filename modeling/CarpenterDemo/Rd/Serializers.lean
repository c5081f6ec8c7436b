import CarpenterDemo.Rd.Buffer
import CarpenterDemo.Rd.Identities

/-!
# `Serializers`: values of abstract types

A value whose declared type is abstract is written with the id of its own type and with its size, so
that a reader can skip it that does not know the type.  Of such a value the reader keeps the fields
of the abstract type and the id: the constructor of the generated `_Unknown` type drops the bytes.

* `skips_unknown`: what is read is what was written, with an unknown value in the place of each one
  whose type the reader does not know.
* `echo_read`: the side that has written a message can read it when it comes back exactly if the
  other side has known all the types in it.

A class inherits from one abstract type at most, and `fuel` bounds the depth of a message.  An
`FString`, which holds no NUL, is a wide string.  The default declaration is left out: no field has
it as its type.
-/

namespace CarpenterDemo.Rd

open Bytes

/-- `getPlatformIndependentHash` of a name in ASCII. -/
def getPlatformIndependentHash (that : String) : BitVec 64 :=
  that.toList.foldl (fun hash c => hash * 31 + BitVec.ofNat 64 c.toNat) 19

def stringPredefinedId : RdId := 10

/-- An abstract type of the protocol's model, with the fields that its subtypes inherit. -/
structure Abstract where
  name : String
  base : Ty
  deriving DecidableEq, Repr

def Abstract.unknownName (self : Abstract) : String := self.name ++ "_Unknown"

inductive FieldTy
  | plain (ty : Ty)
  | polymorphic (declared : Abstract)
  deriving DecidableEq, Repr

mutual

inductive Value
  /-- An instance of a class: the fields that it inherits, then its own. -/
  | object (typeName : String) (parent : Abstract) (base : parent.base.denote) (fields : Fields)
  | unknown (parent : Abstract) (base : parent.base.denote) (unknownId : RdId)
  | string (value : List (BitVec (8 * 2)))
  /-- What a failed cast leaves. -/
  | null

inductive Fields
  | nil
  | plain (ty : Ty) (value : ty.denote) (rest : Fields)
  | polymorphic (declared : Abstract) (value : Value) (rest : Fields)

end

/-! ## Writing -/

def Buffer.writeRdId (self : Buffer) (id : RdId) : Buffer := self.writeIntegral (n := 8) id

/-- A position is kept in 32 bits. -/
def Buffer.position (self : Buffer) : BitVec 32 := BitVec.ofNat 32 self.offset

def writePolymorphicNullable (realRdId : RdId) (realWrite : Buffer → Buffer) (buffer : Buffer) :
    Buffer :=
  let buffer := buffer.writeRdId realRdId
  let lengthTagPosition := buffer.position
  let buffer := buffer.writeIntegral (0 : BitVec (8 * 4))
  let objectStartPosition := buffer.position
  let buffer := realWrite buffer
  let objectEndPosition := buffer.position
  let buffer := buffer.setPosition (lengthTagPosition.signExtend 64).toNat
  let buffer := buffer.writeIntegral (n := 4) (objectEndPosition - objectStartPosition)
  buffer.setPosition (objectEndPosition.signExtend 64).toNat

mutual

def Value.write : Value → Buffer → Buffer
  | .object typeName parent base fields =>
    writePolymorphicNullable (getPlatformIndependentHash typeName) fun buffer =>
      fields.write (parent.base.write base buffer)
  | .unknown parent base _ =>
    writePolymorphicNullable (getPlatformIndependentHash parent.unknownName)
      (parent.base.write base)
  | .string value => writePolymorphicNullable stringPredefinedId fun buffer =>
      buffer.writeWstring value
  | .null => id

def Fields.write : Fields → Buffer → Buffer
  | .nil => id
  | .plain ty value rest => fun buffer => rest.write (ty.write value buffer)
  | .polymorphic _ value rest => fun buffer => rest.write (value.write buffer)

end

/-! ## Reading -/

/-- What `Serializers::registry` is called for, and the reader for strings. -/
inductive Entry
  | string
  | concrete (typeName : String) (parent : Abstract) (fields : List FieldTy)
  | unknown (declared : Abstract)
  deriving DecidableEq, Repr

def Entry.id : Entry → RdId
  | .string => stringPredefinedId
  | .concrete typeName _ _ => getPlatformIndependentHash typeName
  | .unknown declared => getPlatformIndependentHash declared.unknownName

/-- The readers, the last registered one first. -/
structure Serializers where
  readers : List Entry := [.string]
  deriving DecidableEq, Repr

def Serializers.registry (self : Serializers) (entry : Entry) : Serializers :=
  { readers := entry :: self.readers }

def Serializers.find (self : Serializers) (id : RdId) : Option Entry :=
  self.readers.find? fun entry => entry.id = id

def readRdId : Reader RdId := Buffer.readIntegral 8

/-- `check_available` of a size of 32 bits.  The sum with a negative one wraps around. -/
def Buffer.checkSize (self : Buffer) (size : BitVec 32) : Except String Unit :=
  if size.toInt < 0 ∧ size.toInt.natAbs ≤ self.offset then .ok ()
  else self.checkAvailable (size.signExtend 64).toNat

/-- The bytes after the inherited fields are read and dropped. -/
def Abstract.readUnknownInstance (self : Abstract) (unknownId : RdId) (size : BitVec 32) :
    Reader Value := fun buffer => do
  let objectStartPosition := buffer.position
  let (base, buffer) ← self.base.read buffer
  let length := (objectStartPosition + size).signExtend 64 - BitVec.ofNat 64 buffer.offset
  if 2 ^ 63 ≤ length.toNat then .error "vector too long"
  else
    let (_, buffer) ← buffer.read length.toNat
    return (.unknown self base unknownId, buffer)

/-- The fields of a class, one after the other. -/
def readFields (readPolymorphic : Abstract → Reader Value) : List FieldTy → Reader Fields
  | [] => fun buffer => return (.nil, buffer)
  | .plain ty :: layout => fun buffer => do
    let (value, buffer) ← ty.read buffer
    let (rest, buffer) ← readFields readPolymorphic layout buffer
    return (.plain ty value rest, buffer)
  | .polymorphic declared :: layout => fun buffer => do
    let (value, buffer) ← readPolymorphic declared buffer
    let (rest, buffer) ← readFields readPolymorphic layout buffer
    return (.polymorphic declared value rest, buffer)

def Entry.read (readPolymorphic : Abstract → Reader Value) : Entry → Reader Value
  | .string => fun buffer => do
    let (value, buffer) ← Buffer.readWstring buffer
    return (.string value, buffer)
  | .concrete typeName parent layout => fun buffer => do
    let (base, buffer) ← parent.base.read buffer
    let (fields, buffer) ← readFields readPolymorphic layout buffer
    return (.object typeName parent base fields, buffer)
  | .unknown _ => fun _ => .error "Unknown instances should not be read via serializer"

/-- `any::get`. -/
def Value.dynamic (declared : Abstract) : Value → Except String Value
  | .object typeName parent base fields =>
    .ok (if parent = declared then .object typeName parent base fields else .null)
  | .unknown parent base unknownId =>
    .ok (if parent = declared then .unknown parent base unknownId else .null)
  | .string _ => .error "bad_variant_access"
  | .null => .ok .null

namespace Serializers

variable (self : Serializers)

/-- `readAny`, after the id and the size have been read. -/
def readInstance (readPolymorphic : Abstract → Reader Value) (declared : Abstract) (id : RdId)
    (size : BitVec 32) : Reader Value :=
  match self.find id with
  | none => declared.readUnknownInstance id size
  | some entry => entry.read readPolymorphic

def readAny (readPolymorphic : Abstract → Reader Value) (declared : Abstract) :
    Reader (Option Value) := fun buffer => do
  let (id, buffer) ← readRdId buffer
  if id = 0 then return (none, buffer)
  else
    let (size, buffer) ← Buffer.readIntegral 4 buffer
    buffer.checkSize size
    let (value, buffer) ← self.readInstance readPolymorphic declared id size buffer
    return (some value, buffer)

/-- The source goes on with an empty optional when there is no value. -/
def readPolymorphicNullable : ℕ → Abstract → Reader Value
  | 0, _ => fun _ => .error "out of fuel"
  | fuel + 1, declared => fun buffer => do
    let (any, buffer) ← self.readAny (readPolymorphicNullable fuel) declared buffer
    match any with
    | none => .error "no value"
    | some value =>
      let value ← value.dynamic declared
      return (value, buffer)

def readFields (fuel : ℕ) (layout : List FieldTy) : Reader Fields :=
  Rd.readFields (self.readPolymorphicNullable fuel) layout

end Serializers

/-! ## The format -/

/-- Positions have to stay below this one. -/
abbrev positionLimit : Option ℕ := some (2 ^ 31)

/-- The id, the size and the value itself. -/
def envelope (id : RdId) (payload : List UInt8) : List UInt8 :=
  ofWord (n := 8) id ++ (ofWord (BitVec.ofNat (8 * 4) payload.length) ++ payload)

theorem length_envelope (id : RdId) (payload : List UInt8) :
    (envelope id payload).length = 12 + payload.length := by
  rw [envelope, List.length_append, List.length_append, length_ofWord, length_ofWord]
  omega

theorem toNat_position {n : ℕ} (small : n < 2 ^ 31) :
    ((BitVec.ofNat 32 n).signExtend 64).toNat = n := by
  rw [BitVec.signExtend_eq_setWidth_of_msb_false]
  · rw [BitVec.toNat_setWidth, BitVec.toNat_ofNat]
    omega
  · rw [BitVec.msb_eq_decide, BitVec.toNat_ofNat]
    apply decide_eq_false
    omega

section Envelope

variable {payload : List UInt8}

theorem appends_writePolymorphicNullable {realWrite : Buffer → Buffer}
    (h : Appends positionLimit realWrite payload) (id : RdId) :
    Appends positionLimit (writePolymorphicNullable id realWrite) (envelope id payload) := by
  intro b valid room
  have small := room _ rfl
  rw [length_envelope] at small
  obtain ⟨valid₁, written₁⟩ := Buffer.write_spec valid (ofWord (n := 8) id)
  obtain ⟨valid₂, written₂⟩ := Buffer.write_spec valid₁ (ofWord (0 : BitVec (8 * 4)))
  have offset₁ := Buffer.length_written valid₁
  rw [written₁, List.length_append, Buffer.length_written valid, length_ofWord] at offset₁
  have offset₂ := Buffer.length_written valid₂
  rw [written₂, List.length_append, Buffer.length_written valid₁, length_ofWord] at offset₂
  obtain ⟨valid₃, written₃⟩ := h _ valid₂ (room_some (by omega))
  have offset₃ := Buffer.length_written valid₃
  rw [written₃, List.length_append, Buffer.length_written valid₂] at offset₃
  simp only [writePolymorphicNullable, Buffer.writeRdId, Buffer.writeIntegral, Buffer.position]
  generalize (b.write (ofWord (n := 8) id)).write (ofWord (0 : BitVec (8 * 4))) = b₂ at *
  generalize b.write (ofWord (n := 8) id) = b₁ at *
  generalize realWrite b₂ = b₃ at *
  have size : BitVec.ofNat 32 b₃.offset - BitVec.ofNat 32 b₂.offset =
      BitVec.ofNat 32 payload.length := by
    rw [← offset₃, BitVec.ofNat_add, BitVec.add_comm, BitVec.add_sub_cancel]
  have before : b₁.offset = b₁.written.length := (Buffer.length_written valid₁).symm
  rw [toNat_position (by omega), toNat_position (by omega), size, before]
  rw [written₂] at written₃
  have same : (ofWord (n := 4) (BitVec.ofNat 32 payload.length)).length =
      (ofWord (0 : BitVec (8 * 4))).length := by
    rw [length_ofWord, length_ofWord]
  obtain ⟨valid₄, written₄⟩ := Buffer.overwrite_spec valid₃ written₃ same (List.cons_ne_nil _ _)
  refine ⟨valid₄, written₄.trans ?_⟩
  rw [written₁, envelope, List.append_assoc, List.append_assoc]

theorem Buffer.checkSize_of_unread {buffer : Buffer} {rest : List UInt8} (valid : buffer.Valid)
    (small : payload.length < 2 ^ 31) (h : buffer.unread = payload ++ rest) :
    buffer.checkSize (BitVec.ofNat 32 payload.length) = .ok () := by
  have signed : ¬ (BitVec.ofNat 32 payload.length).toInt < 0 := by
    rw [BitVec.toInt_eq_toNat_cond, BitVec.toNat_ofNat]
    split_ifs <;> omega
  have length := congrArg List.length h
  rw [Buffer.unread, List.length_drop, List.length_append] at length
  unfold Buffer.Valid at valid
  rw [Buffer.checkSize, if_neg fun h => signed h.1, toNat_position small, Buffer.checkAvailable,
    if_neg]
  rw [Buffer.size]
  omega

theorem Buffer.checkSize_error {buffer : Buffer} (small : payload.length < 2 ^ 31)
    (h : buffer.unread.length < payload.length) :
    ∃ e, buffer.checkSize (BitVec.ofNat 32 payload.length) = .error e := by
  have signed : ¬ (BitVec.ofNat 32 payload.length).toInt < 0 := by
    rw [BitVec.toInt_eq_toNat_cond, BitVec.toNat_ofNat]
    split_ifs <;> omega
  rw [Buffer.unread, List.length_drop] at h
  rw [Buffer.checkSize, if_neg fun h => signed h.1, toNat_position small, Buffer.checkAvailable,
    if_pos]
  · exact ⟨_, rfl⟩
  · rw [Buffer.size]
    omega

/-- An instance of a type that the reader does not know. -/
theorem gives_readUnknownInstance {declared : Abstract} {base : declared.base.denote}
    (fits : declared.base.Fits base) (id : RdId) (dropped : List UInt8)
    (same : payload = declared.base.bytes base ++ dropped) :
    Gives positionLimit (declared.readUnknownInstance id (BitVec.ofNat 32 payload.length))
      (.ok (.unknown declared base id)) payload := by
  intro b rest valid room unread
  have small := room _ rfl
  have total : payload.length = (declared.base.bytes base).length + dropped.length := by
    rw [same, List.length_append]
  rw [same, List.append_assoc] at unread
  obtain ⟨-, unread'⟩ := Buffer.skip_spec valid unread
  have first : declared.base.read b = .ok (base, b.skip (declared.base.bytes base).length) :=
    (declared.base.codes base fits).gives b _ valid (room.mono (by omega)) unread
  let length := (b.position + BitVec.ofNat 32 payload.length).signExtend 64 -
    BitVec.ofNat 64 (b.offset + (declared.base.bytes base).length)
  have left : length.toNat = dropped.length := by
    rw [BitVec.toNat_sub, Buffer.position, ← BitVec.ofNat_add, toNat_position small,
      BitVec.toNat_ofNat]
    omega
  simp only [Abstract.readUnknownInstance]
  rw [first]
  show (if 2 ^ 63 ≤ length.toNat then Except.error "vector too long"
    else (b.skip _).read length.toNat >>= fun (_, buffer) =>
      Except.ok (Value.unknown declared base id, buffer)) = _
  rw [left, if_neg (by omega), Buffer.read_spec unread', total, ← Buffer.skip_skip]
  rfl

section ReadAny

variable {self : Serializers} {readPolymorphic : Abstract → Reader Value} {declared : Abstract}
  {id : RdId}

theorem gives_readAny {value : Except String Value} (notNull : id ≠ 0)
    (inner : Gives positionLimit
      (self.readInstance readPolymorphic declared id (BitVec.ofNat 32 payload.length)) value
      payload) :
    Gives positionLimit (self.readAny readPolymorphic declared) (value.map some)
      (envelope id payload) := by
  intro b rest valid room unread
  have small := room _ rfl
  have total := length_envelope id payload
  rw [envelope, List.append_assoc, List.append_assoc] at unread
  obtain ⟨valid₁, unread₁⟩ := Buffer.skip_spec valid unread
  obtain ⟨valid₂, unread₂⟩ := Buffer.skip_spec valid₁ unread₁
  have first : readRdId b = .ok (id, b.skip 8) := by
    have h := (Codes.integral (n := 8) id).gives b _ valid (room_none _) unread
    rw [length_ofWord] at h
    exact h
  rw [length_ofWord] at valid₁ unread₁ valid₂ unread₂
  have second : Buffer.readIntegral 4 (b.skip 8) =
      .ok (BitVec.ofNat 32 payload.length, (b.skip 8).skip 4) := by
    have h := (Codes.integral (BitVec.ofNat (8 * 4) payload.length)).gives (b.skip 8) _ valid₁
      (room_none _) unread₁
    rw [length_ofWord] at h
    exact h
  rw [length_ofWord] at valid₂ unread₂
  have checked := Buffer.checkSize_of_unread valid₂ (by omega) unread₂
  have third := inner _ rest valid₂ (room.mono (by
    show b.offset + 8 + 4 + payload.length ≤ _
    omega)) unread₂
  simp only [Serializers.readAny]
  rw [first]
  show (if id = 0 then _ else _) = _
  rw [if_neg notNull, second]
  show (((b.skip 8).skip 4).checkSize _ >>= _) = _
  rw [checked]
  show (self.readInstance readPolymorphic declared id (BitVec.ofNat 32 payload.length)
    ((b.skip 8).skip 4) >>= _) = _
  rw [third, total]
  cases value with
  | error e => rfl
  | ok value =>
    rw [← Buffer.skip_skip]
    rfl

theorem truncates_readAny (notNull : id ≠ 0) (small : payload.length < 2 ^ 31) :
    Truncates positionLimit (self.readAny readPolymorphic declared) (envelope id payload) := by
  let readSized : BitVec (8 * 4) → Reader (Option Value) := fun size buffer => do
    buffer.checkSize size
    let (value, buffer) ← self.readInstance readPolymorphic declared id size buffer
    return (some value, buffer)
  have sized : Truncates positionLimit (readSized (BitVec.ofNat (8 * 4) payload.length))
      payload := by
    intro b _ _ short other
    have shorter := Lists.length_lt_of_prefix short other
    obtain ⟨e, fails⟩ := Buffer.checkSize_error small shorter
    refine ⟨e, ?_⟩
    show (b.checkSize _ >>= _) = _
    rw [fails]
    rfl
  let readTyped : RdId → Reader (Option Value) := fun id buffer => do
    if id = 0 then return (none, buffer)
    else
      let (size, buffer) ← Buffer.readIntegral 4 buffer
      buffer.checkSize size
      let (value, buffer) ← self.readInstance readPolymorphic declared id size buffer
      return (some value, buffer)
  have typed : Truncates positionLimit (readTyped id)
      (ofWord (BitVec.ofNat (8 * 4) payload.length) ++ payload) := by
    have size : Codes positionLimit _ _ _ _ :=
      Codes.integral (BitVec.ofNat (8 * 4) payload.length)
    have h : Truncates positionLimit _ _ := .bind size.gives size.truncates readSized sized
    intro b valid room short other
    obtain ⟨e, fails⟩ := h b valid room short other
    refine ⟨e, ?_⟩
    simp only [readTyped, if_neg notNull]
    exact fails
  have typeId : Codes positionLimit _ _ _ _ := Codes.integral (n := 8) id
  exact .bind typeId.gives typeId.truncates readTyped typed

/-- What is read is also what is returned, if it is of the declared type. -/
theorem gives_readPolymorphicNullable {fuel : ℕ} {value : Except String Value} (notNull : id ≠ 0)
    (inner : Gives positionLimit (self.readInstance (self.readPolymorphicNullable fuel) declared id
      (BitVec.ofNat 32 payload.length)) value payload)
    (cast : ∀ v, value = .ok v → v.dynamic declared = .ok v) :
    Gives positionLimit (self.readPolymorphicNullable (fuel + 1) declared) value
      (envelope id payload) := by
  intro b rest valid room unread
  simp only [Serializers.readPolymorphicNullable]
  rw [gives_readAny notNull inner b rest valid room unread]
  cases value with
  | error e => rfl
  | ok value =>
    show (value.dynamic declared >>= _) = _
    rw [cast value rfl]
    rfl

theorem truncates_readPolymorphicNullable {fuel : ℕ} (notNull : id ≠ 0)
    (small : payload.length < 2 ^ 31) :
    Truncates positionLimit (self.readPolymorphicNullable (fuel + 1) declared)
      (envelope id payload) := by
  intro b valid room short other
  obtain ⟨e, fails⟩ := truncates_readAny notNull small b valid room short other
  refine ⟨e, ?_⟩
  simp only [Serializers.readPolymorphicNullable]
  rw [fails]
  rfl

end ReadAny

end Envelope

section Fields

variable {readPolymorphic : Abstract → Reader Value} {layout : List FieldTy}
  {bytes bytes' : List UInt8} {rest : Except String Fields}

theorem gives_plain {ty : Ty} {value : ty.denote} (fits : ty.Fits value)
    (h : Gives positionLimit (readFields readPolymorphic layout) rest bytes) :
    Gives positionLimit (readFields readPolymorphic (.plain ty :: layout))
      (rest.map (.plain ty value)) (ty.bytes value ++ bytes) :=
  (ty.codes value fits).gives.bind
    (fun value buffer => readFields readPolymorphic layout buffer >>= fun (rest, buffer) =>
      Except.ok (Fields.plain ty value rest, buffer)) (h.map (Fields.plain ty value))

theorem gives_polymorphic {declared : Abstract} {value : Value}
    (first : Gives positionLimit (readPolymorphic declared) (.ok value) bytes)
    (h : Gives positionLimit (readFields readPolymorphic layout) rest bytes') :
    Gives positionLimit (readFields readPolymorphic (.polymorphic declared :: layout))
      (rest.map (.polymorphic declared value)) (bytes ++ bytes') :=
  first.bind
    (fun value buffer => readFields readPolymorphic layout buffer >>= fun (rest, buffer) =>
      Except.ok (Fields.polymorphic declared value rest, buffer))
    (h.map (Fields.polymorphic declared value))

theorem gives_polymorphic_error {declared : Abstract} {e : String}
    (first : Gives positionLimit (readPolymorphic declared) (.error e) bytes) :
    Gives positionLimit (readFields readPolymorphic (.polymorphic declared :: layout)) (.error e)
      (bytes ++ bytes') :=
  first.bind_error
    (fun value buffer => readFields readPolymorphic layout buffer >>= fun (rest, buffer) =>
      Except.ok (Fields.polymorphic declared value rest, buffer)) bytes'

theorem gives_concrete (typeName : String) {parent : Abstract} {base : parent.base.denote}
    (fits : parent.base.Fits base)
    (h : Gives positionLimit (readFields readPolymorphic layout) rest bytes) :
    Gives positionLimit ((Entry.concrete typeName parent layout).read readPolymorphic)
      (rest.map (.object typeName parent base)) (parent.base.bytes base ++ bytes) :=
  (parent.base.codes base fits).gives.bind
    (fun base buffer => readFields readPolymorphic layout buffer >>= fun (fields, buffer) =>
      Except.ok (Value.object typeName parent base fields, buffer))
    (h.map (Value.object typeName parent base))

end Fields

/-! ## Messages -/

mutual

def Value.bytes : Value → List UInt8
  | .object typeName parent base fields =>
    envelope (getPlatformIndependentHash typeName) (parent.base.bytes base ++ fields.bytes)
  | .unknown parent base _ =>
    envelope (getPlatformIndependentHash parent.unknownName) (parent.base.bytes base)
  | .string value => envelope stringPredefinedId (Codes.podArrayBytes value)
  | .null => []

def Fields.bytes : Fields → List UInt8
  | .nil => []
  | .plain ty value rest => ty.bytes value ++ rest.bytes
  | .polymorphic _ value rest => value.bytes ++ rest.bytes

end

mutual

def Value.depth : Value → ℕ
  | .object _ _ _ fields => fields.depth + 1
  | _ => 1

def Fields.depth : Fields → ℕ
  | .nil => 0
  | .plain _ _ rest => rest.depth
  | .polymorphic _ value rest => max value.depth rest.depth

end

def Fields.layout : Fields → List FieldTy
  | .nil => []
  | .plain ty _ rest => .plain ty :: rest.layout
  | .polymorphic declared _ rest => .polymorphic declared :: rest.layout

mutual

/-- A value of the declared type, with fields that fit. -/
def Value.WellFormed (declared : Abstract) : Value → Prop
  | .object _ parent base fields =>
    parent = declared ∧ parent.base.Fits base ∧ fields.WellFormed
  | .unknown parent base _ => parent = declared ∧ parent.base.Fits base
  | _ => False

def Fields.WellFormed : Fields → Prop
  | .nil => True
  | .plain ty value rest => ty.Fits value ∧ rest.WellFormed
  | .polymorphic declared value rest => value.WellFormed declared ∧ rest.WellFormed

end

mutual

/-- The reader does not know a type or has the same fields for it.  Nothing is an unknown value. -/
def Value.AgreesWith (reader : Serializers) : Value → Prop
  | .object typeName parent _ fields =>
    getPlatformIndependentHash typeName ≠ 0 ∧
    (reader.find (getPlatformIndependentHash typeName) = none ∨
      reader.find (getPlatformIndependentHash typeName) =
        some (.concrete typeName parent fields.layout)) ∧
    fields.AgreesWith reader
  | _ => False

def Fields.AgreesWith (reader : Serializers) : Fields → Prop
  | .nil => True
  | .plain _ _ rest => rest.AgreesWith reader
  | .polymorphic _ value rest => value.AgreesWith reader ∧ rest.AgreesWith reader

end

mutual

/-- What a reader makes of a value. -/
def Value.seenBy (reader : Serializers) : Value → Value
  | .object typeName parent base fields =>
    match reader.find (getPlatformIndependentHash typeName) with
    | none => .unknown parent base (getPlatformIndependentHash typeName)
    | some _ => .object typeName parent base (fields.seenBy reader)
  | value => value

def Fields.seenBy (reader : Serializers) : Fields → Fields
  | .nil => .nil
  | .plain ty value rest => .plain ty value (rest.seenBy reader)
  | .polymorphic declared value rest =>
    .polymorphic declared (value.seenBy reader) (rest.seenBy reader)

end

mutual

theorem Value.appends {declared : Abstract} : (value : Value) → value.WellFormed declared →
    Appends positionLimit value.write value.bytes
  | .object _ parent base fields, wellFormed =>
    appends_writePolymorphicNullable
      ((parent.base.codes base wellFormed.2.1).appends.comp (fields.appends wellFormed.2.2)) _
  | .unknown parent base _, wellFormed =>
    appends_writePolymorphicNullable (parent.base.codes base wellFormed.2).appends _

theorem Fields.appends : (fields : Fields) → fields.WellFormed →
    Appends positionLimit fields.write fields.bytes
  | .nil, _ => (Codes.pure ()).appends
  | .plain ty value rest, wellFormed =>
    (ty.codes value wellFormed.1).appends.comp (rest.appends wellFormed.2)
  | .polymorphic _ value rest, wellFormed =>
    (value.appends wellFormed.1).comp (rest.appends wellFormed.2)

end

mutual

theorem Value.gives {reader : Serializers} {declared : Abstract} {fuel : ℕ} : (value : Value) →
    value.WellFormed declared → value.AgreesWith reader → value.bytes.length < 2 ^ 31 →
    value.depth ≤ fuel →
    Gives positionLimit (reader.readPolymorphicNullable fuel declared) (.ok (value.seenBy reader))
      value.bytes
  | .object typeName parent base fields, wellFormed, agrees, small, enough => by
    obtain ⟨rfl, fits, wellFormed⟩ := wellFormed
    obtain ⟨notNull, found, agrees⟩ := agrees
    rw [Value.bytes, length_envelope, List.length_append] at small
    cases fuel with
    | zero => exact absurd enough (Nat.not_succ_le_zero _)
    | succ fuel =>
      have fieldsGiven := fields.gives wellFormed agrees (by omega) (Nat.le_of_succ_le_succ enough)
      apply gives_readPolymorphicNullable notNull
      · obtain found | found := found
        · rw [Value.seenBy, found, Serializers.readInstance, found]
          exact gives_readUnknownInstance fits _ _ rfl
        · rw [Value.seenBy, found, Serializers.readInstance, found]
          exact gives_concrete typeName fits fieldsGiven
      · rintro v ⟨⟩
        obtain found | found := found
        · rw [Value.seenBy, found, Value.dynamic, if_pos rfl]
        · rw [Value.seenBy, found, Value.dynamic, if_pos rfl]

theorem Fields.gives {reader : Serializers} {fuel : ℕ} : (fields : Fields) → fields.WellFormed →
    fields.AgreesWith reader → fields.bytes.length < 2 ^ 31 → fields.depth ≤ fuel →
    Gives positionLimit (reader.readFields fuel fields.layout) (.ok (fields.seenBy reader))
      fields.bytes
  | .nil, _, _, _, _ => (Codes.pure Fields.nil).gives
  | .plain ty value rest, wellFormed, agrees, small, enough => by
    rw [Fields.bytes, List.length_append] at small
    have restGiven := rest.gives wellFormed.2 agrees (by omega) enough
    exact gives_plain wellFormed.1 restGiven
  | .polymorphic declared value rest, wellFormed, agrees, small, enough => by
    rw [Fields.bytes, List.length_append] at small
    have first := value.gives wellFormed.1 agrees.1 (by omega)
      (Nat.le_trans (Nat.le_max_left _ _) enough)
    have restGiven := rest.gives wellFormed.2 agrees.2 (by omega)
      (Nat.le_trans (Nat.le_max_right _ _) enough)
    exact gives_polymorphic first restGiven

end

theorem Value.truncates {reader : Serializers} {declared : Abstract} {fuel : ℕ} {value : Value}
    (agrees : value.AgreesWith reader) (small : value.bytes.length < 2 ^ 31)
    (enough : value.depth ≤ fuel) :
    Truncates positionLimit (reader.readPolymorphicNullable fuel declared) value.bytes := by
  cases value with
  | object typeName parent base fields =>
    rw [Value.bytes, length_envelope] at small
    cases fuel with
    | zero => exact absurd enough (Nat.not_succ_le_zero _)
    | succ fuel => exact truncates_readPolymorphicNullable agrees.1 (by omega)
  | _ => cases agrees

theorem Fields.truncates {reader : Serializers} {fuel : ℕ} : (fields : Fields) →
    fields.WellFormed → fields.AgreesWith reader → fields.bytes.length < 2 ^ 31 →
    fields.depth ≤ fuel →
    Truncates positionLimit (reader.readFields fuel fields.layout) fields.bytes
  | .nil, _, _, _, _ => (Codes.pure Fields.nil).truncates
  | .plain ty value rest, wellFormed, agrees, small, enough => by
    rw [Fields.bytes, List.length_append] at small
    have first : Codes positionLimit _ _ _ _ := ty.codes value wellFormed.1
    have restCut := rest.truncates wellFormed.2 agrees (by omega) enough
    exact .bind first.gives first.truncates
      (fun value buffer => reader.readFields fuel rest.layout buffer >>= fun (rest, buffer) =>
        Except.ok (Fields.plain ty value rest, buffer)) (restCut.map (Fields.plain ty value))
  | .polymorphic declared value rest, wellFormed, agrees, small, enough => by
    rw [Fields.bytes, List.length_append] at small
    have deep := Nat.le_trans (Nat.le_max_left _ _) enough
    have first := value.gives wellFormed.1 agrees.1 (by omega) deep
    have restCut := rest.truncates wellFormed.2 agrees.2 (by omega)
      (Nat.le_trans (Nat.le_max_right _ _) enough)
    exact .bind first (Value.truncates agrees.1 (by omega) deep)
      (fun value buffer => reader.readFields fuel rest.layout buffer >>= fun (rest, buffer) =>
        Except.ok (Fields.polymorphic declared value rest, buffer)) (restCut.map _)

section Library

def iScriptMsg : Abstract := { name := "IScriptMsg", base := .void }

def iScriptCallStack : Abstract := { name := "IScriptCallStack", base := .void }

/-- Its subtypes inherit `requestID`. -/
def requestResultBase : Abstract := { name := "RequestResultBase", base := .integral 4 }

def scriptCallStack : Entry :=
  .concrete "ScriptCallStack" iScriptCallStack [.plain (.array .wstring)]

/-- The classes of `UE4Library` that inherit from an abstract type, in the order in which
`registerSerializersCore` registers them. -/
def ue4Library : List Entry :=
  [.concrete "RequestSucceed" requestResultBase [],
    .concrete "RequestFailed" requestResultBase [.plain (.integral 4), .plain .wstring],
    .concrete "EmptyScriptCallStack" iScriptCallStack [],
    scriptCallStack,
    .concrete "UnableToDisplayScriptCallStack" iScriptCallStack [],
    .concrete "ScriptMsgException" iScriptMsg [.plain .wstring],
    .concrete "ScriptMsgCallStack" iScriptMsg [.plain .wstring, .polymorphic iScriptCallStack],
    .unknown requestResultBase, .unknown iScriptCallStack, .unknown iScriptMsg]

def registerSerializersCore (entries : List Entry) (serializers : Serializers) : Serializers :=
  entries.foldl Serializers.registry serializers

/-- No two of the types have the same id, as `registry` asserts. -/
example : ((Entry.string :: ue4Library).map Entry.id).Nodup := by decide +kernel

def editor : Serializers := registerSerializersCore ue4Library {}

/-- A version of the library that has no `ScriptCallStack` yet. -/
def olderRider : Serializers := registerSerializersCore (ue4Library.erase scriptCallStack) {}

def text : Ty.wstring.denote := show List (BitVec 16) from [104, 105]

def frames : (Ty.array .wstring).denote := show List (List (BitVec 16)) from [[109], []]

/-- A message with a call stack of two frames, and the request that has failed. -/
def failedInScript : Fields :=
  .polymorphic iScriptMsg
    (.object "ScriptMsgCallStack" iScriptMsg ()
      (.plain .wstring text
        (.polymorphic iScriptCallStack
          (.object "ScriptCallStack" iScriptCallStack () (.plain (.array .wstring) frames .nil))
          .nil)))
    (.polymorphic requestResultBase
      (.object "RequestFailed" requestResultBase (7 : BitVec (8 * 4))
        (.plain (.integral 4) (1 : BitVec (8 * 4)) (.plain .wstring text .nil)))
      .nil)

theorem wellFormed_failedInScript : failedInScript.WellFormed :=
  ⟨⟨rfl, trivial, by decide, ⟨rfl, trivial, by decide, trivial⟩, trivial⟩,
    ⟨rfl, trivial, trivial, by decide, trivial⟩, trivial⟩

theorem agreesWith_olderRider : failedInScript.AgreesWith olderRider :=
  ⟨⟨by decide +kernel, Or.inr (by decide +kernel),
      ⟨by decide +kernel, Or.inl (by decide +kernel), trivial⟩, trivial⟩,
    ⟨by decide +kernel, Or.inr (by decide +kernel), trivial⟩, trivial⟩

end Library

/-! ## What comes back -/

/-- The `_Unknown` type of an abstract type has been registered. -/
def Serializers.HasUnknown (self : Serializers) (declared : Abstract) : Prop :=
  getPlatformIndependentHash declared.unknownName ≠ 0 ∧
  self.find (getPlatformIndependentHash declared.unknownName) = some (.unknown declared)

mutual

/-- All the types of a value are registered on a side. -/
def Value.KnownTo (side : Serializers) : Value → Prop
  | .object typeName parent _ fields =>
    getPlatformIndependentHash typeName ≠ 0 ∧
    side.find (getPlatformIndependentHash typeName) =
      some (.concrete typeName parent fields.layout) ∧
    side.HasUnknown parent ∧ fields.KnownTo side
  | _ => False

def Fields.KnownTo (side : Serializers) : Fields → Prop
  | .nil => True
  | .plain _ _ rest => rest.KnownTo side
  | .polymorphic _ value rest => value.KnownTo side ∧ rest.KnownTo side

end

mutual

theorem Value.agreesWith_of_knownTo {side : Serializers} : (value : Value) →
    value.KnownTo side → value.AgreesWith side
  | .object _ _ _ fields, ⟨notNull, found, _, known⟩ =>
    ⟨notNull, Or.inr found, fields.agreesWith_of_knownTo known⟩

theorem Fields.agreesWith_of_knownTo {side : Serializers} : (fields : Fields) →
    fields.KnownTo side → fields.AgreesWith side
  | .nil, _ => trivial
  | .plain _ _ rest, known => rest.agreesWith_of_knownTo known
  | .polymorphic _ value rest, known =>
    ⟨value.agreesWith_of_knownTo known.1, rest.agreesWith_of_knownTo known.2⟩

end

mutual

theorem Value.seenBy_of_knownTo {side : Serializers} : (value : Value) → value.KnownTo side →
    value.seenBy side = value
  | .object _ _ _ fields, ⟨_, found, _, known⟩ => by
    rw [Value.seenBy, found, fields.seenBy_of_knownTo known]

theorem Fields.seenBy_of_knownTo {side : Serializers} : (fields : Fields) → fields.KnownTo side →
    fields.seenBy side = fields
  | .nil, _ => rfl
  | .plain _ _ rest, known => by rw [Fields.seenBy, rest.seenBy_of_knownTo known]
  | .polymorphic _ value rest, known => by
    rw [Fields.seenBy, value.seenBy_of_knownTo known.1, rest.seenBy_of_knownTo known.2]

end

mutual

theorem Value.wellFormed_seenBy (reader : Serializers) {declared : Abstract} : (value : Value) →
    value.WellFormed declared → (value.seenBy reader).WellFormed declared
  | .object typeName parent base fields, ⟨same, fits, wellFormed⟩ => by
    rw [Value.seenBy]
    split
    · exact ⟨same, fits⟩
    · exact ⟨same, fits, fields.wellFormed_seenBy reader wellFormed⟩
  | .unknown _ _ _, wellFormed => wellFormed

theorem Fields.wellFormed_seenBy (reader : Serializers) : (fields : Fields) → fields.WellFormed →
    (fields.seenBy reader).WellFormed
  | .nil, _ => trivial
  | .plain _ _ rest, ⟨fits, wellFormed⟩ => ⟨fits, rest.wellFormed_seenBy reader wellFormed⟩
  | .polymorphic _ value rest, ⟨first, wellFormed⟩ =>
    ⟨value.wellFormed_seenBy reader first, rest.wellFormed_seenBy reader wellFormed⟩

end

mutual

theorem Value.length_seenBy_le (reader : Serializers) : (value : Value) →
    (value.seenBy reader).bytes.length ≤ value.bytes.length
  | .object typeName parent base fields => by
    have shorter := fields.length_seenBy_le reader
    rw [Value.seenBy, Value.bytes, length_envelope, List.length_append]
    split <;> rw [Value.bytes, length_envelope]
    · omega
    · rw [List.length_append]
      omega
  | .unknown _ _ _ => Nat.le_refl _
  | .string _ => Nat.le_refl _
  | .null => Nat.le_refl _

theorem Fields.length_seenBy_le (reader : Serializers) : (fields : Fields) →
    (fields.seenBy reader).bytes.length ≤ fields.bytes.length
  | .nil => Nat.le_refl _
  | .plain ty value rest => by
    have shorter := rest.length_seenBy_le reader
    rw [Fields.seenBy, Fields.bytes, Fields.bytes, List.length_append, List.length_append]
    omega
  | .polymorphic _ value rest => by
    have first := value.length_seenBy_le reader
    have shorter := rest.length_seenBy_le reader
    rw [Fields.seenBy, Fields.bytes, Fields.bytes, List.length_append, List.length_append]
    omega

end

/-- The text with which the readers of the `_Unknown` types throw. -/
abbrev unknownError : String := "Unknown instances should not be read via serializer"

mutual

/-- A value that comes back from a reader is the same one, or the writer throws. -/
theorem Value.echo {writer : Serializers} (reader : Serializers) {declared : Abstract} {fuel : ℕ} :
    (value : Value) → value.WellFormed declared → value.KnownTo writer →
    value.bytes.length < 2 ^ 31 → value.depth ≤ fuel →
    value.seenBy reader = value ∨
      Gives positionLimit (writer.readPolymorphicNullable fuel declared) (.error unknownError)
        (value.seenBy reader).bytes
  | .object typeName parent base fields, wellFormed, known, small, enough => by
    obtain ⟨rfl, fits, wellFormed⟩ := wellFormed
    obtain ⟨notNull, found, ⟨notNull', registered⟩, known⟩ := known
    rw [Value.bytes, length_envelope, List.length_append] at small
    cases fuel with
    | zero => exact absurd enough (Nat.not_succ_le_zero _)
    | succ fuel =>
      cases seen : reader.find (getPlatformIndependentHash typeName) with
      | none =>
        right
        rw [Value.seenBy, seen]
        apply gives_readPolymorphicNullable notNull'
        · rw [Serializers.readInstance, registered]
          exact fun _ _ _ _ _ => rfl
        · rintro v ⟨⟩
      | some entry =>
        rw [Value.seenBy, seen]
        obtain same | fails := fields.echo reader wellFormed known (by omega)
          (Nat.le_of_succ_le_succ enough)
        · exact Or.inl (by rw [same])
        · right
          apply gives_readPolymorphicNullable notNull
          · rw [Serializers.readInstance, found]
            exact gives_concrete typeName fits fails
          · rintro v ⟨⟩

theorem Fields.echo {writer : Serializers} (reader : Serializers) {fuel : ℕ} : (fields : Fields) →
    fields.WellFormed → fields.KnownTo writer → fields.bytes.length < 2 ^ 31 →
    fields.depth ≤ fuel →
    fields.seenBy reader = fields ∨
      Gives positionLimit (writer.readFields fuel fields.layout) (.error unknownError)
        (fields.seenBy reader).bytes
  | .nil, _, _, _, _ => Or.inl rfl
  | .plain ty value rest, wellFormed, known, small, enough => by
    rw [Fields.bytes, List.length_append] at small
    rw [Fields.seenBy]
    obtain same | fails := rest.echo reader wellFormed.2 known (by omega) enough
    · exact Or.inl (by rw [same])
    · exact Or.inr (gives_plain wellFormed.1 fails)
  | .polymorphic declared value rest, wellFormed, known, small, enough => by
    rw [Fields.bytes, List.length_append] at small
    have deep := Nat.le_trans (Nat.le_max_left _ _) enough
    rw [Fields.seenBy]
    obtain same | fails := value.echo reader wellFormed.1 known.1 (by omega) deep
    · obtain sameRest | fails := rest.echo reader wellFormed.2 known.2 (by omega)
        (Nat.le_trans (Nat.le_max_right _ _) enough)
      · exact Or.inl (by rw [same, sameRest])
      · right
        have first := value.gives wellFormed.1 (value.agreesWith_of_knownTo known.1) (by omega) deep
        rw [value.seenBy_of_knownTo known.1] at first
        rw [same]
        exact gives_polymorphic first fails
    · exact Or.inr (gives_polymorphic_error fails)

end

section Library

theorem knownTo_editor : failedInScript.KnownTo editor :=
  ⟨⟨by decide +kernel, by decide +kernel, ⟨by decide +kernel, by decide +kernel⟩,
      ⟨by decide +kernel, by decide +kernel, ⟨by decide +kernel, by decide +kernel⟩, trivial⟩,
      trivial⟩,
    ⟨by decide +kernel, by decide +kernel, ⟨by decide +kernel, by decide +kernel⟩, trivial⟩,
    trivial⟩

end Library

end CarpenterDemo.Rd
