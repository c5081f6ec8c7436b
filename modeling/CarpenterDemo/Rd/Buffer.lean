import CarpenterDemo.Library.Bytes
import CarpenterDemo.Library.Lists
import CarpenterDemo.Library.MachineInt

/-!
# `Buffer`: writing values and reading them back

A growing array of bytes with a position, the functions that write a value at the position and the
ones that read it back.  A read beyond the end throws; `check_available` gives the text.

The serializers of the framework are put together from these functions.  `Ty` lists the ways to do
so, with `Ty.write` and `Ty.read` for the composed functions, and the results are about all of them:

* `read_write`: what is read is what was written, whatever the initial size of the buffer.
* `read_truncated`: reading fails when any bytes at the end are missing.

Both concern values whose arrays and strings have fewer than 2³¹ elements and whose times fit into
64 bits (`Ty.Fits`).  A machine is little-endian and a `wchar_t` has two bytes; a floating-point
value is modelled by its bits.
-/

namespace CarpenterDemo.Rd

open Bytes

structure Buffer where
  data : List UInt8
  offset : ℕ := 0
  deriving DecidableEq, Repr

/-- A function that reads a value and moves the position, or throws. -/
abbrev Reader (α : Type) := Buffer → Except String (α × Buffer)

namespace Buffer

variable (self : Buffer)

def size : ℕ := self.data.length

def ofSize (initialSize : ℕ) : Buffer := { data := List.replicate initialSize 0 }

def setPosition (value : ℕ) : Buffer := { self with offset := value }

def rewind : Buffer := self.setPosition 0

/-- The position `n` bytes further on. -/
def skip (n : ℕ) : Buffer := { self with offset := self.offset + n }

/-- `std::vector::resize`. -/
def resize (bytes : List UInt8) (newSize : ℕ) : List UInt8 :=
  bytes.take newSize ++ List.replicate (newSize - bytes.length) 0

def requireAvailable (moreSize : ℕ) : Buffer :=
  if self.size ≤ self.offset + moreSize then
    { self with data := resize self.data (max (self.size * 2) (self.offset + moreSize)) }
  else self

def write (src : List UInt8) : Buffer :=
  if src = [] then self
  else
    let data := (self.requireAvailable src.length).data
    { data := data.take self.offset ++ src ++ data.drop (self.offset + src.length)
      offset := self.offset + src.length }

/-- The number of bytes that are left is a difference of sizes, which are unsigned. -/
def checkAvailable (moreSize : ℕ) : Except String Unit :=
  if self.size < self.offset + moreSize then
    .error ("Expected " ++ toString moreSize ++ " bytes in buffer, only" ++
      toString ((self.size + 2 ^ 64 - self.offset) % 2 ^ 64) ++ "available")
  else .ok ()

def read (n : ℕ) : Except String (List UInt8 × Buffer) :=
  if n = 0 then .ok ([], self)
  else do
    self.checkAvailable n
    return ((self.data.drop self.offset).take n, self.skip n)

def getRealArray : List UInt8 := resize self.data self.offset

/-! ## Values -/

def writeIntegral {n : ℕ} (value : BitVec (8 * n)) : Buffer := self.write (ofWord value)

def readIntegral (n : ℕ) : Reader (BitVec (8 * n)) := fun b => do
  let (bytes, b) ← b.read n
  return (toWord n bytes, b)

def writeFloatingPoint {n : ℕ} (value : BitVec (8 * n)) : Buffer := self.write (ofWord value)

def readFloatingPoint (n : ℕ) : Reader (BitVec (8 * n)) := fun b => do
  let (bytes, b) ← b.read n
  return (toWord n bytes, b)

def writeBool (value : Bool) : Buffer :=
  self.writeIntegral (if value then 1 else 0 : BitVec (8 * 1))

def readBool : Reader Bool := fun b => do
  let (res, b) ← readIntegral 1 b
  return (res == 1, b)

/-- The length of an array or of a string. -/
def writeLength (len : ℕ) : Buffer := self.writeIntegral (BitVec.ofNat (8 * 4) len)

/-- Resizing a vector to a negative length throws. -/
def readLength : Reader ℕ := fun b => do
  let (len, b) ← readIntegral 4 b
  if len.toInt < 0 then .error "vector too long" else return (len.toNat, b)

/-- `write_array` for words of `n` bytes. -/
def writePodArray {n : ℕ} (container : List (BitVec (8 * n))) : Buffer :=
  (self.writeLength container.length).write (container.flatMap ofWord)

def readPodArray (n : ℕ) : Reader (List (BitVec (8 * n))) := fun b => do
  let (len, b) ← readLength b
  let (bytes, b) ← b.read (n * len)
  return (chunks n len bytes, b)

def writeWstring (value : List (BitVec (8 * 2))) : Buffer := self.writePodArray value

def readWstring : Reader (List (BitVec (8 * 2))) := readPodArray 2

def writeArray {α : Type} (writer : α → Buffer → Buffer) (container : List α) : Buffer :=
  container.foldl (fun b e => writer e b) (self.writeLength container.length)

/-- The loop of `read_array`. -/
def readElements {α : Type} (reader : Reader α) : ℕ → Reader (List α)
  | 0, b => return ([], b)
  | len + 1, b => do
    let (e, b) ← reader b
    let (es, b) ← readElements reader len b
    return (e :: es, b)

def readArray {α : Type} (reader : Reader α) : Reader (List α) := fun b => do
  let (len, b) ← readLength b
  readElements reader len b

def writeNullable {α : Type} (writer : α → Buffer → Buffer) : Option α → Buffer
  | none => self.writeBool false
  | some value => writer value (self.writeBool true)

def readNullable {α : Type} (reader : Reader α) : Reader (Option α) := fun b => do
  let (present, b) ← readBool b
  if present then
    let (value, b) ← reader b
    return (some value, b)
  else return (none, b)

def ticksAtEpoch : ℤ := 621355968000000000

def ticksPerMillisecond : ℤ := 10000000

def writeDateTime (seconds : ℤ) : Buffer :=
  self.writeIntegral (BitVec.ofInt (8 * 8) (seconds * ticksPerMillisecond + ticksAtEpoch))

def readDateTime : Reader ℤ := fun b => do
  let (timeInTicks, b) ← readIntegral 8 b
  return (timeInTicks.toInt.tdiv ticksPerMillisecond - ticksAtEpoch.tdiv ticksPerMillisecond, b)

/-! ## What is written and what is left to read -/

/-- What has been written before the position. -/
def written : List UInt8 := self.data.take self.offset

/-- What stands at and after the position. -/
def unread : List UInt8 := self.data.drop self.offset

/-- The position is in the array. -/
def Valid : Prop := self.offset ≤ self.data.length

variable {self}

theorem length_resize (bytes : List UInt8) (n : ℕ) : (resize bytes n).length = n := by
  rw [resize, List.length_append, List.length_take, List.length_replicate]
  omega

theorem take_resize {bytes : List UInt8} {n k : ℕ} (le : k ≤ bytes.length) (inside : k ≤ n) :
    (resize bytes n).take k = bytes.take k := by
  rw [resize, List.take_append_of_le_length, List.take_take, Nat.min_eq_left inside]
  rw [List.length_take]
  omega

theorem requireAvailable_spec (valid : self.Valid) (n : ℕ) :
    self.offset + n ≤ (self.requireAvailable n).data.length ∧
      (self.requireAvailable n).data.take self.offset = self.written := by
  unfold requireAvailable
  split_ifs with grows
  · refine ⟨?_, take_resize valid (by omega)⟩
    rw [length_resize]
    exact Nat.le_max_right _ _
  · exact ⟨Nat.le_of_lt (Nat.lt_of_not_le grows), rfl⟩

/-- Growing keeps the bytes there are. -/
theorem take_requireAvailable (n : ℕ) {k : ℕ} (le : k ≤ self.data.length) :
    (self.requireAvailable n).data.take k = self.data.take k := by
  unfold requireAvailable
  split_ifs
  · refine take_resize le (Nat.le_trans le ?_)
    show self.size ≤ _
    omega
  · rfl

/-- Writing appends to what was written, wherever the array has to grow. -/
theorem write_spec (valid : self.Valid) (src : List UInt8) :
    (self.write src).Valid ∧ (self.write src).written = self.written ++ src := by
  unfold write
  split_ifs with empty
  · rw [empty, List.append_nil]
    exact ⟨valid, rfl⟩
  · obtain ⟨room, before⟩ := requireAvailable_spec valid src.length
    have length : (self.data.take self.offset).length = self.offset :=
      List.length_take_of_le valid
    simp only [Valid, written, before]
    refine ⟨?_, ?_⟩
    · rw [List.length_append, List.length_append, length]
      exact Nat.le_add_right _ _
    · rw [List.take_left']
      rw [List.length_append, length]

theorem length_written (valid : self.Valid) : self.written.length = self.offset :=
  List.length_take_of_le valid

/-- Writing over bytes in the middle, and going back to the old position, keeps the others. -/
theorem overwrite_spec (valid : self.Valid) {before old after src : List UInt8}
    (h : self.written = before ++ old ++ after) (same : src.length = old.length) (some : src ≠ []) :
    (((self.setPosition before.length).write src).setPosition self.offset).Valid ∧
      (((self.setPosition before.length).write src).setPosition self.offset).written =
        before ++ src ++ after := by
  let there := self.setPosition before.length
  have length := length_written valid
  rw [h, List.length_append, List.length_append] at length
  have kept : (there.requireAvailable src.length).data.take self.offset = before ++ old ++ after :=
    (@take_requireAvailable there src.length _ valid).trans h
  have inside := congrArg List.length kept
  rw [List.length_take, List.length_append, List.length_append] at inside
  obtain ⟨tail, whole⟩ : ∃ tail, (there.requireAvailable src.length).data =
      before ++ (old ++ (after ++ tail)) := by
    refine ⟨(there.requireAvailable src.length).data.drop self.offset, ?_⟩
    rw [← List.append_assoc, ← List.append_assoc, ← kept, List.take_append_drop]
  have data : (there.write src).data = before ++ src ++ after ++ tail := by
    rw [write, if_neg some]
    show List.take before.length _ ++ src ++ List.drop (before.length + src.length) _ = _
    rw [whole, List.take_left, same, ← List.drop_drop, List.drop_left, List.drop_left,
      ← List.append_assoc]
  have result : (there.write src).data.take self.offset = before ++ src ++ after := by
    rw [data, List.take_left']
    rw [List.length_append, List.length_append]
    omega
  refine ⟨?_, result⟩
  show self.offset ≤ (there.write src).data.length
  rw [data, List.length_append, List.length_append, List.length_append]
  omega

theorem getRealArray_eq (valid : self.Valid) : self.getRealArray = self.written := by
  rw [getRealArray, resize, Nat.sub_eq_zero_of_le valid, List.replicate_zero, List.append_nil]
  rfl

theorem skip_skip (m n : ℕ) : (self.skip m).skip n = self.skip (m + n) := by
  rw [skip, skip, skip, Nat.add_assoc]

theorem skip_spec (valid : self.Valid) {bytes rest : List UInt8} (h : self.unread = bytes ++ rest) :
    (self.skip bytes.length).Valid ∧ (self.skip bytes.length).unread = rest := by
  constructor
  · have length := congrArg List.length h
    rw [unread, List.length_drop, List.length_append] at length
    unfold Valid at valid
    show self.offset + bytes.length ≤ self.data.length
    omega
  · show self.data.drop (self.offset + bytes.length) = rest
    rw [← List.drop_drop]
    show self.unread.drop bytes.length = rest
    rw [h, List.drop_left]

theorem read_spec {bytes rest : List UInt8} (h : self.unread = bytes ++ rest) :
    self.read bytes.length = .ok (bytes, self.skip bytes.length) := by
  unfold read
  split_ifs with empty
  · obtain rfl := List.length_eq_zero_iff.1 empty
    rfl
  · have inside : ¬ self.size < self.offset + bytes.length := by
      have := congrArg List.length h
      rw [unread, List.length_drop, List.length_append] at this
      rw [size]
      have := Nat.pos_of_ne_zero empty
      omega
    rw [checkAvailable, if_neg inside]
    show Except.ok (self.unread.take bytes.length, _) = _
    rw [h, List.take_left]

theorem read_error {n : ℕ} (h : self.unread.length < n) : ∃ e, self.read n = .error e := by
  unfold read
  rw [if_neg (by omega), checkAvailable, if_pos]
  · exact ⟨_, rfl⟩
  · rw [unread, List.length_drop] at h
    rw [size]
    omega

end Buffer

/-! ## Writers and readers that fit together -/

/-- The position `n` is below the limit, if there is one. -/
def Room (limit : Option ℕ) (n : ℕ) : Prop := ∀ l ∈ limit, n < l

theorem room_none (n : ℕ) : Room none n := fun _ h => nomatch h

theorem room_some {l n : ℕ} (h : n < l) : Room (some l) n := fun _ hl => Option.some.inj hl ▸ h

theorem Room.mono {limit : Option ℕ} {m n : ℕ} (h : Room limit n) (le : m ≤ n) : Room limit m :=
  fun l hl => Nat.lt_of_le_of_lt le (h l hl)

section Codes

variable (limit : Option ℕ) {α β : Type} (write : Buffer → Buffer) (read : Reader α)

def Appends (bytes : List UInt8) : Prop :=
  ∀ b : Buffer, b.Valid → Room limit (b.offset + bytes.length) →
    (write b).Valid ∧ (write b).written = b.written ++ bytes

/-- Reading bytes that begin with `bytes` gives `x` and leaves what follows them, or throws. -/
def Gives (x : Except String α) (bytes : List UInt8) : Prop :=
  ∀ (b : Buffer) rest, b.Valid → Room limit (b.offset + bytes.length) → b.unread = bytes ++ rest →
    read b = x.map fun x => (x, b.skip bytes.length)

/-- Reading throws when bytes at the end are missing. -/
def Truncates (bytes : List UInt8) : Prop :=
  ∀ b : Buffer, b.Valid → Room limit (b.offset + bytes.length) → b.unread <+: bytes →
    b.unread ≠ bytes → ∃ e, read b = .error e

structure Codes (x : α) (bytes : List UInt8) : Prop where
  appends : Appends limit write bytes
  gives : Gives limit read (.ok x) bytes
  truncates : Truncates limit read bytes

end Codes

section Compose

variable {limit : Option ℕ} {α β : Type} {write write' : Buffer → Buffer} {read : Reader α} {x : α}
  {y : Except String β} {bytes bytes' : List UInt8}

/-- One value after another. -/
theorem Appends.comp (h : Appends limit write bytes) (h' : Appends limit write' bytes') :
    Appends limit (fun b => write' (write b)) (bytes ++ bytes') := by
  intro b valid room
  rw [List.length_append, ← Nat.add_assoc] at room
  obtain ⟨valid', written⟩ := h b valid (room.mono (Nat.le_add_right _ _))
  have offset : (write b).offset = b.offset + bytes.length := by
    rw [← Buffer.length_written valid', written, List.length_append, Buffer.length_written valid]
  obtain ⟨valid'', written'⟩ := h' (write b) valid' (offset ▸ room)
  exact ⟨valid'', by rw [written', written, List.append_assoc]⟩

theorem Gives.bind (h : Gives limit read (.ok x) bytes) (read' : α → Reader β)
    (h' : Gives limit (read' x) y bytes') :
    Gives limit (fun b => read b >>= fun (x, b) => read' x b) y (bytes ++ bytes') := by
  intro b rest valid room unread
  rw [List.length_append, ← Nat.add_assoc] at room
  rw [List.append_assoc] at unread
  obtain ⟨valid', unread'⟩ := Buffer.skip_spec valid unread
  show (read b >>= fun (x, b) => read' x b) = _
  rw [h b _ valid (room.mono (Nat.le_add_right _ _)) unread]
  show read' x (b.skip bytes.length) = _
  rw [h' _ rest valid' room unread', Buffer.skip_skip, List.length_append]

theorem Gives.map {x : Except String α} (h : Gives limit read x bytes) (f : α → β) :
    Gives limit (fun b => read b >>= fun (x, b) => .ok (f x, b)) (x.map f) bytes := by
  intro b rest valid room unread
  show (read b >>= fun (x, b) => Except.ok (f x, b)) = _
  rw [h b rest valid room unread]
  cases x <;> rfl

theorem Gives.bind_error {e : String} (h : Gives limit read (.error e) bytes)
    (read' : α → Reader β) (bytes' : List UInt8) :
    Gives limit (fun b => read b >>= fun (x, b) => read' x b) (.error e) (bytes ++ bytes') := by
  intro b rest valid room unread
  rw [List.append_assoc] at unread
  rw [List.length_append, ← Nat.add_assoc] at room
  show (read b >>= fun (x, b) => read' x b) = _
  rw [h b _ valid (room.mono (Nat.le_add_right _ _)) unread]
  rfl

theorem Truncates.bind (h : Gives limit read (.ok x) bytes) (cut : Truncates limit read bytes)
    (read' : α → Reader β) (cut' : Truncates limit (read' x) bytes') :
    Truncates limit (fun b => read b >>= fun (x, b) => read' x b) (bytes ++ bytes') := by
  intro b valid room short other
  rw [List.length_append, ← Nat.add_assoc] at room
  have room' := room.mono (Nat.le_add_right _ bytes'.length)
  show ∃ e, (read b >>= fun (x, b) => read' x b) = .error e
  rcases Lists.prefix_append_cases short with ⟨less, proper⟩ | ⟨rest, split, less⟩
  · obtain ⟨e, fails⟩ := cut b valid room' less proper
    exact ⟨e, by rw [fails]; rfl⟩
  · -- the first value is whole, so the second one is cut off
    obtain ⟨valid', unread⟩ := Buffer.skip_spec valid split
    obtain ⟨e, fails⟩ := cut' _ valid' room (unread ▸ less) fun same =>
      other (by rw [split, ← unread, same])
    exact ⟨e, by rw [h b rest valid room' split]; exact fails⟩

theorem Truncates.map (h : Truncates limit read bytes) (f : α → β) :
    Truncates limit (fun b => read b >>= fun (x, b) => Except.ok (f x, b)) bytes := by
  intro b valid room short other
  obtain ⟨e, fails⟩ := h b valid room short other
  refine ⟨e, ?_⟩
  show (read b >>= fun (x, b) => Except.ok (f x, b)) = _
  rw [fails]
  rfl

/-! What is written to an empty buffer of any size and sent as `getRealArray`. -/

theorem Appends.getRealArray (h : Appends limit write bytes) (room : Room limit bytes.length)
    (initialSize : ℕ) : (write (Buffer.ofSize initialSize)).getRealArray = bytes := by
  obtain ⟨valid, written⟩ := h (Buffer.ofSize initialSize) (Nat.zero_le _)
    (room.mono (Nat.le_of_eq (Nat.zero_add _)))
  rw [Buffer.getRealArray_eq valid, written]
  rfl

theorem Gives.read_all (h : Gives limit read (.ok x) bytes) (room : Room limit bytes.length) :
    ∃ b, read { data := bytes } = .ok (x, b) ∧ b.unread = [] := by
  have unread : Buffer.unread { data := bytes } = bytes ++ [] := (List.append_nil _).symm
  have whole : Buffer.Valid { data := bytes } := Nat.zero_le _
  have room := room.mono (Nat.le_of_eq (Nat.zero_add _))
  exact ⟨_, h _ _ whole room unread, (Buffer.skip_spec whole unread).2⟩

theorem Truncates.read_take (h : Truncates limit read bytes) (room : Room limit bytes.length)
    {n : ℕ} (cut : n < bytes.length) : ∃ e, read { data := bytes.take n } = .error e := by
  have room := room.mono (Nat.le_of_eq (Nat.zero_add _))
  refine h _ (Nat.zero_le _) room (List.take_prefix n _) fun same => ?_
  have shorter : (bytes.take n).length = bytes.length := congrArg List.length same
  rw [List.length_take] at shorter
  omega

end Compose

namespace Codes

variable {limit : Option ℕ} {α β : Type} {write write' : Buffer → Buffer} {read : Reader α} {x : α}
  {bytes bytes' : List UInt8}

theorem bind (h : Codes limit write read x bytes) (read' : α → Reader β) {y : β}
    (h' : Codes limit write' (read' x) y bytes') :
    Codes limit (fun b => write' (write b)) (fun b => read b >>= fun (x, b) => read' x b) y
      (bytes ++ bytes') :=
  ⟨h.appends.comp h'.appends, h.gives.bind read' h'.gives,
    .bind h.gives h.truncates read' h'.truncates⟩

/-- A value that is computed from what is read. -/
theorem map (h : Codes limit write read x bytes) (f : α → β) :
    Codes limit write (fun b => read b >>= fun (x, b) => .ok (f x, b)) (f x) bytes where
  appends := h.appends
  gives := h.gives.map f
  truncates := h.truncates.map f

/-- Nothing is written and a value is given. -/
theorem pure (x : α) : Codes limit id (fun b => .ok (x, b)) x [] where
  appends := fun _ valid _ => ⟨valid, (List.append_nil _).symm⟩
  gives := fun _ _ _ _ _ => rfl
  truncates := fun _ _ _ short other => absurd (List.prefix_nil.1 short) other

/-- Bytes that are copied as they are. -/
theorem raw (bytes : List UInt8) :
    Codes limit (fun b => b.write bytes) (fun b => b.read bytes.length) bytes bytes where
  appends := fun _ valid _ => Buffer.write_spec valid bytes
  gives := fun _ _ _ _ unread => Buffer.read_spec unread
  truncates := fun _ _ _ short other => by
    refine Buffer.read_error (Nat.lt_of_le_of_ne short.length_le fun same => ?_)
    exact other (short.eq_of_length same)

/-! ## The functions of `Buffer` -/

theorem integral {n : ℕ} (x : BitVec (8 * n)) :
    Codes limit (fun b => b.writeIntegral x) (Buffer.readIntegral n) x (ofWord x) := by
  have h : Codes limit _ _ _ _ := (raw (ofWord x)).map (toWord n)
  rw [length_ofWord, toWord_ofWord] at h
  exact h

/-- The bits of a floating-point value go the way of an integer. -/
theorem floatingPoint {n : ℕ} (x : BitVec (8 * n)) :
    Codes limit (fun b => b.writeFloatingPoint x) (Buffer.readFloatingPoint n) x (ofWord x) :=
  integral x

def boolBytes (x : Bool) : List UInt8 := ofWord (if x then 1 else 0 : BitVec (8 * 1))

theorem bool (x : Bool) : Codes limit (fun b => b.writeBool x) Buffer.readBool x (boolBytes x) := by
  have h : Codes limit _ _ _ _ := (integral (if x then 1 else 0 : BitVec (8 * 1))).map (· == 1)
  cases x <;> exact h

def lengthBytes (len : ℕ) : List UInt8 := ofWord (BitVec.ofNat (8 * 4) len)

/-- A length fits into a signed integer of 32 bits. -/
theorem length {len : ℕ} (fits : len < 2 ^ 31) :
    Codes limit (fun b => b.writeLength len) Buffer.readLength len (lengthBytes len) := by
  have value : (BitVec.ofNat (8 * 4) len).toNat = len := by
    rw [BitVec.toNat_ofNat]
    omega
  have signed : ¬ (BitVec.ofNat (8 * 4) len).toInt < 0 := by
    rw [BitVec.toInt_eq_toNat_cond, value]
    split_ifs <;> omega
  have rest : Codes limit id (fun b => if (BitVec.ofNat (8 * 4) len).toInt < 0
      then .error "vector too long" else .ok ((BitVec.ofNat (8 * 4) len).toNat, b)) len [] := by
    simp only [signed, if_false, value]
    exact pure len
  have h := (integral (BitVec.ofNat (8 * 4) len)).bind
    (fun len b => if len.toInt < 0 then .error "vector too long" else .ok (len.toNat, b)) rest
  rw [List.append_nil] at h
  exact h

def podArrayBytes {n : ℕ} (xs : List (BitVec (8 * n))) : List UInt8 :=
  lengthBytes xs.length ++ xs.flatMap ofWord

theorem podArray {n : ℕ} {xs : List (BitVec (8 * n))} (fits : xs.length < 2 ^ 31) :
    Codes limit (fun b => b.writePodArray xs) (Buffer.readPodArray n) xs (podArrayBytes xs) := by
  have elements : Codes limit _ _ _ _ :=
    (raw (xs.flatMap ofWord)).map (chunks n xs.length)
  rw [length_flatMap_ofWord, chunks_flatMap] at elements
  exact (length fits).bind (fun len b => do
    let (bytes, b) ← b.read (n * len)
    return (chunks n len bytes, b)) elements

def nullableBytes (each : α → List UInt8) : Option α → List UInt8
  | none => boolBytes false
  | some a => boolBytes true ++ each a

theorem nullable {writer : α → Buffer → Buffer} {reader : Reader α} {x : Option α}
    {format : α → List UInt8} (each : ∀ a ∈ x, Codes limit (writer a) reader a (format a)) :
    Codes limit (fun b => b.writeNullable writer x) (Buffer.readNullable reader) x
      (nullableBytes format x) := by
  let readRest : Bool → Reader (Option α) := fun present b =>
    if present then reader b >>= fun (value, b) => .ok (some value, b) else .ok (none, b)
  cases x with
  | none =>
    have rest : Codes limit id (readRest false) none [] := pure none
    exact (bool false).bind readRest rest
  | some a =>
    have rest : Codes limit (writer a) (readRest true) (some a) (format a) := (each a rfl).map some
    exact (bool true).bind readRest rest

theorem elements {writer : α → Buffer → Buffer} {reader : Reader α} {xs : List α}
    {format : α → List UInt8} (each : ∀ a ∈ xs, Codes limit (writer a) reader a (format a)) :
    Codes limit (fun b => xs.foldl (fun b e => writer e b) b)
      (Buffer.readElements reader xs.length) xs (xs.flatMap format) := by
  induction xs with
  | nil => exact pure []
  | cons a xs ih =>
    have h := each a List.mem_cons_self
    have h' := ih fun a' ha' => each a' (List.mem_cons_of_mem a ha')
    exact h.bind (fun e b => Buffer.readElements reader xs.length b >>=
      fun (es, b) => .ok (e :: es, b)) (h'.map (List.cons a))

def arrayBytes (each : α → List UInt8) (xs : List α) : List UInt8 :=
  lengthBytes xs.length ++ xs.flatMap each

theorem array {writer : α → Buffer → Buffer} {reader : Reader α} {xs : List α}
    {format : α → List UInt8} (fits : xs.length < 2 ^ 31)
    (each : ∀ a ∈ xs, Codes limit (writer a) reader a (format a)) :
    Codes limit (fun b => b.writeArray writer xs) (Buffer.readArray reader) xs
      (arrayBytes format xs) :=
  (length fits).bind (Buffer.readElements reader) (elements each)

def dateTimeBytes (seconds : ℤ) : List UInt8 :=
  ofWord (BitVec.ofInt (8 * 8) (seconds * Buffer.ticksPerMillisecond + Buffer.ticksAtEpoch))

/-- The epoch is a whole number of the units that are divided out. -/
theorem dateTime {seconds : ℤ} (fits : MachineInt.Fits 64
    (seconds * Buffer.ticksPerMillisecond + Buffer.ticksAtEpoch)) :
    Codes limit (fun b => b.writeDateTime seconds) Buffer.readDateTime seconds
      (dateTimeBytes seconds) := by
  have h : Codes limit _ _ _ _ := (integral (BitVec.ofInt (8 * 8)
    (seconds * Buffer.ticksPerMillisecond + Buffer.ticksAtEpoch))).map fun ticks =>
      ticks.toInt.tdiv Buffer.ticksPerMillisecond -
        Buffer.ticksAtEpoch.tdiv Buffer.ticksPerMillisecond
  have whole : seconds * Buffer.ticksPerMillisecond + Buffer.ticksAtEpoch =
      (seconds + 62135596800) * Buffer.ticksPerMillisecond := by
    unfold Buffer.ticksPerMillisecond Buffer.ticksAtEpoch
    omega
  have epoch : Buffer.ticksAtEpoch.tdiv Buffer.ticksPerMillisecond = 62135596800 := rfl
  have same := (MachineInt.wrap_eq_self_iff (w := 64) (by decide)).2 fits
  rw [BitVec.toInt_ofInt] at h
  rw [MachineInt.wrap] at same
  simp only [same] at h
  rw [whole, Int.mul_tdiv_cancel _ (by decide), epoch, Int.add_sub_cancel, ← whole] at h
  exact h

end Codes

/-! ## Composed serializers -/

/-- The ways to put serializers together. -/
inductive Ty
  /-- Integers, characters, enumerations and identifiers. -/
  | integral (bytes : ℕ)
  | floatingPoint (bytes : ℕ)
  | bool
  | wstring
  | dateTime
  | podArray (bytes : ℕ)
  /-- `rd::Void`. -/
  | void
  | array (element : Ty)
  | nullable (value : Ty)
  | pair (first second : Ty)
  deriving DecidableEq, Repr

namespace Ty

def denote : Ty → Type
  | integral bytes => BitVec (8 * bytes)
  | floatingPoint bytes => BitVec (8 * bytes)
  | bool => Bool
  | wstring => List (BitVec (8 * 2))
  | dateTime => ℤ
  | podArray bytes => List (BitVec (8 * bytes))
  | void => Unit
  | array element => List element.denote
  | nullable value => Option value.denote
  | pair first second => first.denote × second.denote

def write : (ty : Ty) → ty.denote → Buffer → Buffer
  | integral _, x, b => b.writeIntegral x
  | floatingPoint _, x, b => b.writeFloatingPoint x
  | bool, x, b => b.writeBool x
  | wstring, x, b => b.writeWstring x
  | dateTime, x, b => b.writeDateTime x
  | podArray _, xs, b => b.writePodArray xs
  | void, _, b => b
  | array element, xs, b => b.writeArray element.write xs
  | nullable value, x, b => b.writeNullable value.write x
  | pair first second, x, b => second.write x.2 (first.write x.1 b)

def read : (ty : Ty) → Reader ty.denote
  | integral bytes => Buffer.readIntegral bytes
  | floatingPoint bytes => Buffer.readFloatingPoint bytes
  | bool => Buffer.readBool
  | wstring => Buffer.readWstring
  | dateTime => Buffer.readDateTime
  | podArray bytes => Buffer.readPodArray bytes
  | void => fun b => return ((), b)
  | array element => Buffer.readArray element.read
  | nullable value => Buffer.readNullable value.read
  | pair first second => fun b => do
    let (x, b) ← first.read b
    let (y, b) ← second.read b
    return ((x, y), b)

def FitsLength {α : Type} (xs : List α) : Prop := xs.length < 2 ^ 31

def FitsDateTime (seconds : ℤ) : Prop :=
  MachineInt.Fits 64 (seconds * Buffer.ticksPerMillisecond + Buffer.ticksAtEpoch)

def FitsArray {α : Type} (fits : α → Prop) (xs : List α) : Prop :=
  FitsLength xs ∧ ∀ x ∈ xs, fits x

def FitsNullable {α : Type} (fits : α → Prop) (x : Option α) : Prop := ∀ a ∈ x, fits a

/-- Lengths fit into 32 bits and times into 64. -/
def Fits : (ty : Ty) → ty.denote → Prop
  | integral _, _ => True
  | floatingPoint _, _ => True
  | bool, _ => True
  | wstring, x => FitsLength x
  | dateTime, x => FitsDateTime x
  | podArray _, xs => FitsLength xs
  | void, _ => True
  | array element, xs => FitsArray element.Fits xs
  | nullable value, x => FitsNullable value.Fits x
  | pair first second, x => first.Fits x.1 ∧ second.Fits x.2

instance decidableFitsLength {α : Type} (xs : List α) : Decidable (FitsLength xs) :=
  inferInstanceAs (Decidable (_ < _))

instance decidableFitsDateTime (seconds : ℤ) : Decidable (FitsDateTime seconds) :=
  inferInstanceAs (Decidable (_ ∧ _))

instance decidableFitsArray {α : Type} (fits : α → Prop) [DecidablePred fits] (xs : List α) :
    Decidable (FitsArray fits xs) :=
  inferInstanceAs (Decidable (_ ∧ _))

instance decidableFitsNullable {α : Type} (fits : α → Prop) [DecidablePred fits] (x : Option α) :
    Decidable (FitsNullable fits x) :=
  inferInstanceAs (Decidable (∀ a ∈ x, fits a))

instance decidableFits : (ty : Ty) → DecidablePred ty.Fits
  | integral _, _ => isTrue trivial
  | floatingPoint _, _ => isTrue trivial
  | bool, _ => isTrue trivial
  | wstring, x => decidableFitsLength x
  | dateTime, x => decidableFitsDateTime x
  | podArray _, xs => decidableFitsLength xs
  | void, _ => isTrue trivial
  | array element, xs => @decidableFitsArray _ element.Fits (decidableFits element) xs
  | nullable value, x => @decidableFitsNullable _ value.Fits (decidableFits value) x
  | pair first second, x =>
    @instDecidableAnd _ _ (decidableFits first x.1) (decidableFits second x.2)

/-- The bytes of a value. -/
def bytes : (ty : Ty) → ty.denote → List UInt8
  | integral _, x => ofWord x
  | floatingPoint _, x => ofWord x
  | bool, x => Codes.boolBytes x
  | wstring, x => Codes.podArrayBytes x
  | dateTime, x => Codes.dateTimeBytes x
  | podArray _, xs => Codes.podArrayBytes xs
  | void, _ => []
  | array element, xs => Codes.arrayBytes element.bytes xs
  | nullable value, x => Codes.nullableBytes value.bytes x
  | pair first second, x => first.bytes x.1 ++ second.bytes x.2

theorem codes {limit : Option ℕ} (ty : Ty) (x : ty.denote) (fits : ty.Fits x) :
    Codes limit (ty.write x) ty.read x (ty.bytes x) := by
  induction ty with
  | integral bytes => exact Codes.integral x
  | floatingPoint bytes => exact Codes.floatingPoint x
  | bool => exact Codes.bool x
  | wstring => exact Codes.podArray fits
  | dateTime => exact Codes.dateTime fits
  | podArray bytes => exact Codes.podArray fits
  | void => exact Codes.pure ()
  | array element ih => exact Codes.array fits.1 fun a ha => ih a (fits.2 a ha)
  | nullable value ih => exact Codes.nullable fun a ha => ih a (fits a ha)
  | pair first second ih ih' =>
    exact (ih x.1 fits.1).bind (fun x b => second.read b >>= fun (y, b) => .ok ((x, y), b))
      ((ih' x.2 fits.2).map (Prod.mk x.1))

/-- A value that is written to an empty buffer of any size, sent as `getRealArray` and read on the
other side is the same value, and nothing is left. -/
theorem read_write (ty : Ty) (x : ty.denote) (fits : ty.Fits x) (initialSize : ℕ) : ∃ b,
    ty.read { data := (ty.write x (Buffer.ofSize initialSize)).getRealArray } = .ok (x, b) ∧
      b.unread = [] := by
  have h : Codes none _ _ _ _ := ty.codes x fits
  rw [h.appends.getRealArray (room_none _)]
  exact h.gives.read_all (room_none _)

/-- Names with the times at which they were last seen, if any. -/
abbrev lastSeen : Ty := .array (.pair .wstring (.nullable .dateTime))

def twoNames : lastSeen.denote :=
  show List (List (BitVec 16) × Option ℤ) from [([72, 105], some 1700000000), ([], none)]

theorem read_write_twoNames : ∃ b,
    lastSeen.read { data := (lastSeen.write twoNames (Buffer.ofSize 1)).getRealArray } =
        .ok (twoNames, b) ∧ b.unread = [] :=
  read_write lastSeen twoNames (by decide) 1

/-- A value whose bytes are cut off anywhere is not read as another one: reading throws. -/
theorem read_truncated (ty : Ty) (x : ty.denote) (fits : ty.Fits x) (initialSize n : ℕ)
    (cut : n < (ty.write x (Buffer.ofSize initialSize)).getRealArray.length) :
    ∃ e, ty.read { data := (ty.write x (Buffer.ofSize initialSize)).getRealArray.take n } =
      .error e := by
  have h : Codes none _ _ _ _ := ty.codes x fits
  rw [h.appends.getRealArray (room_none _)] at cut ⊢
  exact h.truncates.read_take (room_none _) cut

theorem read_truncated_twoNames : ∃ e, lastSeen.read
    { data := (lastSeen.write twoNames (Buffer.ofSize 1)).getRealArray.take 21 } = .error e :=
  read_truncated lastSeen twoNames (by decide) 1 21 (by decide)

end Ty

end CarpenterDemo.Rd
