import CarpenterDemo.Rd.Buffer
import CarpenterDemo.Rd.Wire

/-!
# Messages in a stream of packages

`SocketWire::send` frames a message with its length and the identifier of its addressee and puts it
as one package.  `read_and_dispatch_message` reads messages back through `PkgInputStream`, which
asks for another package whenever the last one is used up and knows nothing of where messages begin
and end.  A value of `-1` stands for a number that has not been read.

The numbers of a message that is being read outlive the connection.  They are not reset when a
handler throws, and the length has been reduced by then; `throws` says for which messages that
happens on the receiving thread.

* `read_spec`: reading from packages is reading from their concatenation.
* `receiverProc_spec`: the messages that are dispatched over one connection are those that were
  framed, in order, however the bytes are cut into packages.
* `delivered_eq_take`: over a whole wire, what is dispatched is an initial part of what was sent.
-/

namespace CarpenterDemo.Rd

open Bytes

/-- What is left of the current package, and the packages still to be read over the connection. -/
structure PkgInputStream where
  buffer : List UInt8 := []
  packages : List (List UInt8) := []
  deriving DecidableEq, Repr

namespace PkgInputStream

variable (self : PkgInputStream)

/-- `none` stands for the result `-1`. -/
def requestData : Option PkgInputStream :=
  match self.packages with
  | [] => none
  | package :: packages => some { buffer := package, packages := packages }

def tryRead (size : ℕ) : Option (List UInt8 × PkgInputStream) :=
  (if self.buffer = [] then self.requestData else some self).map fun self =>
    (self.buffer.take size, { self with buffer := self.buffer.drop size })

/-- Everything that is still to be read. -/
def content : List UInt8 := self.buffer ++ self.packages.flatten

variable {self}

theorem requestData_spec {self' : PkgInputStream} (h : self.requestData = some self') :
    self.packages = self'.buffer :: self'.packages := by
  unfold requestData at h
  split at h
  · cases h
  · rename_i stored
    cases h
    exact stored

/-- What is read comes from the front; a read that brings nothing has used up a package. -/
theorem tryRead_spec {size : ℕ} {bytes : List UInt8} {self' : PkgInputStream}
    (h : self.tryRead size = some (bytes, self')) (wanted : size ≠ 0) :
    bytes.length ≤ size ∧ self.content = bytes ++ self'.content ∧
      self'.content.length + self'.packages.length <
        self.content.length + self.packages.length := by
  obtain ⟨t, requested, e⟩ := Option.map_eq_some_iff.1 h
  obtain ⟨rfl, rfl⟩ := Prod.ext_iff.1 e
  dsimp only
  have front : t.content = t.buffer.take size ++
      content { t with buffer := t.buffer.drop size } := by
    rw [content, content, ← List.append_assoc, List.take_append_drop]
  have total := congrArg List.length front
  rw [List.length_append, List.length_take] at total
  refine ⟨List.length_take_le size t.buffer, ?_⟩
  split_ifs at requested with empty
  · have stored := requestData_spec requested
    have same : self.content = t.content := by
      rw [content, content, empty, stored, List.flatten_cons, List.nil_append]
    rw [same, ← front, stored, List.length_cons]
    exact ⟨rfl, by omega⟩
  · cases requested
    rw [← front]
    have := List.length_pos_of_ne_nil empty
    exact ⟨rfl, by omega⟩

theorem content_of_tryRead_eq_none {size : ℕ} (h : self.tryRead size = none) :
    self.content = [] := by
  rw [tryRead, Option.map_eq_none_iff] at h
  split_ifs at h with empty
  unfold requestData at h
  split at h
  · rename_i stored
    rw [content, empty, stored]
    rfl
  · cases h

/-- The loop over `tryRead`; `none` when the packages end before `size` bytes are read. -/
def read (self : PkgInputStream) (size : ℕ) : Option (List UInt8) × PkgInputStream :=
  if _ : size = 0 then (some [], self)
  else
    match _ : self.tryRead size with
    | none => (none, self)
    | some (bytes, self') =>
      let rest := self'.read (size - bytes.length)
      (rest.1.map (bytes ++ ·), rest.2)
termination_by self.content.length + self.packages.length
decreasing_by exact (tryRead_spec ‹_› ‹_›).2.2

theorem read_zero (self : PkgInputStream) : self.read 0 = (some [], self) := by
  rw [read, dif_pos rfl]

theorem read_of_tryRead_eq_none {size : ℕ} (wanted : size ≠ 0) (h : self.tryRead size = none) :
    self.read size = (none, self) := by
  rw [read, dif_neg wanted]
  split
  · rfl
  · rename_i h'
    rw [h] at h'
    cases h'

theorem read_of_tryRead_eq_some {size : ℕ} {bytes : List UInt8} {self' : PkgInputStream}
    (wanted : size ≠ 0) (h : self.tryRead size = some (bytes, self')) :
    self.read size = ((self'.read (size - bytes.length)).1.map (bytes ++ ·),
      (self'.read (size - bytes.length)).2) := by
  rw [read, dif_neg wanted]
  split
  · rename_i h'
    rw [h] at h'
    cases h'
  · rename_i h'
    rw [h] at h'
    cases h'
    rfl

/-- Reading from packages is reading from their concatenation. -/
theorem read_spec (self : PkgInputStream) (size : ℕ) :
    (size ≤ self.content.length → (self.read size).1 = some (self.content.take size) ∧
      (self.read size).2.content = self.content.drop size) ∧
    (self.content.length < size → (self.read size).1 = none ∧ (self.read size).2.content = []) := by
  induction self, size using read.induct with
  | case1 self =>
    rw [read_zero]
    exact ⟨fun _ => ⟨rfl, rfl⟩, fun short => absurd short (Nat.not_lt_zero _)⟩
  | case2 self size wanted h =>
    have empty := content_of_tryRead_eq_none h
    rw [read_of_tryRead_eq_none wanted h, empty]
    exact ⟨fun le => absurd (Nat.le_zero.1 le) wanted, fun _ => ⟨rfl, rfl⟩⟩
  | case3 self size wanted bytes self' h ih =>
    obtain ⟨le, content, -⟩ := tryRead_spec h wanted
    rw [read_of_tryRead_eq_some wanted h, content, List.length_append]
    refine ⟨fun enough => ?_, fun short => ?_⟩
    · obtain ⟨bytes', rest⟩ := ih.1 (by omega)
      rw [bytes', rest, List.take_append, List.drop_append, List.take_of_length_le le,
        List.drop_of_length_le le]
      exact ⟨rfl, rfl⟩
    · obtain ⟨none, rest⟩ := ih.2 (by omega)
      rw [none, rest]
      exact ⟨rfl, rfl⟩

/-- A number, or `-1` when the packages end first. -/
def readIntegral (n : ℕ) (self : PkgInputStream) : BitVec (8 * n) × PkgInputStream :=
  ((self.read n).1.elim (-1) (toWord n), (self.read n).2)

theorem read_of_content {bytes rest : List UInt8} (h : self.content = bytes ++ rest) :
    (self.read bytes.length).1 = some bytes ∧ (self.read bytes.length).2.content = rest := by
  have := (self.read_spec bytes.length).1
  rw [h, List.length_append, List.take_left, List.drop_left] at this
  exact this (Nat.le_add_right _ _)

theorem readIntegral_of_content {n : ℕ} {x : BitVec (8 * n)} {rest : List UInt8}
    (h : self.content = ofWord x ++ rest) :
    (self.readIntegral n).1 = x ∧ (self.readIntegral n).2.content = rest := by
  have := read_of_content h
  rw [length_ofWord] at this
  rw [readIntegral, this.1]
  exact ⟨toWord_ofWord x, this.2⟩

theorem readIntegral_of_short {n : ℕ} (h : self.content.length < n) :
    (self.readIntegral n).1 = -1 ∧ (self.readIntegral n).2.content = [] := by
  obtain ⟨none, rest⟩ := (self.read_spec n).2 h
  rw [readIntegral, none]
  exact ⟨rfl, rest⟩

end PkgInputStream

/-! ## Framing -/

/-- `SocketWire::send`, up to the call of `put`. -/
def frame (rdId : BitVec (8 * 8)) (writer : Buffer → Buffer) : List UInt8 :=
  let buffer := (Buffer.ofSize 16).writeIntegral (0 : BitVec (8 * 4))
  let buffer := buffer.writeIntegral rdId
  let buffer := buffer.writeIntegral (0 : BitVec (8 * 2))
  let buffer := writer buffer
  let len := buffer.offset
  let buffer := buffer.rewind
  let buffer := buffer.writeIntegral (BitVec.ofNat (8 * 4) (len - 4))
  let buffer := buffer.setPosition len
  buffer.getRealArray

/-- What follows the length and the identifier of a message: the context and what was written. -/
def body (payload : List UInt8) : List UInt8 := ofWord (0 : BitVec (8 * 2)) ++ payload

/-- The bytes of a framed message. -/
def frameBytes (rdId : BitVec (8 * 8)) (payload : List UInt8) : List UInt8 :=
  ofWord (BitVec.ofNat (8 * 4) (8 + (body payload).length)) ++ (ofWord rdId ++ body payload)

theorem frame_eq {rdId : BitVec (8 * 8)} {writer : Buffer → Buffer} {payload : List UInt8}
    (appends : ∀ b : Buffer, b.Valid → (writer b).Valid ∧
      (writer b).written = b.written ++ payload) :
    frame rdId writer = frameBytes rdId payload := by
  have start : (Buffer.ofSize 16).Valid := Nat.zero_le _
  obtain ⟨valid, written⟩ := Buffer.write_spec start (ofWord (0 : BitVec (8 * 4)))
  obtain ⟨valid, written'⟩ := Buffer.write_spec valid (ofWord rdId)
  obtain ⟨valid, written''⟩ := Buffer.write_spec valid (ofWord (0 : BitVec (8 * 2)))
  obtain ⟨valid, all⟩ := appends _ valid
  rw [written'', written', written] at all
  simp only [frame, Buffer.writeIntegral]
  generalize writer _ = b at valid all ⊢
  have split : b.written =
      [] ++ ofWord (0 : BitVec (8 * 4)) ++ (ofWord rdId ++ body payload) := by
    rw [all, body]
    simp only [List.append_assoc]
    rfl
  have length : b.offset - 4 = 8 + (body payload).length := by
    have := congrArg List.length split
    rw [Buffer.length_written valid, List.nil_append, List.length_append, List.length_append,
      length_ofWord, length_ofWord] at this
    omega
  rw [length, frameBytes]
  generalize BitVec.ofNat (8 * 4) (8 + (body payload).length) = len
  have same : (ofWord len).length = (ofWord (0 : BitVec (8 * 4))).length := by
    rw [length_ofWord, length_ofWord]
  obtain ⟨valid, result⟩ := Buffer.overwrite_spec valid split same (List.cons_ne_nil _ _)
  exact (Buffer.getRealArray_eq valid).trans result

/-! ## Reading messages -/

/-- The receiving half of `SocketWire`, with the messages it has dispatched. -/
structure WireReader where
  receivePkg : PkgInputStream := {}
  sz : BitVec (8 * 4) := -1
  id : BitVec (8 * 8) := -1
  message : Buffer := Buffer.ofSize 16370
  dispatched : List (BitVec (8 * 8) × Buffer) := []
  deriving DecidableEq, Repr

namespace WireReader

variable (throws : BitVec (8 * 8) → Buffer → Bool) (self : WireReader)

/-- The result says whether the thread goes on to the next message. -/
def readAndDispatchMessage : WireReader × Bool :=
  let (sz, pkg) :=
    if self.sz = -1 then self.receivePkg.readIntegral 4 else (self.sz, self.receivePkg)
  if sz = -1 then ({ self with sz := sz, receivePkg := pkg }, false)
  else
    let (id, pkg) := if self.id = -1 then pkg.readIntegral 8 else (self.id, pkg)
    if id = -1 then ({ self with sz := sz, id := id, receivePkg := pkg }, false)
    else
      let sz := sz - 8
      -- a negative size throws
      if sz.toInt < 0 then ({ self with sz := sz, id := id, receivePkg := pkg }, false)
      else
        let message := self.message.requireAvailable sz.toNat
        match pkg.read sz.toNat with
        | (none, pkg) =>
          ({ self with sz := sz, id := id, message := message, receivePkg := pkg }, false)
        | (some bytes, pkg) =>
          let message : Buffer := { data := bytes ++ message.data.drop sz.toNat }
          let self : WireReader :=
            { receivePkg := pkg
              sz := sz
              id := id
              message := { data := [] }
              dispatched := self.dispatched ++ [(id, message)] }
          if throws id message then (self, false) else ({ self with sz := -1, id := -1 }, true)

/-- `receiverProc`, for at most `rounds` messages. -/
def receiverProc : ℕ → WireReader → WireReader
  | 0, self => self
  | rounds + 1, self =>
    match self.readAndDispatchMessage throws with
    | (self, true) => receiverProc rounds self
    | (self, false) => self

/-- Another connection, over which these packages are read. -/
def connect (packages : List (List UInt8)) : WireReader :=
  { self with receivePkg := { self.receivePkg with packages := packages } }

/-- One connection after another. -/
def overConnections (rounds : ℕ) (connections : List (List (List UInt8))) : WireReader :=
  connections.foldl (fun self packages => (self.connect packages).receiverProc throws rounds) self

/-- No message has been begun. -/
def Idle : Prop := self.sz = -1 ∧ self.id = -1

variable {throws self}

/-- What becomes of the length that stands in front of a message. -/
theorem length_spec {n : ℕ} (fits : 8 + n < 2 ^ 31) :
    BitVec.ofNat (8 * 4) (8 + n) ≠ -1 ∧ (BitVec.ofNat (8 * 4) (8 + n) - 8).toNat = n ∧
      ¬ (BitVec.ofNat (8 * 4) (8 + n) - 8).toInt < 0 := by
  have size : (BitVec.ofNat (8 * 4) (8 + n)).toNat = 8 + n := by
    rw [BitVec.toNat_ofNat]
    omega
  have less : (BitVec.ofNat (8 * 4) (8 + n) - 8).toNat = n := by
    rw [BitVec.toNat_sub_of_le, size]
    · exact Nat.add_sub_cancel_left 8 n
    · rw [BitVec.le_def, size]
      exact Nat.le_add_right 8 n
  refine ⟨fun same => ?_, less, ?_⟩
  · rw [same] at size
    have : (-1 : BitVec (8 * 4)).toNat = 2 ^ 32 - 1 := rfl
    omega
  · rw [BitVec.toInt_eq_toNat_cond, less]
    split_ifs <;> omega

theorem dispatch_frame (idle : self.Idle) {rdId : BitVec (8 * 8)} (proper : rdId ≠ -1)
    {payload rest : List UInt8} (fits : 8 + (body payload).length < 2 ^ 31)
    (returns : ∀ message, body payload <+: message.unread → throws rdId message = false)
    (h : self.receivePkg.content = frameBytes rdId payload ++ rest) :
    ∃ self' message, self.readAndDispatchMessage throws = (self', true) ∧ self'.Idle ∧
      self'.receivePkg.content = rest ∧ self'.dispatched = self.dispatched ++ [(rdId, message)] ∧
      body payload <+: message.unread := by
  obtain ⟨pkg, sz, id, message, dispatched⟩ := self
  obtain ⟨rfl, rfl⟩ : sz = -1 ∧ id = -1 := idle
  rw [frameBytes, List.append_assoc, List.append_assoc] at h
  obtain ⟨len, content⟩ := PkgInputStream.readIntegral_of_content h
  obtain ⟨addressee, content⟩ := PkgInputStream.readIntegral_of_content content
  obtain ⟨bytes, content⟩ := PkgInputStream.read_of_content content
  obtain ⟨read, less, positive⟩ := length_spec fits
  simp only [readAndDispatchMessage, if_true, len, read, if_false, addressee, proper, positive,
    less]
  generalize PkgInputStream.read _ (body payload).length = result at bytes content ⊢
  obtain ⟨_, rest'⟩ := result
  obtain rfl : _ = some (body payload) := bytes
  have whole (spare : List UInt8) :
      body payload <+: Buffer.unread { data := body payload ++ spare } := List.prefix_append _ _
  simp only [returns _ (whole _), Bool.false_eq_true, if_false]
  exact ⟨_, _, rfl, ⟨rfl, rfl⟩, content, rfl, whole _⟩

variable (throws) in
/-- The loop ends between two messages. -/
theorem stops_of_content_eq_nil (idle : self.Idle) (h : self.receivePkg.content = []) :
    ∃ self', self.readAndDispatchMessage throws = (self', false) ∧ self'.Idle ∧
      self'.receivePkg.content = [] ∧ self'.dispatched = self.dispatched := by
  obtain ⟨pkg, sz, id, message, dispatched⟩ := self
  obtain ⟨rfl, rfl⟩ : sz = -1 ∧ id = -1 := idle
  have short : pkg.content.length < 4 := by
    rw [h]
    decide
  obtain ⟨none, rest⟩ := PkgInputStream.readIntegral_of_short short
  simp only [readAndDispatchMessage, if_true, none]
  exact ⟨_, rfl, ⟨rfl, rfl⟩, rest, rfl⟩

end WireReader

/-- A message that can be sent: an addressee other than `-1`, and a function that writes a payload
whose length fits into the frame. -/
structure Message where
  rdId : BitVec (8 * 8)
  writer : Buffer → Buffer
  payload : List UInt8
  proper : rdId ≠ -1
  appends : ∀ b : Buffer, b.Valid → (writer b).Valid ∧ (writer b).written = b.written ++ payload
  fits : 8 + (body payload).length < 2 ^ 31

namespace Message

/-- What is put into the queue of the wire. -/
def bytes (m : Message) : List UInt8 := frame m.rdId m.writer

/-- The message arrives at its addressee, who finds its context and its payload in the buffer. -/
def Arrives (m : Message) (d : BitVec (8 * 8) × Buffer) : Prop :=
  d.1 = m.rdId ∧ body m.payload <+: d.2.unread

theorem bytes_eq (m : Message) : m.bytes = frameBytes m.rdId m.payload := frame_eq m.appends

end Message

namespace WireReader

variable {throws : BitVec (8 * 8) → Buffer → Bool}

/-- However the bytes of messages are cut into packages, the loop dispatches the messages one after
another, each to its addressee, and ends between two messages. -/
theorem receiverProc_spec (self : WireReader) (idle : self.Idle) (messages : List Message)
    (returns : ∀ m ∈ messages, ∀ d, m.Arrives d → throws d.1 d.2 = false)
    (h : self.receivePkg.content = messages.flatMap Message.bytes) {rounds : ℕ}
    (enough : messages.length < rounds) : ∃ dispatched,
    (self.receiverProc throws rounds).Idle ∧
      (self.receiverProc throws rounds).receivePkg.content = [] ∧
      (self.receiverProc throws rounds).dispatched = self.dispatched ++ dispatched ∧
      List.Forall₂ Message.Arrives messages dispatched := by
  induction messages generalizing self rounds with
  | nil =>
    obtain ⟨n, rfl⟩ := Nat.exists_eq_add_one.2 enough
    obtain ⟨self', stops, idle', content, same⟩ := stops_of_content_eq_nil throws idle h
    rw [receiverProc, stops]
    exact ⟨[], idle', content, by rw [List.append_nil, same], .nil⟩
  | cons m messages ih =>
    obtain ⟨n, rfl⟩ := Nat.exists_eq_add_one.2 (Nat.zero_lt_of_lt enough)
    rw [List.flatMap_cons, m.bytes_eq] at h
    obtain ⟨self', message, dispatches, idle', content, dispatched, arrives⟩ :=
      dispatch_frame idle m.proper m.fits
        (fun message whole => returns m List.mem_cons_self (m.rdId, message) ⟨rfl, whole⟩) h
    obtain ⟨rest, ends, used, later, all⟩ := ih self' idle'
      (fun m' hm' => returns m' (List.mem_cons_of_mem m hm')) content
      (Nat.lt_of_succ_lt_succ enough)
    rw [receiverProc, dispatches]
    refine ⟨(m.rdId, message) :: rest, ends, used, ?_, .cons ⟨rfl, arrives⟩ all⟩
    rw [later, dispatched, List.append_assoc]
    rfl

/-- A connection takes over where the one before it has ended. -/
theorem overConnections_spec (self : WireReader) (idle : self.Idle)
    (used : self.receivePkg.content = []) (connections : List (List (List UInt8)))
    (messages : List Message)
    (returns : ∀ m ∈ messages, ∀ d, m.Arrives d → throws d.1 d.2 = false)
    (h : connections.flatten = messages.map Message.bytes) {rounds : ℕ}
    (enough : messages.length < rounds) : ∃ dispatched,
    (self.overConnections throws rounds connections).dispatched = self.dispatched ++ dispatched ∧
      List.Forall₂ Message.Arrives messages dispatched := by
  induction connections generalizing self messages with
  | nil =>
    obtain rfl : messages = [] := List.map_eq_nil_iff.1 h.symm
    exact ⟨[], (List.append_nil _).symm, .nil⟩
  | cons packages connections ih =>
    rw [List.flatten_cons] at h
    obtain ⟨now, later, rfl, first, rest⟩ := List.map_eq_append_iff.1 h.symm
    have empty : self.receivePkg.buffer = [] := (List.append_eq_nil_iff.1 used).1
    have content : (self.connect packages).receivePkg.content = now.flatMap Message.bytes := by
      rw [List.flatMap_def, first, connect, PkgInputStream.content, empty, List.nil_append]
    rw [List.length_append] at enough
    have short : now.length < rounds := by omega
    obtain ⟨ds, idle', used', dispatched, arrive⟩ := receiverProc_spec (self.connect packages) idle
      now (fun m hm => returns m (List.mem_append_left _ hm)) content short
    obtain ⟨ds', dispatched', arrive'⟩ := ih _ idle' used' later
      (fun m hm => returns m (List.mem_append_right _ hm)) rest.symm (by omega)
    refine ⟨ds ++ ds', ?_, List.rel_append arrive arrive'⟩
    rw [← List.append_assoc]
    exact dispatched'.trans (congrArg (· ++ ds') dispatched)

end WireReader

/-! ## Over a whole wire -/

/-- What `read_package` hands to the stream: for a package that is not new the length is `1`. -/
def Delivery.toStream : Delivery (List UInt8) → List UInt8
  | .fresh p => p.2
  | .repeated p => p.2.take 1

theorem map_toStream {deliveries : List (Delivery (List UInt8))}
    (once : ∀ d ∈ deliveries, d.isFresh = true) :
    deliveries.map Delivery.toStream = deliveries.filterMap Delivery.accepted? := by
  induction deliveries with
  | nil => rfl
  | cons d deliveries ih =>
    rw [List.map_cons, ih fun d hd => once d (List.mem_cons_of_mem _ hd)]
    cases d with
    | fresh p => rfl
    | repeated p => cases once (.repeated p) List.mem_cons_self

/-- When new packages arrive in order and none arrives twice, and no handler throws on the receiving
thread, the messages that are dispatched are the first ones that were sent, each once and to its
addressee, however the packages that are read are spread over connections. -/
theorem delivered_eq_take {es : List (WireEvent (List UInt8))} {s : SocketWire (List UInt8)}
    (h : SocketWire.machine.Run es s) (order : SocketWire.machine.Along es SocketWire.InOrder)
    (messages : List Message) (puts : s.puts = messages.map Message.bytes)
    (once : ∀ d ∈ s.deliveries, d.isFresh = true)
    (connections : List (List (Delivery (List UInt8)))) (all : connections.flatten = s.deliveries)
    (throws : BitVec (8 * 8) → Buffer → Bool)
    (returns : ∀ m ∈ messages, ∀ d, m.Arrives d → throws d.1 d.2 = false) {rounds : ℕ}
    (enough : s.maxReceivedSeqn < rounds) :
    List.Forall₂ Message.Arrives (messages.take s.maxReceivedSeqn)
      (WireReader.overConnections throws {} rounds
        (connections.map (·.map Delivery.toStream))).dispatched := by
  have read : (connections.map (·.map Delivery.toStream)).flatten =
      (messages.take s.maxReceivedSeqn).map Message.bytes := by
    have accepted : s.deliveries.filterMap Delivery.accepted? = s.puts.take s.maxReceivedSeqn :=
      (SocketWire.orderInv_of_run h order).accepted
    rw [← List.map_flatten, all, map_toStream once, accepted, puts, List.map_take]
  have count : (messages.take s.maxReceivedSeqn).length < rounds :=
    Nat.lt_of_le_of_lt (List.length_take_le _ _) enough
  obtain ⟨dispatched, same, arrives⟩ := WireReader.overConnections_spec {}
    ⟨rfl, rfl⟩ rfl _ _ (fun m hm => returns m (List.mem_of_mem_take hm)) read count
  rw [same]
  exact arrives

/-- A message that consists of the given bytes. -/
def Message.ofBytes (rdId : BitVec (8 * 8)) (payload : List UInt8) (proper : rdId ≠ -1)
    (fits : 8 + (body payload).length < 2 ^ 31) : Message where
  rdId := rdId
  writer := fun b => b.write payload
  payload := payload
  proper := proper
  appends := fun _ valid => Buffer.write_spec valid payload
  fits := fits

def hello : Message := .ofBytes 7 [1, 2, 3] (by decide) (by decide)

def bye : Message := .ofBytes 8 [4] (by decide) (by decide)

/-- The second package is lost when the connection breaks, and arrives over the next one. -/
def lostOnce : List (WireEvent (List UInt8)) :=
  [.put hello.bytes, .put bye.bytes, .connect, .resume 0, .fetch, .startProcess, .processOne,
    .processOne, .processOne, .readPackage, .readAck, .disconnect 0 0, .pause, .connect, .resume 1,
    .readPackage]

theorem delivered_eq_take_lostOnce : ∃ s, SocketWire.machine.Run lostOnce s ∧
    s.deliveries = [.fresh (1, hello.bytes), .fresh (2, bye.bytes)] ∧
    List.Forall₂ Message.Arrives [hello, bye]
      (WireReader.overConnections (fun rdId _ => decide (rdId = 9)) {} 3
        [[hello.bytes], [bye.bytes]]).dispatched := by
  have run := SocketWire.machine.run_of_isSome lostOnce (by rfl)
  have order := SocketWire.machine.along_of_check SocketWire.InOrder lostOnce (by rfl)
  have returns : ∀ m ∈ [hello, bye], ∀ d, m.Arrives d → decide (d.1 = 9) = false := by
    intro m hm d arrives
    rw [arrives.1]
    rcases List.mem_pair.1 hm with rfl | rfl <;> rfl
  exact ⟨_, run, by decide +kernel, delivered_eq_take run order [hello, bye] rfl (by decide +kernel)
    [[.fresh (1, hello.bytes)], [.fresh (2, bye.bytes)]] (by decide +kernel) _ returns (by decide)⟩

/-- The first byte of a package that arrives twice is taken for the beginning of a message, and what
follows is not understood. -/
example : (WireReader.overConnections (fun _ _ => false) {} 3
    [[hello.bytes, hello.bytes.take 1, bye.bytes]]).dispatched.map Prod.fst = [7] := by
  decide +kernel

/-- When a handler throws, the next message is read with the numbers of the last one. -/
example : (WireReader.overConnections (fun rdId _ => decide (rdId = 7)) {} 3
    [[hello.bytes], [bye.bytes]]).dispatched.map Prod.fst = [7] := by
  decide +kernel

end CarpenterDemo.Rd
