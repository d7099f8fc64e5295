import Mathlib.Data.List.Induction
import Amberchain.Base.LittleEndian
import Amberchain.Base.Memory

/-!
# Messages on the wire

A peer's bytes arrive in chunks of any size.  They are copied into the buffers of the message
that is being received, so how the stream is cut must not matter.  The sender keeps whole
messages in a queue and an offset into the first of them.
-/

namespace Amberchain.Net

structure CMessageHeader where
  pchMessageStart : Bytes
  pchCommand : Bytes
  nMessageSize : ℕ
  nChecksum : ℕ
deriving DecidableEq

def CMessageHeader.read (bytes : Bytes) : CMessageHeader where
  pchMessageStart := bytes.take 4
  pchCommand := (bytes.drop 4).take 12
  nMessageSize := getLE (bytes.drop 16) 4
  nChecksum := getLE (bytes.drop 20) 4

structure CNetMessage where
  in_data : Bool
  hdrbuf : Bytes
  hdr : CMessageHeader
  nHdrPos : ℕ
  vRecv : Bytes
  nDataPos : ℕ

def CNetMessage.new : CNetMessage where
  in_data := false
  hdrbuf := List.replicate 24 0
  hdr := ⟨[], [], 0, 0⟩
  nHdrPos := 0
  vRecv := []
  nDataPos := 0

def CNetMessage.complete (msg : CNetMessage) : Bool :=
  msg.in_data && msg.hdr.nMessageSize == msg.nDataPos

/-- The difference of two `unsigned int`. -/
def remaining (size position : ℕ) : ℕ :=
  (size + 2 ^ 32 - position) % 2 ^ 32

def resize (bytes : Bytes) (size : ℕ) : Bytes :=
  bytes.take size ++ List.replicate (size - bytes.length) 0

/-- A copy outside a buffer has no outcome.  The bytes of a header that was read stay in `hdrbuf`,
which nobody looks at again. -/
def CNetMessage.readHeader (maxSize : ℕ) (msg : CNetMessage) (pch : Bytes) :
    Option (CNetMessage × ℤ) := do
  let nCopy := min (remaining 24 msg.nHdrPos) pch.length
  let hdrbuf ← Memory.write msg.hdrbuf msg.nHdrPos (pch.take nCopy)
  let nHdrPos := (msg.nHdrPos + nCopy) % 2 ^ 32
  if nHdrPos < 24 then some ({ msg with hdrbuf, nHdrPos }, nCopy)
  else
    let hdr := CMessageHeader.read hdrbuf
    if maxSize < hdr.nMessageSize then some ({ msg with hdrbuf, nHdrPos, hdr }, -1)
    else some ({ msg with hdrbuf, nHdrPos, hdr, in_data := true }, nCopy)

def CNetMessage.readData (msg : CNetMessage) (pch : Bytes) : Option (CNetMessage × ℤ) := do
  let nCopy := min (remaining msg.hdr.nMessageSize msg.nDataPos) pch.length
  let behind := (msg.nDataPos + nCopy) % 2 ^ 32
  let vRecv := if msg.vRecv.length < behind then
      resize msg.vRecv (min msg.hdr.nMessageSize ((msg.nDataPos + nCopy + 256 * 1024) % 2 ^ 32))
    else msg.vRecv
  let vRecv ← Memory.write vRecv msg.nDataPos (pch.take nCopy)
  some ({ msg with vRecv, nDataPos := behind }, nCopy)

/-- The message that takes the next bytes, before the older ones.  The newest is first. -/
def openMessage : List CNetMessage → CNetMessage × List CNetMessage
  | [] => (.new, [])
  | last :: earlier => if last.complete then (.new, last :: earlier) else (last, earlier)

/-- One round of the loop in `ReceiveMsgBytes`. -/
def receiveRound (maxSize : ℕ) (vRecvMsg : List CNetMessage) (pch : Bytes) :
    Option (List CNetMessage × ℤ) := do
  let opened := openMessage vRecvMsg
  let took ← (if opened.1.in_data then opened.1.readData pch else opened.1.readHeader maxSize pch)
  some (took.1 :: opened.2, took.2)

/-- The queue after `ReceiveMsgBytes`, which is an error when it returns `false`. -/
def receiveMsgBytes (maxSize : ℕ) : ℕ → List CNetMessage → Bytes →
    Option (Except (List CNetMessage) (List CNetMessage))
  | _, vRecvMsg, [] => some (.ok vRecvMsg)
  | 0, _, _ :: _ => none
  | rounds + 1, vRecvMsg, pch => do
    let ⟨vRecvMsg, handled⟩ ← receiveRound maxSize vRecvMsg pch
    if handled < 0 then some (.error vRecvMsg)
    else receiveMsgBytes maxSize rounds vRecvMsg (pch.drop handled.toNat)

/-- The chunks one after the other.  The connection is closed at the first failure, and a call has
no more rounds than its chunk has bytes. -/
def receiveChunks (maxSize : ℕ) (vRecvMsg : List CNetMessage) :
    List Bytes → Option (Except (List CNetMessage) (List CNetMessage))
  | [] => some (.ok vRecvMsg)
  | chunk :: chunks => do
    match ← receiveMsgBytes maxSize chunk.length vRecvMsg chunk with
    | .error failed => some (.error failed)
    | .ok vRecvMsg => receiveChunks maxSize vRecvMsg chunks

structure Received where
  whole : List (CMessageHeader × Bytes)
  part : Bytes
deriving DecidableEq

def CNetMessage.bytes (msg : CNetMessage) : Bytes :=
  msg.hdrbuf.take msg.nHdrPos ++ msg.vRecv.take msg.nDataPos

def whole (vRecvMsg : List CNetMessage) : List (CMessageHeader × Bytes) :=
  vRecvMsg.map fun msg => (msg.hdr, msg.vRecv)

def received (vRecvMsg : List CNetMessage) : Received :=
  let opened := openMessage vRecvMsg
  ⟨whole opened.2, opened.1.bytes⟩

def sizeOf (bytes : Bytes) : ℕ :=
  (CMessageHeader.read (bytes.take 24)).nMessageSize

def settle (maxSize : ℕ) (earlier : List (CMessageHeader × Bytes)) (bytes : Bytes) :
    Except Received Received :=
  if bytes.length < 24 then .ok ⟨earlier, bytes⟩
  else if maxSize < sizeOf bytes then .error ⟨earlier, bytes⟩
  else if bytes.length = 24 + sizeOf bytes then
    .ok ⟨(CMessageHeader.read (bytes.take 24), bytes.drop 24) :: earlier, []⟩
  else .ok ⟨earlier, bytes⟩

def absorb (maxSize : ℕ) (state : Received) (byte : Byte) : Except Received Received :=
  settle maxSize state.whole (state.part ++ [byte])

/-- The bytes of a message that takes more of them. -/
def Unfinished (maxSize : ℕ) (bytes : Bytes) : Prop :=
  bytes.length < 24 ∨ sizeOf bytes ≤ maxSize ∧ bytes.length < 24 + sizeOf bytes

/-- The counters and buffers of a message agree. -/
structure CNetMessage.Good (maxSize : ℕ) (msg : CNetMessage) : Prop where
  hdrbuf : msg.hdrbuf.length = 24
  header : msg.in_data = false → msg.nHdrPos < 24 ∧ msg.nDataPos = 0 ∧ msg.vRecv = []
  data : msg.in_data = true → msg.nHdrPos = 24 ∧ msg.hdr = CMessageHeader.read msg.hdrbuf ∧
    msg.hdr.nMessageSize ≤ maxSize ∧ msg.nDataPos ≤ msg.vRecv.length ∧
    msg.vRecv.length ≤ msg.hdr.nMessageSize

structure Good (maxSize : ℕ) (vRecvMsg : List CNetMessage) : Prop where
  messages : ∀ msg ∈ vRecvMsg, msg.Good maxSize
  earlier : ∀ msg ∈ vRecvMsg.tail, msg.complete

theorem remaining_of_le {size position : ℕ} (hle : position ≤ size) (hsize : size < 2 ^ 32) :
    remaining size position = size - position := by
  have hsum : size + 2 ^ 32 - position = (size - position) + 2 ^ 32 := by
    omega
  rw [remaining, hsum, Nat.add_mod_right, Nat.mod_eq_of_lt]
  omega

theorem length_resize (bytes : Bytes) (size : ℕ) : (resize bytes size).length = size := by
  rw [resize, List.length_append, List.length_take, List.length_replicate]
  omega

theorem take_resize {bytes : Bytes} {size position : ℕ} (hbytes : position ≤ bytes.length)
    (hsize : position ≤ size) : (resize bytes size).take position = bytes.take position := by
  have htake : position ≤ (bytes.take size).length := by
    rw [List.length_take]
    omega
  rw [resize, List.take_append_of_le_length htake, List.take_take, min_eq_left hsize]

theorem write_take {memory block : Bytes} {position : ℕ}
    (hfits : position + block.length ≤ memory.length) :
    ∃ written, Memory.write memory position block = some written ∧
      written.length = memory.length ∧
      written.take (position + block.length) = memory.take position ++ block := by
  have hbounds : (0 : ℤ) ≤ position ∧ (position : ℤ) + block.length ≤ memory.length := by
    omega
  have hlength : (memory.take position ++ block).length = position + block.length := by
    rw [List.length_append, List.length_take, min_eq_left (by omega)]
  refine ⟨memory.take position ++ block ++ memory.drop (position + block.length), ?_, ?_, ?_⟩
  · rw [Memory.write, if_pos hbounds, Int.toNat_natCast]
  · rw [List.length_append, hlength, List.length_drop]
    omega
  rw [← hlength, List.take_left]

theorem exists_taken {pch : Bytes} {size position : ℕ} (hpch : pch ≠ []) (hlt : position < size)
    (hsize : size < 2 ^ 32) :
    ∃ taken : Bytes, taken ≠ [] ∧ taken <+: pch ∧
      min (remaining size position) pch.length = taken.length ∧ pch.take taken.length = taken ∧
      position + taken.length ≤ size ∧
      (position + taken.length) % 2 ^ 32 = position + taken.length := by
  have hpositive := List.length_pos_of_ne_nil hpch
  have hlength : (pch.take (min (remaining size position) pch.length)).length
      = min (size - position) pch.length := by
    rw [remaining_of_le hlt.le hsize, List.length_take, min_eq_left (min_le_right _ _)]
  refine ⟨pch.take (min (remaining size position) pch.length), ?_, List.take_prefix _ _, ?_⟩
  · refine List.ne_nil_of_length_pos ?_
    omega
  rw [hlength, remaining_of_le hlt.le hsize]
  exact ⟨rfl, rfl, by omega, Nat.mod_eq_of_lt (by omega)⟩

variable {maxSize : ℕ} {msg : CNetMessage} {pch : Bytes}

theorem sizeOf_append {bytes : Bytes} (hlong : 24 ≤ bytes.length) (more : Bytes) :
    sizeOf (bytes ++ more) = sizeOf bytes := by
  rw [sizeOf, List.take_append_of_le_length hlong, sizeOf]

theorem Unfinished.of_append {bytes more : Bytes} (h : Unfinished maxSize (bytes ++ more)) :
    Unfinished maxSize bytes := by
  by_cases hshort : bytes.length < 24
  · exact .inl hshort
  rw [Unfinished, List.length_append, sizeOf_append (not_lt.mp hshort)] at h
  right
  omega

theorem settle_unfinished {bytes : Bytes} (h : Unfinished maxSize bytes)
    (earlier : List (CMessageHeader × Bytes)) :
    settle maxSize earlier bytes = .ok ⟨earlier, bytes⟩ := by
  rw [settle]
  split_ifs with hshort hbig hwhole
  · rfl
  · cases h with
    | inl h => exact absurd h hshort
    | inr h => exact absurd hbig (not_lt.mpr h.1)
  · cases h with
    | inl h => exact absurd h hshort
    | inr h => exact absurd hwhole h.2.ne
  rfl

theorem absorb_unfinished {bytes part : Bytes} {earlier : List (CMessageHeader × Bytes)}
    (h : Unfinished maxSize (part ++ bytes)) :
    bytes.foldlM (absorb maxSize) ⟨earlier, part⟩ = .ok ⟨earlier, part ++ bytes⟩ := by
  induction bytes generalizing part with
  | nil =>
    rw [List.append_nil]
    rfl
  | cons byte rest ih =>
    have hsplit : part ++ byte :: rest = part ++ [byte] ++ rest := by
      rw [List.append_assoc, List.singleton_append]
    rw [hsplit] at h ⊢
    rw [List.foldlM_cons, absorb, settle_unfinished h.of_append]
    exact ih h

theorem absorb_settle {bytes part : Bytes} {earlier : List (CMessageHeader × Bytes)}
    (hbytes : bytes ≠ []) (h : Unfinished maxSize (part ++ bytes.dropLast)) :
    bytes.foldlM (absorb maxSize) ⟨earlier, part⟩ = settle maxSize earlier (part ++ bytes) := by
  have hlast := List.dropLast_append_getLast hbytes
  calc
    bytes.foldlM (absorb maxSize) ⟨earlier, part⟩
        = absorb maxSize ⟨earlier, part ++ bytes.dropLast⟩ (bytes.getLast hbytes) := by
      conv_lhs => rw [← hlast]
      rw [List.foldlM_append, absorb_unfinished h]
      exact bind_pure (absorb maxSize ⟨earlier, part ++ bytes.dropLast⟩ (bytes.getLast hbytes))
    _ = settle maxSize earlier (part ++ bytes) := by
      rw [absorb, List.append_assoc, hlast]

/-- The message after a call of `readHeader` or `readData` on a chunk. -/
structure Took (maxSize : ℕ) (msg : CNetMessage) (pch : Bytes) (next : CNetMessage)
    (handled : ℤ) : Prop where
  fits : handled ≤ pch.length
  bytes : ∃ taken : Bytes, taken ≠ [] ∧ taken <+: pch ∧ (0 ≤ handled → taken.length = handled) ∧
    Unfinished maxSize (msg.bytes ++ taken.dropLast) ∧ next.bytes = msg.bytes ++ taken
  next : 0 < handled ∧ next.Good maxSize ∨
    handled = -1 ∧ next.in_data = false ∧ next.bytes.length = 24 ∧ maxSize < sizeOf next.bytes

theorem CNetMessage.Good.length_bytes (hgood : msg.Good maxSize) :
    msg.bytes.length = msg.nHdrPos + msg.nDataPos := by
  rw [CNetMessage.bytes, List.length_append, List.length_take, List.length_take, hgood.hdrbuf]
  cases hdata : msg.in_data with
  | false =>
    obtain ⟨hpos, hzero, -⟩ := hgood.header hdata
    omega
  | true =>
    obtain ⟨hpos, -, -, hbehind, -⟩ := hgood.data hdata
    omega

theorem CNetMessage.Good.take_bytes (hgood : msg.Good maxSize) (hdata : msg.in_data = true) :
    msg.bytes = msg.hdrbuf ++ msg.vRecv.take msg.nDataPos ∧
      sizeOf msg.bytes = msg.hdr.nMessageSize := by
  obtain ⟨hpos, hhdr, -⟩ := hgood.data hdata
  have hbytes : msg.bytes = msg.hdrbuf ++ msg.vRecv.take msg.nDataPos := by
    rw [CNetMessage.bytes, hpos, ← hgood.hdrbuf, List.take_length]
  refine ⟨hbytes, ?_⟩
  rw [sizeOf, hbytes, ← hgood.hdrbuf, List.take_left, hhdr]

theorem CNetMessage.Good.settle_bytes (hgood : msg.Good maxSize) (earlier : List CNetMessage) :
    settle maxSize (whole earlier) msg.bytes = .ok (received (msg :: earlier)) := by
  have hlength := hgood.length_bytes
  cases hdata : msg.in_data with
  | false =>
    obtain ⟨hpos, hzero, -⟩ := hgood.header hdata
    have hopen : msg.complete = false := by
      rw [CNetMessage.complete, hdata, Bool.false_and]
    rw [settle, if_pos (by omega), received, openMessage, hopen]
    rfl
  | true =>
    obtain ⟨hpos, hhdr, hfits, hbehind, hsize⟩ := hgood.data hdata
    obtain ⟨hbytes, hsizeOf⟩ := hgood.take_bytes hdata
    rw [settle, if_neg (by omega), hsizeOf, if_neg (by omega)]
    by_cases hwhole : msg.hdr.nMessageSize = msg.nDataPos
    · have hcomplete : msg.complete = true := by
        rw [CNetMessage.complete, hdata, Bool.true_and, beq_iff_eq, hwhole]
      have hall : msg.nDataPos = msg.vRecv.length := by
        omega
      rw [if_pos (by omega), received, openMessage, hcomplete, hbytes, hall, List.take_length,
        ← hgood.hdrbuf, List.take_left, List.drop_left, ← hhdr]
      rfl
    have hopen : msg.complete = false := by
      rw [CNetMessage.complete, hdata, Bool.true_and, beq_eq_false_iff_ne]
      exact hwhole
    rw [if_neg (by omega), received, openMessage, hopen]
    rfl

theorem readHeader_took (hgood : msg.Good maxSize) (hdata : msg.in_data = false) (hpch : pch ≠ []) :
    ∃ next handled, msg.readHeader maxSize pch = some (next, handled) ∧
      Took maxSize msg pch next handled := by
  obtain ⟨hpos, hzero, hempty⟩ := hgood.header hdata
  obtain ⟨taken, hnonempty, hprefix, hlength, htaken, hinside, hmod⟩ :=
    exists_taken hpch hpos (by omega)
  have hpositive := List.length_pos_of_ne_nil hnonempty
  have hshorter := hprefix.length_le
  have hfits := hinside.trans_eq hgood.hdrbuf.symm
  obtain ⟨hdrbuf, hwrite, hsame, hcopied⟩ := write_take hfits
  have hsame := hsame.trans hgood.hdrbuf
  have hbytes : msg.bytes = msg.hdrbuf.take msg.nHdrPos := by
    rw [CNetMessage.bytes, hempty, List.take_nil, List.append_nil]
  have hbefore : msg.bytes.length = msg.nHdrPos := by
    rw [hgood.length_bytes, hzero, add_zero]
  have hopen : Unfinished maxSize (msg.bytes ++ taken.dropLast) := by
    left
    rw [List.length_append, hbefore, List.length_dropLast]
    omega
  have hafter : hdrbuf.take (msg.nHdrPos + taken.length) ++ msg.vRecv.take msg.nDataPos
      = msg.bytes ++ taken := by
    rw [hcopied, hempty, List.take_nil, List.append_nil, hbytes]
  rw [CNetMessage.readHeader, hlength, htaken, hwrite]
  simp only [Option.bind_eq_bind, Option.bind_some, hmod]
  split_ifs with hshort hbig
  · exact ⟨_, _, rfl, by omega, ⟨taken, hnonempty, hprefix, fun _ => rfl, hopen, hafter⟩,
      .inl ⟨by omega, hsame, fun _ => ⟨hshort, hzero, hempty⟩, fun h => by simp [hdata] at h⟩⟩
  · have hall : msg.bytes ++ taken = hdrbuf := by
      rw [← hafter, List.take_of_length_le (by omega), hempty, List.take_nil, List.append_nil]
    have hrejected : maxSize < sizeOf hdrbuf := by
      rwa [sizeOf, List.take_of_length_le hsame.le]
    rw [hall] at hafter
    refine ⟨_, _, rfl, by omega, ⟨taken, hnonempty, hprefix, nofun, hopen, ?_⟩,
      .inr ⟨rfl, hdata, ?_, ?_⟩⟩
    · exact hafter.trans hall.symm
    · exact (congrArg List.length hafter).trans hsame
    exact hrejected.trans_eq (congrArg sizeOf hafter.symm)
  have hfull : msg.nHdrPos + taken.length = 24 := by
    omega
  refine ⟨_, _, rfl, by omega, ⟨taken, hnonempty, hprefix, fun _ => rfl, hopen, hafter⟩,
    .inl ⟨by omega, hsame, nofun, fun _ => ⟨hfull, rfl, not_lt.mp hbig, ?_, ?_⟩⟩⟩
  · exact (Nat.le_of_eq hzero).trans (Nat.zero_le _)
  rw [hempty]
  exact Nat.zero_le _

theorem readData_took (hmax : maxSize + 256 * 1024 < 2 ^ 32) (hgood : msg.Good maxSize)
    (hdata : msg.in_data = true) (hopen : msg.complete = false) (hpch : pch ≠ []) :
    ∃ next handled, msg.readData pch = some (next, handled) ∧
      Took maxSize msg pch next handled := by
  obtain ⟨hpos, hhdr, hfits, hbehind, hsize⟩ := hgood.data hdata
  obtain ⟨-, hsizeOf⟩ := hgood.take_bytes hdata
  have hmore : msg.nDataPos < msg.hdr.nMessageSize := by
    rw [CNetMessage.complete, hdata, Bool.true_and, beq_eq_false_iff_ne] at hopen
    omega
  obtain ⟨taken, hnonempty, hprefix, hlength, htaken, hinside, hmod⟩ :=
    exists_taken hpch hmore (by omega)
  have hpositive := List.length_pos_of_ne_nil hnonempty
  have hshorter := hprefix.length_le
  set grown := if msg.vRecv.length < msg.nDataPos + taken.length then
      resize msg.vRecv (min msg.hdr.nMessageSize
        ((msg.nDataPos + taken.length + 256 * 1024) % 2 ^ 32))
    else msg.vRecv with hgrown
  have hroom : msg.nDataPos + taken.length ≤ grown.length ∧
      grown.length ≤ msg.hdr.nMessageSize ∧
      grown.take msg.nDataPos = msg.vRecv.take msg.nDataPos := by
    rw [hgrown]
    split
    · rw [Nat.mod_eq_of_lt (by omega), length_resize]
      exact ⟨by omega, min_le_left _ _, take_resize hbehind (by omega)⟩
    exact ⟨by omega, hsize, rfl⟩
  obtain ⟨vRecv, hwrite, hsame, hcopied⟩ := write_take hroom.1
  have hpartial : Unfinished maxSize (msg.bytes ++ taken.dropLast) := by
    have hlong := hgood.length_bytes
    right
    rw [sizeOf_append (by omega), hsizeOf, List.length_append, List.length_dropLast]
    omega
  have hafter : msg.hdrbuf.take msg.nHdrPos ++ vRecv.take (msg.nDataPos + taken.length)
      = msg.bytes ++ taken := by
    rw [hcopied, hroom.2.2, CNetMessage.bytes, List.append_assoc]
  rw [CNetMessage.readData, hlength, htaken]
  simp only [Option.bind_eq_bind, hmod, ← hgrown, hwrite, Option.bind_some]
  exact ⟨_, _, rfl, by omega,
    ⟨taken, hnonempty, hprefix, fun _ => rfl, hpartial, hafter⟩,
    .inl ⟨by omega, hgood.hdrbuf, fun h => by simp [hdata] at h,
      fun _ => ⟨hpos, hhdr, hfits, hroom.1.trans_eq hsame.symm, hsame.trans_le hroom.2.1⟩⟩⟩

/-- The queue after the call as the bytes that were read. -/
def seen : Except (List CNetMessage) (List CNetMessage) → Except Received Received
  | .ok vRecvMsg => .ok (received vRecvMsg)
  | .error failed => .error (received failed)

def Reads (maxSize : ℕ) (vRecvMsg : List CNetMessage) (bytes : Bytes)
    (outcome : Option (Except (List CNetMessage) (List CNetMessage))) : Prop :=
  ∃ result, outcome = some result ∧
    bytes.foldlM (absorb maxSize) (received vRecvMsg) = seen result ∧
    ∀ next, result = .ok next → Good maxSize next

theorem CNetMessage.good_new : CNetMessage.new.Good maxSize :=
  ⟨rfl, fun _ => ⟨by decide, rfl, rfl⟩, nofun⟩

variable {vRecvMsg : List CNetMessage}

theorem Good.openMessage (hgood : Good maxSize vRecvMsg) :
    (openMessage vRecvMsg).1.Good maxSize ∧ (openMessage vRecvMsg).1.complete = false ∧
      ∀ msg ∈ (openMessage vRecvMsg).2, msg.Good maxSize ∧ msg.complete := by
  cases vRecvMsg with
  | nil => exact ⟨CNetMessage.good_new, rfl, nofun⟩
  | cons last earlier =>
    obtain ⟨hlast, hmessages⟩ := List.forall_mem_cons.mp hgood.messages
    have hearlier : ∀ msg ∈ earlier, msg.Good maxSize ∧ msg.complete :=
      fun msg hmsg => ⟨hmessages msg hmsg, hgood.earlier msg hmsg⟩
    rw [Net.openMessage]
    split
    next hcomplete =>
      exact ⟨CNetMessage.good_new, rfl, List.forall_mem_cons.mpr ⟨⟨hlast, hcomplete⟩, hearlier⟩⟩
    next hopen => exact ⟨hlast, Bool.not_eq_true _ ▸ hopen, hearlier⟩

/-- A round takes at least one byte or fails, and reads what the bytes say. -/
theorem receiveRound_took (hmax : maxSize + 256 * 1024 < 2 ^ 32) (hgood : Good maxSize vRecvMsg)
    (hpch : pch ≠ []) :
    ∃ next handled, receiveRound maxSize vRecvMsg pch = some (next, handled) ∧
      (0 < handled ∧ handled ≤ pch.length ∧ Good maxSize next ∧
        (pch.take handled.toNat).foldlM (absorb maxSize) (received vRecvMsg)
          = .ok (received next) ∨
      handled < 0 ∧ pch.foldlM (absorb maxSize) (received vRecvMsg) = .error (received next)) := by
  obtain ⟨hmsg, hopen, hearlier⟩ := hgood.openMessage
  set msg := (openMessage vRecvMsg).1
  set earlier := (openMessage vRecvMsg).2
  have htook : ∃ next handled,
      (if msg.in_data then msg.readData pch else msg.readHeader maxSize pch)
        = some (next, handled) ∧ Took maxSize msg pch next handled := by
    split
    next hdata => exact readData_took hmax hmsg hdata hopen hpch
    next hdata => exact readHeader_took hmsg (Bool.not_eq_true _ ▸ hdata) hpch
  obtain ⟨next, handled, heq, htook⟩ := htook
  obtain ⟨taken, hnonempty, hprefix, hcount, hpartial, hbytes⟩ := htook.bytes
  have hread : taken.foldlM (absorb maxSize) (received vRecvMsg)
      = settle maxSize (whole earlier) next.bytes := by
    rw [hbytes]
    exact absorb_settle hnonempty hpartial
  have hround : receiveRound maxSize vRecvMsg pch = some (next :: earlier, handled) :=
    Option.bind_eq_some_iff.mpr ⟨_, heq, rfl⟩
  refine ⟨next :: earlier, handled, hround, ?_⟩
  rcases htook.next with ⟨hpos, hnext⟩ | ⟨rfl, hdata, hfull, hbig⟩
  · refine .inl ⟨hpos, htook.fits, ⟨?_, fun msg hmsg => (hearlier msg hmsg).2⟩, ?_⟩
    · exact List.forall_mem_cons.mpr ⟨hnext, fun msg hmsg => (hearlier msg hmsg).1⟩
    have hlength := hcount hpos.le
    rw [← hlength, Int.toNat_natCast, ← List.prefix_iff_eq_take.mp hprefix, hread]
    exact hnext.settle_bytes earlier
  have hrejected : settle maxSize (whole earlier) next.bytes
      = .error (received (next :: earlier)) := by
    have hopen : next.complete = false := by
      rw [CNetMessage.complete, hdata, Bool.false_and]
    rw [settle, if_neg hfull.not_lt, if_pos hbig, received, openMessage, hopen]
    rfl
  obtain ⟨-, rfl⟩ := hprefix
  refine .inr ⟨by decide, ?_⟩
  rw [List.foldlM_append, hread, hrejected]
  rfl

theorem receiveMsgBytes_reads (hmax : maxSize + 256 * 1024 < 2 ^ 32) :
    ∀ {rounds : ℕ} {vRecvMsg : List CNetMessage} {pch : Bytes}, Good maxSize vRecvMsg →
      pch.length ≤ rounds → Reads maxSize vRecvMsg pch (receiveMsgBytes maxSize rounds vRecvMsg pch)
  | rounds, vRecvMsg, [], hgood, _ => by
    refine ⟨.ok vRecvMsg, ?_, rfl, ?_⟩
    · cases rounds with
      | zero => rfl
      | succ rounds => rfl
    rintro next ⟨⟩
    exact hgood
  | 0, _, byte :: rest, _, hrounds => absurd hrounds (Nat.not_succ_le_zero _)
  | rounds + 1, vRecvMsg, byte :: rest, hgood, hrounds => by
    set pch := byte :: rest with hpch
    obtain ⟨next, handled, hround, htook⟩ :=
      receiveRound_took hmax hgood (show pch ≠ [] from List.cons_ne_nil _ _)
    rw [receiveMsgBytes.eq_def]
    simp only [hpch, Option.bind_eq_bind]
    rw [← hpch, hround, Option.bind_some]
    rcases htook with ⟨hpos, -, hnext, hread⟩ | ⟨hneg, hread⟩
    · rw [if_neg hpos.le.not_gt]
      have hrest : (pch.drop handled.toNat).length ≤ rounds := by
        rw [List.length_drop]
        omega
      obtain ⟨result, hresult, hreads, hends⟩ := receiveMsgBytes_reads hmax hnext hrest
      refine ⟨result, hresult, ?_, hends⟩
      rw [← List.take_append_drop handled.toNat pch, List.foldlM_append, hread]
      exact hreads
    rw [if_pos hneg]
    exact ⟨_, rfl, hread, nofun⟩

theorem receiveChunks_reads (hmax : maxSize + 256 * 1024 < 2 ^ 32) (hgood : Good maxSize vRecvMsg)
    (chunks : List Bytes) :
    Reads maxSize vRecvMsg chunks.flatten (receiveChunks maxSize vRecvMsg chunks) := by
  induction chunks generalizing vRecvMsg with
  | nil =>
    refine ⟨.ok vRecvMsg, rfl, rfl, ?_⟩
    rintro next ⟨⟩
    exact hgood
  | cons chunk chunks ih =>
    obtain ⟨result, hresult, hread, hends⟩ := receiveMsgBytes_reads hmax hgood (le_refl chunk.length)
    rw [receiveChunks, hresult, List.flatten_cons, Reads, List.foldlM_append, hread]
    cases result with
    | error failed => exact ⟨_, rfl, rfl, nofun⟩
    | ok next => exact ih (hends next rfl)

structure Outgoing where
  pchMessageStart : Bytes
  pchCommand : Bytes
  payload : Bytes
  length_pchMessageStart : pchMessageStart.length = 4
  length_pchCommand : pchCommand.length = 12

structure CNode where
  nSendSize : ℕ
  nSendOffset : ℕ
  vSendMsg : List Bytes
deriving DecidableEq

/-- The loop of `SocketSendData` with its assertions, and the bytes it hands over.  `sends` is what
the calls of `send` return, with zero for an error. -/
def sendLoop : List Bytes → List ℕ → ℕ → ℕ → Option (CNode × Bytes)
  | [], _, nSendOffset, nSendSize =>
    if nSendOffset = 0 ∧ nSendSize = 0 then some (⟨0, 0, []⟩, []) else none
  | data :: rest, sends, nSendOffset, nSendSize => do
    guard (nSendOffset < data.length)
    let left := data.drop nSendOffset
    let nBytes := min (sends.headD 0) left.length
    if nBytes = left.length then
      let sent ← sendLoop rest sends.tail 0 (nSendSize - data.length)
      some (sent.1, left ++ sent.2)
    else some (⟨nSendSize, nSendOffset + nBytes, data :: rest⟩, left.take nBytes)

def socketSendData (node : CNode) (sends : List ℕ) : Option (CNode × Bytes) :=
  sendLoop node.vSendMsg sends node.nSendOffset node.nSendSize

section Sender

variable (Hash : Bytes → Hash256)

def Outgoing.bytes (message : Outgoing) : Bytes :=
  message.pchMessageStart ++ message.pchCommand ++ putLE message.payload.length 4 ++
    putLE (Hash message.payload).toNat 4 ++ message.payload

/-- The message as a receiver should see it. -/
def Outgoing.sent (message : Outgoing) : CMessageHeader × Bytes :=
  (⟨message.pchMessageStart, message.pchCommand, message.payload.length,
    (Hash message.payload).toNat % 256 ^ 4⟩, message.payload)

def endMessage (node : CNode) (message : Outgoing) : CNode :=
  { node with
    vSendMsg := node.vSendMsg ++ [message.bytes Hash]
    nSendSize := node.nSendSize + (message.bytes Hash).length }

/-- A message is queued by `EndMessage`, which writes at once to an empty queue only.  Without one
the socket is writable. -/
def sendCall (node : CNode) : Option Outgoing × List ℕ → Option (CNode × Bytes)
  | (none, sends) => socketSendData node sends
  | (some message, sends) =>
    if node.vSendMsg = [] then socketSendData (endMessage Hash node message) sends
    else some (endMessage Hash node message, [])

def sendAll (node : CNode) : List (Option Outgoing × List ℕ) → Option (CNode × Bytes)
  | [] => some (node, [])
  | call :: calls => do
    let first ← sendCall Hash node call
    let rest ← sendAll first.1 calls
    some (rest.1, first.2 ++ rest.2)

def handedOver (calls : List (Option Outgoing × List ℕ)) : List Outgoing :=
  calls.filterMap (·.1)

/-- The counters of the queue agree with its messages. -/
structure CNode.Queued (node : CNode) : Prop where
  size : node.nSendSize = node.vSendMsg.flatten.length
  offset : ∀ data ∈ node.vSendMsg, data ≠ []
  first : node.nSendOffset = 0 ∨ node.nSendOffset < (node.vSendMsg.headD []).length

def CNode.pending (node : CNode) : Bytes :=
  node.vSendMsg.flatten.drop node.nSendOffset

theorem sendLoop_sent {vSendMsg : List Bytes} {sends : List ℕ} {nSendOffset nSendSize : ℕ}
    (hnode : CNode.Queued ⟨nSendSize, nSendOffset, vSendMsg⟩) :
    ∃ next sent, sendLoop vSendMsg sends nSendOffset nSendSize = some (next, sent) ∧
      next.Queued ∧ sent ++ next.pending = vSendMsg.flatten.drop nSendOffset := by
  induction vSendMsg generalizing sends nSendOffset nSendSize with
  | nil =>
    have hoffset : nSendOffset = 0 := by
      simpa using hnode.first
    have hempty : nSendOffset = 0 ∧ nSendSize = 0 := ⟨hoffset, hnode.size⟩
    rw [sendLoop, if_pos hempty]
    exact ⟨_, _, rfl, ⟨rfl, nofun, .inl rfl⟩, by rw [hoffset]; rfl⟩
  | cons data rest ih =>
    obtain ⟨hdata, hrest⟩ := List.forall_mem_cons.mp hnode.offset
    have hpositive := List.length_pos_of_ne_nil hdata
    have hinside : nSendOffset < data.length := by
      rcases hnode.first with hzero | hinside
      · exact hzero.trans_lt hpositive
      exact hinside
    have hsize : nSendSize = data.length + rest.flatten.length := by
      rw [← List.length_append, ← List.flatten_cons]
      exact hnode.size
    have hpending : (data :: rest).flatten.drop nSendOffset
        = data.drop nSendOffset ++ rest.flatten := by
      rw [List.flatten_cons, List.drop_append_of_le_length hinside.le]
    rw [sendLoop, guard, if_pos hinside, hpending]
    simp only [Option.pure_def, Option.bind_eq_bind, Option.bind_some]
    split
    · have hqueued : CNode.Queued ⟨nSendSize - data.length, 0, rest⟩ :=
        ⟨by rw [hsize, Nat.add_sub_cancel_left], hrest, .inl rfl⟩
      obtain ⟨next, sent, hloop, hnext, hsent⟩ := @ih sends.tail _ _ hqueued
      refine ⟨next, _, by rw [hloop]; rfl, hnext, ?_⟩
      rw [List.append_assoc, hsent, List.drop_zero]
    next hpart =>
      rw [List.length_drop] at hpart
      refine ⟨_, _, rfl, ⟨hnode.size, hnode.offset, .inr ?_⟩, ?_⟩
      · rw [List.headD_cons, List.length_drop]
        exact Nat.add_lt_of_lt_sub' (lt_of_le_of_ne (min_le_right _ _) hpart)
      rw [CNode.pending, ← List.drop_drop, hpending, List.drop_append_of_le_length,
        ← List.append_assoc, List.take_append_drop]
      rw [List.length_drop]
      omega

theorem CNode.Queued.endMessage {node : CNode} (hnode : node.Queued) (message : Outgoing) :
    (endMessage Hash node message).Queued ∧
      (Net.endMessage Hash node message).pending = node.pending ++ message.bytes Hash := by
  have hnonempty : message.bytes Hash ≠ [] := by
    intro hempty
    have hlength := congrArg List.length hempty
    simp [Outgoing.bytes] at hlength
  have hinside : node.nSendOffset ≤ node.vSendMsg.flatten.length ∧
      (node.nSendOffset = 0 ∨ node.nSendOffset
        < ((node.vSendMsg ++ [message.bytes Hash]).headD []).length) := by
    cases hqueue : node.vSendMsg with
    | nil =>
      have hzero : node.nSendOffset = 0 := by
        simpa [hqueue] using hnode.first
      exact ⟨hzero.trans_le (Nat.zero_le _), .inl hzero⟩
    | cons data rest =>
      have hfirst := hnode.first
      rw [hqueue] at hfirst
      refine ⟨?_, hfirst⟩
      rw [List.flatten_cons, List.length_append]
      rw [List.headD_cons] at hfirst
      omega
  have hflatten : (Net.endMessage Hash node message).vSendMsg.flatten
      = node.vSendMsg.flatten ++ message.bytes Hash := by
    rw [Net.endMessage, List.flatten_append, List.flatten_singleton]
  refine ⟨⟨?_, ?_, hinside.2⟩, ?_⟩
  · rw [hflatten, List.length_append, ← hnode.size]
    rfl
  · exact List.forall_mem_append.mpr ⟨hnode.offset, List.forall_mem_singleton.mpr hnonempty⟩
  rw [CNode.pending, hflatten]
  exact List.drop_append_of_le_length hinside.1

theorem sendCall_sent {node : CNode} (hnode : node.Queued) (call : Option Outgoing × List ℕ) :
    ∃ next sent, sendCall Hash node call = some (next, sent) ∧ next.Queued ∧
      sent ++ next.pending = node.pending ++ ((handedOver [call]).map (·.bytes Hash)).flatten := by
  obtain ⟨message, sends⟩ := call
  cases message with
  | none =>
    rw [show handedOver [(none, sends)] = [] from rfl, List.map_nil, List.flatten_nil,
      List.append_nil]
    exact sendLoop_sent hnode
  | some message =>
    obtain ⟨hqueued, hpending⟩ := hnode.endMessage Hash message
    rw [show handedOver [(some message, sends)] = [message] from rfl, List.map_singleton,
      List.flatten_singleton, ← hpending, sendCall]
    split
    · exact sendLoop_sent hqueued
    exact ⟨_, [], rfl, hqueued, rfl⟩

/-- What was sent and what waits is all that was handed over. -/
theorem sendAll_sent {node : CNode} (hnode : node.Queued)
    (calls : List (Option Outgoing × List ℕ)) :
    ∃ next sent, sendAll Hash node calls = some (next, sent) ∧ next.Queued ∧
      sent ++ next.pending
        = node.pending ++ ((handedOver calls).map (·.bytes Hash)).flatten := by
  induction calls generalizing node with
  | nil => exact ⟨node, [], rfl, hnode, (List.append_nil _).symm⟩
  | cons call calls ih =>
    obtain ⟨first, sent, hcall, hfirst, hsent⟩ := sendCall_sent Hash hnode call
    obtain ⟨next, rest, hcalls, hnext, hrest⟩ := ih hfirst
    have hall : handedOver (call :: calls) = handedOver [call] ++ handedOver calls := by
      rw [handedOver, ← List.singleton_append, List.filterMap_append]
      rfl
    refine ⟨next, sent ++ rest, ?_, hnext, ?_⟩
    · rw [sendAll, hcall, Option.bind_eq_bind, Option.bind_some, hcalls]
      rfl
    rw [List.append_assoc, hrest, ← List.append_assoc, hsent, hall, List.map_append,
      List.flatten_append, List.append_assoc]

theorem Outgoing.absorb_bytes (hmax : maxSize + 256 * 1024 < 2 ^ 32) {message : Outgoing}
    (hsize : message.payload.length ≤ maxSize) (earlier : List (CMessageHeader × Bytes)) :
    (message.bytes Hash).foldlM (absorb maxSize) ⟨earlier, []⟩
      = .ok ⟨message.sent Hash :: earlier, []⟩ := by
  set header := message.pchMessageStart ++ message.pchCommand ++ putLE message.payload.length 4 ++
    putLE (Hash message.payload).toNat 4
  have hheader : header.length = 24 := by
    simp [header, message.length_pchMessageStart, message.length_pchCommand]
  have hread : CMessageHeader.read header = (message.sent Hash).1 := by
    have hsmall : message.payload.length < 256 ^ 4 := by
      omega
    rw [CMessageHeader.read, show 20 = 16 + 4 from rfl, ← List.drop_drop,
      show 16 = 4 + 12 from rfl, ← List.drop_drop]
    simp only [header, List.append_assoc, List.take_left' message.length_pchMessageStart,
      List.drop_left' message.length_pchMessageStart, List.take_left' message.length_pchCommand,
      List.drop_left' message.length_pchCommand, getLE_putLE hsmall, drop_putLE]
    rw [← List.append_nil (putLE _ 4), getLE_putLE_append, Outgoing.sent]
  have hbytes : message.bytes Hash = header ++ message.payload := rfl
  have hsizeOf : ∀ part, sizeOf (header ++ part) = message.payload.length := by
    intro part
    rw [sizeOf, ← hheader, List.take_left, hread]
    rfl
  have hpartial : Unfinished maxSize ((message.bytes Hash).dropLast) := by
    rw [hbytes]
    by_cases hempty : message.payload = []
    · left
      rw [hempty, List.append_nil, List.length_dropLast, hheader]
      decide
    have hpositive := List.length_pos_of_ne_nil hempty
    right
    rw [List.dropLast_append_of_ne_nil hempty, hsizeOf, List.length_append, List.length_dropLast]
    omega
  have hnonempty : message.bytes Hash ≠ [] := by
    refine List.ne_nil_of_length_pos ?_
    rw [hbytes, List.length_append]
    omega
  rw [absorb_settle hnonempty hpartial, List.nil_append, hbytes, settle, hsizeOf,
    List.length_append, if_neg (by omega), if_neg hsize.not_gt, if_pos (by rw [hheader]),
    ← hheader, List.take_left, List.drop_left, hread]
  rfl

theorem absorb_messages (hmax : maxSize + 256 * 1024 < 2 ^ 32) {messages : List Outgoing}
    (hsize : ∀ message ∈ messages, message.payload.length ≤ maxSize)
    (earlier : List (CMessageHeader × Bytes)) :
    ((messages.map (·.bytes Hash)).flatten).foldlM (absorb maxSize) ⟨earlier, []⟩
      = .ok ⟨(messages.map (·.sent Hash)).reverse ++ earlier, []⟩ := by
  induction messages generalizing earlier with
  | nil => rfl
  | cons message messages ih =>
    obtain ⟨hmessage, hmessages⟩ := List.forall_mem_cons.mp hsize
    rw [List.map_cons, List.flatten_cons, List.foldlM_append,
      Outgoing.absorb_bytes Hash hmax hmessage, List.map_cons, List.reverse_cons, List.append_assoc]
    exact ih hmessages _

end Sender

theorem absorb_suffix {state next : Received} {bytes : Bytes}
    (hread : bytes.foldlM (absorb maxSize) state = .ok next) : state.whole <:+ next.whole := by
  induction bytes generalizing state with
  | nil =>
    cases hread
    exact List.suffix_rfl
  | cons byte rest ih =>
    rw [List.foldlM_cons] at hread
    cases hbyte : absorb maxSize state byte with
    | error failed =>
      rw [hbyte] at hread
      cases hread
    | ok mid =>
      rw [hbyte] at hread
      refine List.IsSuffix.trans ?_ (ih hread)
      rw [absorb, settle] at hbyte
      split_ifs at hbyte <;> cases hbyte <;> simp

def ping : Outgoing :=
  ⟨List.replicate 4 0, List.replicate 12 0, [], rfl, rfl⟩

end Amberchain.Net
