/-
The private frames between a daemon and its session workers: eight bytes
of lengths, a JSON header, a payload.

# The decoder

It keeps the chunks the socket delivered, skips spent ones by a cursor
(`head`) and splices them away once there are enough. A frame's bytes are
copied out of the chunks when the frame is complete.

A header is a JSON value; which headers are routing headers is the
caller's `validateHeader`. The text of a `SyntaxError` is the engine's
and is left out of `invalidHeaderJson`.
-/
import OneHarness.Lib.Utf8
import OneHarness.Lib.Json.Basic
import Mathlib.Algebra.Group.Nat.Defs

namespace OneHarness.Wire

open Lib

def framePrefixBytes : Nat := 8

/-- Minimum spent entries before compaction splices the consumed prefix
away. -/
def pendingCompactionMinHead : Nat := 32

structure PrivateFrameLimits where
  maxHeaderBytes : Nat
  maxPayloadBytes : Nat

def defaultPrivateFrameLimits : PrivateFrameLimits where
  maxHeaderBytes := 1024 * 1024
  maxPayloadBytes := 1024 * 1024 * 1024

structure PrivateFrame where
  header : Json
  payload : List UInt8

inductive FrameError where
  /-- `Invalid private frame ${name}: ${value}`. -/
  | invalidLength (name : String) (value : Nat)
  /-- `Private frame header cannot be empty`. -/
  | emptyHeader
  /-- The `RangeError` of `writeUInt32BE`. -/
  | outOfRange (value : Nat)
  /-- `Invalid private frame header JSON: …`. -/
  | invalidHeaderJson
  /-- `Invalid private frame routing header`. -/
  | invalidRoutingHeader
  /-- `Private frame channel ended with ${unreadBytes} incomplete bytes`. -/
  | incomplete (unreadBytes : Nat)
deriving DecidableEq

def maxSafeInteger : Nat := 2 ^ 53 - 1

def assertFrameLength (name : String) (value maximum : Nat) :
    Except FrameError Unit :=
  if value ≤ maxSafeInteger ∧ value ≤ maximum then .ok ()
  else .error (.invalidLength name value)

def isObjectHeader : Json → Bool
  | .obj _ => true
  | _ => false

-- ======== the encoder

/-- `buffer.writeUInt32BE(value)`. -/
def writeUInt32BE (value : Nat) : Except FrameError (List UInt8) :=
  if value < 2 ^ 32 then
    .ok [UInt8.ofNat (value / 2 ^ 24), UInt8.ofNat (value / 2 ^ 16),
      UInt8.ofNat (value / 2 ^ 8), UInt8.ofNat value]
  else .error (.outOfRange value)

/-- `buffer.readUInt32BE(offset)`. -/
def readUInt32BE (buffer : List UInt8) (offset : Nat) : Nat :=
  let byte := fun i => (buffer.getD (offset + i) 0).toNat
  ((byte 0 * 2 ^ 8 + byte 1) * 2 ^ 8 + byte 2) * 2 ^ 8 + byte 3

def encodePrivateFrame (limits : PrivateFrameLimits) (frame : PrivateFrame) :
    Except FrameError (List UInt8) := do
  let header := Utf8.encode frame.header.stringify
  assertFrameLength "header length" header.length limits.maxHeaderBytes
  assertFrameLength "payload length" frame.payload.length
    limits.maxPayloadBytes
  if header.length = 0 then .error .emptyHeader
  else
    let headerLength ← writeUInt32BE header.length
    let payloadLength ← writeUInt32BE frame.payload.length
    return headerLength ++ payloadLength ++ header ++ frame.payload

-- ======== the decoder

structure PrivateFrameDecoder where
  pending : List (List UInt8)
  unreadBytes : Nat
  /-- Index of the first chunk still holding unread bytes; entries before
  it are spent. -/
  head : Nat
  /-- Bytes already consumed within `pending[head]`. -/
  offset : Nat

namespace PrivateFrameDecoder

def new : PrivateFrameDecoder := ⟨[], 0, 0, 0⟩

def bufferedBytes (decoder : PrivateFrameDecoder) : Nat := decoder.unreadBytes

/-- The usable chunks: from `head` on, the first without what is consumed
of it. -/
def usable (decoder : PrivateFrameDecoder) : List (List UInt8) :=
  match decoder.pending.drop decoder.head with
  | [] => []
  | chunk :: rest => chunk.drop decoder.offset :: rest

/-- The parts of `[start, endExclusive)` in the chunks from `position`
on. -/
def parts (start endExclusive : Nat) : Nat → List (List UInt8) → List (List UInt8)
  | _, [] => []
  | position, chunk :: rest =>
    if position < endExclusive then
      let chunkEnd := position + chunk.length
      let later := parts start endExclusive chunkEnd rest
      if start < chunkEnd then
        ((chunk.take (min endExclusive chunkEnd - position)).drop
          (max start position - position)) :: later
      else later
    else []

/-- `Buffer.concat(list, totalLength)`. -/
def concat (list : List (List UInt8)) (totalLength : Nat) : List UInt8 :=
  list.flatten.take totalLength
    ++ List.replicate (totalLength - list.flatten.length) 0

/-- Copy `[start, endExclusive)` of the unread bytes across pending
chunks. -/
def slice (decoder : PrivateFrameDecoder) (start endExclusive : Nat) :
    List UInt8 :=
  match parts start endExclusive 0 decoder.usable with
  | [part] => part
  | list => concat list (endExclusive - start)

/-- Advance the cursor over the chunks that `offset` has passed. -/
def skipSpent : List (List UInt8) → Nat → Nat → Nat × Nat
  | [], head, offset => (head, offset)
  | chunk :: rest, head, offset =>
    if chunk.length ≤ offset then
      skipSpent rest (head + 1) (offset - chunk.length)
    else (head, offset)

def consume (decoder : PrivateFrameDecoder) (count : Nat) :
    PrivateFrameDecoder :=
  let unreadBytes := decoder.unreadBytes - count
  let (head, offset) := skipSpent (decoder.pending.drop decoder.head)
    decoder.head (decoder.offset + count)
  if head = decoder.pending.length then ⟨[], unreadBytes, 0, 0⟩
  else if pendingCompactionMinHead ≤ head
      ∧ decoder.pending.length ≤ head * 2 then
    ⟨decoder.pending.drop head, unreadBytes, 0, offset⟩
  else ⟨decoder.pending, unreadBytes, head, offset⟩

variable (validateHeader : Json → Bool) (limits : PrivateFrameLimits)

/-- The frame at the front of the unread bytes and its length, or `none`
when it is not complete. -/
def nextFrame (decoder : PrivateFrameDecoder) :
    Except FrameError (Option (PrivateFrame × Nat)) := do
  if decoder.unreadBytes < framePrefixBytes then .ok none
  else
    let lengths := decoder.slice 0 framePrefixBytes
    let headerLength := readUInt32BE lengths 0
    let payloadLength := readUInt32BE lengths 4
    assertFrameLength "header length" headerLength limits.maxHeaderBytes
    assertFrameLength "payload length" payloadLength limits.maxPayloadBytes
    if headerLength = 0 then .error .emptyHeader
    else
      let frameLength := framePrefixBytes + headerLength + payloadLength
      if decoder.unreadBytes < frameLength then .ok none
      else
        let payloadStart := framePrefixBytes + headerLength
        match Json.parse
            (Utf8.decode (decoder.slice framePrefixBytes payloadStart)) with
        | none => .error .invalidHeaderJson
        | some decoded =>
          if !isObjectHeader decoded || !validateHeader decoded then
            .error .invalidRoutingHeader
          else
            .ok (some (⟨decoded, decoder.slice payloadStart frameLength⟩,
              frameLength))

/-- The loop of `push`; every turn but the last consumes a frame, so that
the number of unread bytes bounds the turns. -/
def takeFrames : Nat → PrivateFrameDecoder → List PrivateFrame →
    Except FrameError (List PrivateFrame) × PrivateFrameDecoder
  | 0, decoder, frames => (.ok frames, decoder)
  | turns + 1, decoder, frames =>
    match decoder.nextFrame validateHeader limits with
    | .error e => (.error e, decoder)
    | .ok none => (.ok frames, decoder)
    | .ok (some (frame, frameLength)) =>
      takeFrames turns (decoder.consume frameLength) (frames ++ [frame])

/-- Keep a chunk, unless it is empty. -/
def keep (decoder : PrivateFrameDecoder) (chunk : List UInt8) :
    PrivateFrameDecoder :=
  if 0 < chunk.length then
    { decoder with
      pending := decoder.pending ++ [chunk]
      unreadBytes := decoder.unreadBytes + chunk.length }
  else decoder

def push (decoder : PrivateFrameDecoder) (chunk : List UInt8) :
    Except FrameError (List PrivateFrame) × PrivateFrameDecoder :=
  let decoder := decoder.keep chunk
  takeFrames validateHeader limits decoder.unreadBytes decoder []

def finish (decoder : PrivateFrameDecoder) : Except FrameError Unit :=
  if decoder.unreadBytes ≠ 0 then .error (.incomplete decoder.unreadBytes)
  else .ok ()

/-- One `push` after the other, until one fails. -/
def pushAll : PrivateFrameDecoder → List (List UInt8) →
    Except FrameError (List PrivateFrame) × PrivateFrameDecoder
  | decoder, [] => (.ok [], decoder)
  | decoder, chunk :: chunks =>
    match decoder.push validateHeader limits chunk with
    | (.error e, decoder) => (.error e, decoder)
    | (.ok frames, decoder) =>
      let (later, decoder) := pushAll decoder chunks
      (later.map (frames ++ ·), decoder)

end PrivateFrameDecoder
end OneHarness.Wire
