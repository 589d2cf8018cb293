import FSystem.Blob.Store

/-!
# Extents

The second kind of object: pieces at fixed offsets, each a blob, a write replacing every
piece it touches.  The list of pieces is in its owner's memory, and a snapshot stores it.
-/

namespace FSystem.Blob

open Abi Hash

/-- The length of a piece of an extent this build creates. -/
def extentBytes : Nat := 2 ^ 20

/-- A quotient, rounded up. -/
def divCeil (left right : Nat) : Nat :=
  if 0 < left % right then left / right + 1 else left / right

/-- What a write or a snapshot cost. -/
structure Cost where
  pieces : Nat
  copied : Nat
  hashed : Nat
  deriving DecidableEq

namespace Cost

/-- Nothing spent. -/
def default : Cost := ⟨0, 0, 0⟩

/-- Two costs together; each count stops at the largest value of its type. -/
def and (self other : Cost) : Cost where
  pieces := min (self.pieces + other.pieces) (2 ^ 32 - 1)
  copied := min (self.copied + other.copied) (2 ^ 64 - 1)
  hashed := min (self.hashed + other.hashed) (2 ^ 64 - 1)

end Cost

/-- An extent, as its owner holds it.  Its pieces tile it. -/
structure Extent where
  extentBytes : Nat
  pieces : List Digest
  pieceBytes : Nat
  positive : 0 < pieceBytes
  tiled : pieces.length = divCeil extentBytes pieceBytes

namespace Store

variable {D : Type} [Device D]

/-- A list of chunks that is stored has as many hashes. -/
theorem putChunks_length {self after : Store D} {chunks : List Bytes} {hashes : List Digest}
    (stored : self.putChunks chunks = (.ok hashes, after)) : hashes.length = chunks.length := by
  induction chunks generalizing self hashes with
  | nil =>
    cases stored
    rfl
  | cons piece rest ih =>
    unfold putChunks at stored
    cases first : self.put Kind.chunk.code piece with
    | mk answer store =>
      rw [first] at stored
      cases answer with
      | error refusal => cases stored
      | ok hash =>
        dsimp only at stored
        cases others : store.putChunks rest with
        | mk answer last =>
          rw [others] at stored
          cases answer with
          | error refusal => cases stored
          | ok later =>
            cases stored
            rw [List.length_cons, List.length_cons, ih others]

end Store

namespace Extent

variable {D : Type} [Device D] (self : Extent) (store : Store D)

/-- Store the pieces of an extent, which tile it. -/
def ofPieces (extentBytes pieceBytes : Nat) (positive : 0 < pieceBytes) (chunks : List Bytes)
    (tiled : chunks.length = divCeil extentBytes pieceBytes) : Except Refusal Extent × Store D :=
  match stored : store.putChunks chunks with
  | (.error refusal, store) => (.error refusal, store)
  | (.ok hashes, store) =>
    (.ok {
      extentBytes := extentBytes
      pieces := hashes
      pieceBytes := pieceBytes
      positive := positive
      tiled := (Store.putChunks_length stored).trans tiled }, store)

/-- Write some bytes as the pieces of a new extent. -/
def create (bytes : Bytes) : Except Refusal Extent × Store D :=
  if piecesMax < divCeil bytes.length Blob.extentBytes then (.error .unknown, store)
  else
    ofPieces store bytes.length Blob.extentBytes (by decide)
      (Bytes.blocks Blob.extentBytes bytes (divCeil bytes.length Blob.extentBytes))
      (Bytes.length_blocks _ _ _)

/-- Resolve a published extent; the length of its pieces is that of the first one. -/
def openAt (hash : Digest) : Except Refusal Extent :=
  match store.head hash with
  | .error refusal => .error refusal
  | .ok header =>
    if header.kind ≠ .extent then .error .unknown
    else
      match store.get hash header.contentBytes.toNat with
      | .error refusal => .error refusal
      | .ok content =>
        if content.length < headBytes then .error .malformed
        else
          match ExtentHead.fromBytes (content.take headBytes) with
          | .error refusal => .error refusal
          | .ok head =>
            if head.bytes ≠ content.length then .error .malformed
            else
              let pieces := hashesAfter content headBytes head.pieces.toNat
              match pieces.head?.elim (.ok Blob.extentBytes) fun first =>
                  (store.head first).map fun header => header.contentBytes.toNat with
              | .error refusal => .error refusal
              | .ok pieceBytes =>
                if tiled : 0 < pieceBytes ∧
                    pieces.length = divCeil head.extentBytes.toNat pieceBytes then
                  .ok ⟨head.extentBytes.toNat, pieces, pieceBytes, tiled.1, tiled.2⟩
                else .error .malformed

/-- The hash of a piece.  The pieces tile the extent, so there is one at every index asked for. -/
def piece (index : Nat) : Digest := self.pieces.getD index .zero

/-- The extent with one piece replaced. -/
def setPiece (index : Nat) (hash : Digest) : Extent :=
  { self with
    pieces := self.pieces.set index hash
    tiled := by
      rw [List.length_set]
      exact self.tiled }

/-- A piece after a write of some bytes from `start` to `stop`: its share of them if they cover
it, else the old piece with its share written over it. -/
def rewritten (start stop : Nat) (bytes : Bytes) (index : Nat) : Except Refusal Bytes :=
  let pieceAt := index * self.pieceBytes
  let pieceLen := min (self.extentBytes - pieceAt) self.pieceBytes
  let first := max start pieceAt - pieceAt
  let last := min stop (pieceAt + pieceLen) - pieceAt
  let taken := pieceAt + first - start
  if first = 0 ∧ last = pieceLen then .ok (Bytes.slice bytes taken pieceLen)
  else
    match store.get (self.piece index) self.pieceBytes with
    | .error refusal => .error refusal
    | .ok read =>
      if read.length ≠ pieceLen then .error .malformed
      else .ok (Bytes.splice read first (Bytes.slice bytes taken (last - first)))

/-- Rewrite a number of pieces, from one on. -/
def writeFrom (start stop : Nat) (bytes : Bytes) :
    Nat → Nat → Extent → Store D → Cost → Except Refusal Cost × Extent × Store D
  | 0, _, self, store, cost => (.ok cost, self, store)
  | steps + 1, index, self, store, cost =>
    match self.rewritten store start stop bytes index with
    | .error refusal => (.error refusal, self, store)
    | .ok content =>
      match store.put Kind.chunk.code content with
      | (.error refusal, store) => (.error refusal, self, store)
      | (.ok hash, store) =>
        writeFrom start stop bytes steps (index + 1) (self.setPiece index hash) store
          (cost.and ⟨1, content.length, content.length⟩)

/-- Write some bytes over the extent, and say what it cost. -/
def write (start : Nat) (bytes : Bytes) : Except Refusal Cost × Extent × Store D :=
  let stop := start + bytes.length
  if 2 ^ 64 ≤ stop ∨ self.extentBytes < stop then (.error .address, self, store)
  else if bytes = [] then (.ok .default, self, store)
  else
    let first := start / self.pieceBytes
    let last := (stop - 1) / self.pieceBytes
    writeFrom start stop bytes (last + 1 - first) first self store .default

/-- Read the shares of a number of pieces, from one on. -/
def readFrom (store : Store D) (start stop : Nat) : Nat → Nat → Except Refusal Bytes
  | 0, _ => .ok []
  | steps + 1, index =>
    let pieceAt := index * self.pieceBytes
    match store.get (self.piece index) self.pieceBytes with
    | .error refusal => .error refusal
    | .ok piece =>
      let first := max start pieceAt - pieceAt
      let last := min stop (pieceAt + piece.length) - pieceAt
      match readFrom store start stop steps (index + 1) with
      | .error refusal => .error refusal
      | .ok rest => .ok (Bytes.slice piece first (last - first) ++ rest)

/-- Read a number of bytes of the extent. -/
def read (start length : Nat) : Except Refusal Bytes :=
  let stop := start + length
  if 2 ^ 64 ≤ stop ∨ self.extentBytes < stop then .error .address
  else if length = 0 then .ok []
  else
    let first := start / self.pieceBytes
    let last := (stop - 1) / self.pieceBytes
    match self.readFrom store start stop (last + 1 - first) first with
    | .error refusal => .error refusal
    | .ok bytes => if bytes.length ≠ length then .error .malformed else .ok bytes

/-- The content of a snapshot: a head, then the hashes of the pieces. -/
def content : Bytes :=
  let head : ExtentHead :=
    { extentBytes := UInt64.ofNat self.extentBytes
      pieces := UInt32.ofNat self.pieces.length }
  head.toBytes ++ self.pieces.flatMap Digest.bytes

/-- Publish the extent: store the list of its pieces, between two barriers. -/
def snapshot : Except Refusal (Digest × Cost) × Store D :=
  if 2 ^ 32 ≤ self.pieces.length then (.error .unknown, store)
  else
    match store.barrier with
    | (.error refusal, store) => (.error refusal, store)
    | (.ok (), store) =>
      match store.put Kind.extent.code self.content with
      | (.error refusal, store) => (.error refusal, store)
      | (.ok hash, store) =>
        match store.barrier with
        | (.error refusal, store) => (.error refusal, store)
        | (.ok (), store) => (.ok (hash, ⟨0, self.content.length, self.content.length⟩), store)

end Extent

end FSystem.Blob
