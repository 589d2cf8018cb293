import FSystem.Library.Bytes

/-!
# Splittable streams

The generator the chunker's gear table and mask are drawn from: a finaliser, a
label hash, and a counter-based stream with a warm-up.
-/

namespace FSystem.Env

/-- The increment between the three seeds of a stream. -/
def golden : UInt64 := 0x9E3779B97F4A7C15

/-- The finaliser every seed goes through. -/
def mix (seed : UInt64) : UInt64 :=
  let first := (seed ^^^ (seed >>> 30)) * 0xBF58476D1CE4E5B9
  let second := (first ^^^ (first >>> 27)) * 0x94D049BB133111EB
  second ^^^ (second >>> 31)

/-- The 64-bit identity of a name. -/
def label (name : Bytes) : UInt64 :=
  name.foldl (fun hash byte => (hash ^^^ byte.toUInt64) * 0x00000100000001b3) 0xcbf29ce484222325

/-- A stream in progress. -/
structure Stream where
  a : UInt64
  b : UInt64
  c : UInt64
  counter : UInt64

namespace Stream

/-- Rotate a 64-bit word left. -/
def rotateLeft (word amount : UInt64) : UInt64 :=
  (word <<< amount) ||| (word >>> (64 - amount))

/-- The next word, and the stream after it. -/
def nextU64 (self : Stream) : UInt64 × Stream :=
  let out := self.a + self.b + self.counter
  (out, {
    a := self.b ^^^ (self.b >>> 11)
    b := self.c + (self.c <<< 3)
    c := rotateLeft self.c 24 + out
    counter := self.counter + 1 })

/-- The words thrown away before the first one is used. -/
def warmup : Nat := 12

/-- The stream of a seed. -/
def fromSeed (seed : UInt64) : Stream :=
  let first := seed + golden
  let second := first + golden
  let third := second + golden
  (List.range warmup).foldl (fun stream _ => stream.nextU64.2)
    { a := mix first, b := mix second, c := mix third, counter := 1 }

end Stream

end FSystem.Env
