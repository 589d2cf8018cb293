import FSystem.Zone.Boot

/-!
# A collection keeps what is live

A collection nothing interrupts may move and drop blocks.  What the pinned roots
reach and what the open write sets hold is read afterwards as it was before.
-/

namespace FSystem.Zone.System

open Abi Hash Blob

variable {g : Geometry}

/-- In every state a booted system reaches, whatever is pinned and whatever the
open write sets hold, a collection keeps every readable hash in the closure of the
pinned roots and every block of a write set; it does so whatever it answers. -/
theorem collect_preserves_live
    {start : System g}
    (booted : Booted start)
    (ops : List Op)
    (collector : Collector)
    (sized : collector.Sized g)
    (roots : Roots)
    (fuel : Nat) :
    let before := (Runs.run step start ops).store
    let after := (Collector.collect fuel collector before roots).2.2.1
    (∀ hash, Live before roots hash → ∀ (room : Nat) (content : Bytes),
        before.get hash room = .ok content → after.get hash room = .ok content) ∧
      ∀ (set : WriteSet) (blocks : List Nat), roots.transient[set]? = some blocks →
        ∀ block ∈ blocks,
          after.device.read block g.blockBytes = before.device.read block g.blockBytes := by
  intro before after
  have grounded : Grounded before := (run_sane booted ops).grounded
  obtain ⟨-, kept⟩ := Collector.collect_kept fuel roots grounded sized
  refine ⟨kept.live, ?_⟩
  intro set blocks held block member
  exact kept.transient block ((roots.mem_transientBlocks block).mpr ⟨set, blocks, held, member⟩)

/-- Of two chunks that share a zone one is pinned.  The zone is reclaimed: the
other chunk is gone, and the pinned one is read as before. -/
theorem collect_preserves_live_used :
    (Collector.collect 100 (Collector.new 80) (Runs.run step (around usedStore) [.pin (sha256
      [1])]).store (Runs.run step (around usedStore) [.pin (sha256 [1])]).roots).2.2.1.head (sha256
      [2]) = .error .address ∧
    (Collector.collect 100 (Collector.new 80)
        (Runs.run step (around usedStore) [.pin (sha256 [1])]).store
        (Runs.run step (around usedStore) [.pin (sha256 [1])]).roots).2.2.1.get (sha256 [1]) 1 =
      .ok [1] := by
  constructor
  · decide +kernel
  · exact (collect_preserves_live booted_used [.pin (sha256 [1])] (Collector.new 80) rfl _ 100).1
      (sha256 [1]) ⟨sha256 [1], by decide +kernel, .refl⟩ 1 [1] (by decide +kernel)

end FSystem.Zone.System
