import SolidField.Json.Geometry
import SolidField.Subdivision.Block
import SolidField.Subdivision.Level

/-!
# Settings and blocks in JSON

The settings are records whose missing fields have their default values.
-/

namespace SolidField

namespace CompileConfig

def toJson (config : CompileConfig) : Json :=
  .ofFields
    [ ("random_passes", .ofNat config.randomPasses),
      ("seed", .ofNat config.seed.toNat),
      ("max_registers", .ofNat config.maxRegisters) ]

def ofJson? (depth : Nat) (value : Json) : Option CompileConfig := do
  let _ ← Json.enter? depth
  let [randomPasses, seed, maxRegisters] ←
    value.fields? ["random_passes", "seed", "max_registers"] | none
  let default : CompileConfig := {}
  let count := Json.natural? UInt64.size
  pure
    { randomPasses := ← Json.orElse default.randomPasses count randomPasses
      seed := UInt64.ofNat (← Json.orElse default.seed.toNat count seed)
      maxRegisters := ← Json.orElse default.maxRegisters count maxRegisters }

end CompileConfig

namespace SubdivisionConfig

def toJson (config : SubdivisionConfig) : Json :=
  .ofFields
    [ ("resolution", .ofSingle config.resolution),
      ("lattice_size", .ofNat config.latticeSize.toNat),
      ("overlap_edge_samples", .bool config.overlapEdgeSamples),
      ("level_size_multiplier", .ofNat config.levelSizeMultiplier.toNat),
      ("record_uniform_cells", .bool config.recordUniformCells),
      ("compile", config.compile.toJson) ]

def ofJson? (depth : Nat) (value : Json) : Option SubdivisionConfig := do
  let depth ← Json.enter? depth
  let [resolution, latticeSize, overlap, multiplier, record, compile] ←
    value.fields?
      [ "resolution", "lattice_size", "overlap_edge_samples",
        "level_size_multiplier", "record_uniform_cells", "compile" ] | none
  let default : SubdivisionConfig := {}
  pure
    { resolution := ← Json.orElse default.resolution Json.single? resolution
      latticeSize := ← Json.orElse default.latticeSize Json.word? latticeSize
      overlapEdgeSamples :=
        ← Json.orElse default.overlapEdgeSamples Json.bool? overlap
      levelSizeMultiplier :=
        ← Json.orElse default.levelSizeMultiplier Json.word? multiplier
      recordUniformCells :=
        ← Json.orElse default.recordUniformCells Json.bool? record
      compile :=
        ← Json.orElse default.compile (CompileConfig.ofJson? depth) compile }

end SubdivisionConfig

namespace LevelSize

def toJson (level : LevelSize) : Json :=
  .ofFields
    [ ("cell_size", .ofNat level.cellSize),
      ("lattice", level.lattice.wordsToJson) ]

def ofJson? (depth : Nat) (value : Json) : Option LevelSize := do
  let depth ← Json.enter? depth
  let [cellSize, lattice] ← value.record? ["cell_size", "lattice"] | none
  pure ⟨← cellSize.natural? UInt64.size, ← Vec3.wordsOfJson? depth lattice⟩

end LevelSize

namespace LeafBlock

def toJson (block : LeafBlock) : Json :=
  .ofFields
    [ ("corner", block.corner.toJson),
      ("spacing", .ofSingle block.spacing),
      ("lattice", block.lattice.wordsToJson),
      ("overlap", .bool block.overlap),
      ("planar", .bool block.planar) ]

def ofJson? (depth : Nat) (value : Json) : Option LeafBlock := do
  let depth ← Json.enter? depth
  let [corner, spacing, lattice, overlap, planar] ←
    value.record? ["corner", "spacing", "lattice", "overlap", "planar"] | none
  pure
    { corner := ← Vec3.ofJson? depth corner
      spacing := ← spacing.single?
      lattice := ← Vec3.wordsOfJson? depth lattice
      overlap := ← overlap.bool?
      planar := ← planar.bool? }

end LeafBlock

namespace UniformBlock

def toJson (block : UniformBlock) : Json :=
  .ofFields
    [ ("corner", block.corner.toJson),
      ("size", .ofSingle block.size),
      ("inside", .bool block.inside),
      ("planar", .bool block.planar) ]

def ofJson? (depth : Nat) (value : Json) : Option UniformBlock := do
  let depth ← Json.enter? depth
  let [corner, size, inside, planar] ←
    value.record? ["corner", "size", "inside", "planar"] | none
  pure
    { corner := ← Vec3.ofJson? depth corner
      size := ← size.single?
      inside := ← inside.bool?
      planar := ← planar.bool? }

end UniformBlock

end SolidField
