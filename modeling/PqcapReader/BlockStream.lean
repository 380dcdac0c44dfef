import PqcapReader.PacketPlane

/-!
# The bundle as a sequence of blocks

A capture that is exactly a sequence of well-formed blocks stays one when metadata is
embedded, as long as the length of the custom block has an encoding. The encoder cuts that
length to 32 bits, so for a larger Parquet file the bundle is no such sequence.
-/

namespace PqcapReader

open ByteCodec Effects

/-- The file is the capture's blocks, a block of type `0x0BAD` that contains the Parquet file, and
a block of type `0x0BEE` and 44 bytes. -/
def KeepsStream (blocks : List RawBlock) (parquet file : Bytes) : Prop :=
  ∃ custom footer : RawBlock,
    file = blocks.flatMap RawBlock.encode ++ (custom.encode ++ footer.encode) ∧
      custom.blockType = 0x0BAD ∧ parquet <:+: custom.body ∧
        footer.blockType = 0x0BEE ∧ footer.encode.length = 44

/-- A footer block is a well-formed block, whatever its numbers. -/
theorem footerBlock_eq_encode (captureSize parquetSize : ℕ) :
    ∃ footer : RawBlock, footer.blockType = 0x0BEE ∧ footer.encode.length = 44 ∧
      footerBlock captureSize parquetSize = footer.encode := by
  set body := leBytes 4 0x51584950 ++ pqcapFooterMagic ++ leBytes 2 1 ++ leBytes 2 0 ++
    leBytes 8 (UInt64.ofNat captureSize + 8 + 25).toNat ++
      leBytes 8 (UInt64.ofNat parquetSize).toNat with hbody
  have hlength : body.length = 32 := by
    simp only [hbody, List.length_append, leBytes_length]
    rfl
  have hfooter : footerBlock captureSize parquetSize =
      leBytes 4 0x00000BEE ++ leBytes 4 44 ++ body ++ leBytes 4 44 := by
    simp only [footerBlock, writeLE64_eq, writeLE16_eq, writeLE32_eq, List.length_append,
      leBytes_length, hbody, List.nil_append, List.append_assoc]
    rfl
  refine ⟨⟨0x0BEE, body, by rw [hlength], by rw [hlength]; omega⟩, rfl, ?_, ?_⟩
  · rw [RawBlock.encode_length, hlength]
  · change _ = leBytes 4 0x00000BEE ++ leBytes 4 (12 + body.length) ++ body ++
      leBytes 4 (12 + body.length)
    rw [hfooter, hlength]

/-- The custom block's length has an encoding for Parquet files up to 41 bytes below four
gigabytes. -/
theorem customBody_fits_iff (parquet : Bytes) :
    12 + (customBody parquet).length < 2 ^ 32 ↔ parquet.length ≤ 2 ^ 32 - 41 := by
  rw [customBody_length, padCount]
  omega

/-- The bundle of a sequence of blocks is one again exactly when the length of the custom block has
an encoding. -/
theorem pqcapBundle_keepsStream_iff (blocks : List RawBlock) (parquet : Bytes) :
    KeepsStream blocks parquet (pqcapBundle (blocks.flatMap RawBlock.encode) parquet) ↔
      parquet.length ≤ 2 ^ 32 - 41 := by
  rw [← customBody_fits_iff]
  constructor
  · rintro ⟨custom, footer, hfile, -, -, -, hfooter⟩
    have hbundle := pqcapBundle_length (blocks.flatMap RawBlock.encode) parquet
    have hfits := custom.fits
    rw [hfile, List.length_append, List.length_append, hfooter, RawBlock.encode_length] at hbundle
    rw [customBody_length]
    omega
  · intro hfits
    obtain ⟨footer, htype, hlength, hfooter⟩ :=
      footerBlock_eq_encode (blocks.flatMap RawBlock.encode).length parquet.length
    refine ⟨(customRaw parquet hfits).toRawBlock, footer, ?_, rfl, ?_, htype, hlength⟩
    · rw [pqcapBundle_eq_append, customBlock_eq_encode parquet hfits, hfooter]
    · exact ⟨_, _, (customBody_eq parquet).symm⟩

/-- Embedding without faults does not throw, and what it leaves is the bundle. -/
theorem embed_outcome_iff {faults : Schedule} (hfaults : NoFaults faults)
    {pcapPath parquetPath capture parquet : Bytes} {blocks : List RawBlock} {world : World}
    (hcapture : world.files pcapPath = some capture)
    (hparquet : world.files parquetPath = some parquet) :
    ((∃ error, (exec (embedParquetInPqcap faults pcapPath parquetPath) world).1 = .error error) ∨
        ∃ file, (exec (embedParquetInPqcap faults pcapPath parquetPath) world).2.files pcapPath =
          some file ∧ KeepsStream blocks parquet file) ↔
      KeepsStream blocks parquet (pqcapBundle capture parquet) := by
  obtain ⟨clock, hexec⟩ := exec_embedParquetInPqcap hfaults hcapture hparquet
  rw [hexec]
  constructor
  · rintro (⟨error, herror⟩ | ⟨file, hfile, hkeeps⟩)
    · cases herror
    · change Function.update world.files pcapPath (some _) pcapPath = some file at hfile
      rw [Function.update_self, Option.some.injEq] at hfile
      exact hfile ▸ hkeeps
  · intro hkeeps
    exact .inr ⟨_, Function.update_self _ _ _, hkeeps⟩

/-- Embedding into a sequence of blocks throws or writes one exactly when the Parquet file has at
most `2 ^ 32 - 41` bytes. -/
theorem embed_keepsStream_iff {faults : Schedule} (hfaults : NoFaults faults)
    {pcapPath parquetPath parquet : Bytes} {blocks : List RawBlock} {world : World}
    (hcapture : world.files pcapPath = some (blocks.flatMap RawBlock.encode))
    (hparquet : world.files parquetPath = some parquet) :
    ((∃ error, (exec (embedParquetInPqcap faults pcapPath parquetPath) world).1 = .error error) ∨
        ∃ file, (exec (embedParquetInPqcap faults pcapPath parquetPath) world).2.files pcapPath =
          some file ∧ KeepsStream blocks parquet file) ↔
      parquet.length ≤ 2 ^ 32 - 41 := by
  rw [embed_outcome_iff hfaults hcapture hparquet]
  exact pqcapBundle_keepsStream_iff blocks parquet

/-- A world with a capture and a Parquet file. -/
def embedWorld (capture parquet : Bytes) : World :=
  ⟨Function.update (Function.update (fun _ => none) [0x61] (some capture)) [0x62] (some parquet), 0⟩

theorem embedWorld_files (capture parquet : Bytes) :
    (embedWorld capture parquet).files [0x61] = some capture ∧
      (embedWorld capture parquet).files [0x62] = some parquet := by
  have hne : ([0x61] : Bytes) ≠ [0x62] := by decide
  dsimp only [embedWorld]
  constructor
  · rw [Function.update_of_ne hne, Function.update_self]
  · rw [Function.update_self]

/-- A small Parquet file behind the sample blocks. -/
theorem embed_keepsStream_sample :
    ((∃ error, (exec (embedParquetInPqcap (fun _ => .succeeds) [0x61] [0x62])
          (embedWorld ((sampleBlocks.map Block.toRaw).flatMap RawBlock.encode) (ascii "PAR1"))).1 =
        .error error) ∨
      ∃ file, (exec (embedParquetInPqcap (fun _ => .succeeds) [0x61] [0x62])
          (embedWorld ((sampleBlocks.map Block.toRaw).flatMap RawBlock.encode) (ascii "PAR1"))).2.files
            [0x61] = some file ∧
        KeepsStream (sampleBlocks.map Block.toRaw) (ascii "PAR1") file) ↔
      (ascii "PAR1").length ≤ 2 ^ 32 - 41 :=
  embed_keepsStream_iff (fun _ => rfl) (embedWorld_files _ _).1 (embedWorld_files _ _).2

/-- A Parquet file that is one byte too long. -/
def oversizedParquet : Bytes := List.replicate (2 ^ 32 - 40) 0

/-- The bundle of the oversized Parquet file is no sequence of blocks, and the embedding does not
throw. -/
theorem embed_oversized_breaks_stream :
    ¬ ∀ (faults : Schedule) (pcapPath parquetPath parquet : Bytes) (blocks : List RawBlock)
      (world : World), NoFaults faults →
        world.files pcapPath = some (blocks.flatMap RawBlock.encode) →
        world.files parquetPath = some parquet →
        (∃ error,
          (exec (embedParquetInPqcap faults pcapPath parquetPath) world).1 = .error error) ∨
        ∃ file, (exec (embedParquetInPqcap faults pcapPath parquetPath) world).2.files pcapPath =
          some file ∧ KeepsStream blocks parquet file := by
  intro h
  obtain ⟨hcapture, hparquet⟩ := embedWorld_files
    ((sampleBlocks.map Block.toRaw).flatMap RawBlock.encode) oversizedParquet
  have hfaults : NoFaults fun _ => Outcome.succeeds := fun _ => rfl
  have hkeeps := h _ [0x61] [0x62] oversizedParquet (sampleBlocks.map Block.toRaw) _ hfaults hcapture
    hparquet
  rw [embed_outcome_iff hfaults hcapture hparquet, pqcapBundle_keepsStream_iff, oversizedParquet,
    List.length_replicate] at hkeeps
  omega

end PqcapReader
