import PqcapReader.Bundle
import PqcapReader.SubFile

/-!
# From the bundle back to the Parquet file

The footer locator, the printed location, the sub-file path, and the shifted reads
together return the bytes that the embedding appended.
-/

namespace PqcapReader

open ByteCodec

section RoundTrip

variable {capture parquet : Bytes} {handle : FileHandle}

/-- The footer of a bundle decodes to the place of its Parquet file. -/
theorem parseFooterLocator_footerBlock (hfits : FitsFile (pqcapBundle capture parquet)) :
    parseFooterLocator (footerBlock capture.length parquet.length) =
      some ⟨UInt64.ofNat (capture.length + 33), UInt64.ofNat parquet.length⟩ := by
  have hlength := pqcapBundle_length capture parquet
  have hbound : (pqcapBundle capture parquet).length < 2 ^ 63 := hfits
  rw [footerBlock_eq _ _ (by omega) (by omega)]
  exact parseFooterLocator_footerFields 1 0 _ _ (le_refl 1) (by omega) (by omega)

/-- A bundle ends with a footer. -/
theorem endsWithFooter_pqcapBundle (hfits : FitsFile (pqcapBundle capture parquet)) :
    endsWithFooter (pqcapBundle capture parquet) = true := by
  have hlength := pqcapBundle_length capture parquet
  rw [endsWithFooter, slice_footerBlock, parseFooterLocator_footerBlock hfits,
    decide_eq_true (by omega)]
  rfl

/-- The location that `ParsePqcapMetadataLocation` prints for a bundle. -/
def printedLocation (capture parquet : Bytes) : Bytes :=
  decimal (capture.length + 33) ++ ascii "_" ++ decimal parquet.length

/-- The locator finds the embedded file of a bundle. -/
theorem parsePqcapMetadataLocation_bundle (hparquet : parquet ≠ [])
    (hfits : FitsFile (pqcapBundle capture parquet))
    (hholds : handle.Holds (pqcapBundle capture parquet)) (source : Bytes) :
    parsePqcapMetadataLocation handle source = .ok (printedLocation capture parquet) := by
  have hlength := pqcapBundle_length capture parquet
  have hbound : (pqcapBundle capture parquet).length < 2 ^ 63 := hfits
  have hpositive : 0 < parquet.length := List.length_pos_iff.mpr hparquet
  have hoffset : (UInt64.ofNat (capture.length + 33)).toNat = capture.length + 33 :=
    uint64_ofNat_toNat (by omega)
  have hcount : (UInt64.ofNat parquet.length).toNat = parquet.length :=
    uint64_ofNat_toNat (by omega)
  have hfooter : parseFooterLocator (slice (pqcapBundle capture parquet)
      ((pqcapBundle capture parquet).length - 44) 44) =
        some ⟨UInt64.ofNat (capture.length + 33), UInt64.ofNat parquet.length⟩ := by
    rw [slice_footerBlock]
    exact parseFooterLocator_footerBlock hfits
  refine (parsePqcapMetadataLocation_eq_ok_iff hholds).mpr ⟨by omega, _, hfooter, ?_, ?_⟩
  · rw [FooterLocator.Inside, hoffset, hcount]
    omega
  · rw [FooterLocator.printed, hoffset, hcount]
    rfl

/-- Opening the printed location gives a handle whose window is the embedded file. -/
theorem openFile_printedLocation (hfits : FitsFile (pqcapBundle capture parquet))
    {fs : VirtualFileSystem} {path : Bytes} {flags : FileOpenFlags}
    (hreading : flags.openForReading = true) (hwriting : flags.openForWriting = false)
    {inner : FileHandle} (hopen : fs path flags = .ok (some inner))
    (hseek : inner.canSeek = true) (hholds : inner.Holds (pqcapBundle capture parquet)) :
    ∃ sub, openFile (subFilePrefix ++ printedLocation capture parquet ++ ascii "!" ++ path) flags
        (some ⟨some fs⟩) = .ok sub ∧ sub.seekPos = 0 ∧ sub.subSize.toNat = parquet.length ∧
      sub.Serves (pqcapBundle capture parquet) ∧
        sub.window (pqcapBundle capture parquet) = parquet := by
  have hlength := pqcapBundle_length capture parquet
  have hbound : (pqcapBundle capture parquet).length < 2 ^ 63 := hfits
  have hoffset : (UInt64.ofNat (capture.length + 33)).toNat = capture.length + 33 :=
    uint64_ofNat_toNat (by omega)
  have hcount : (UInt64.ofNat parquet.length).toNat = parquet.length :=
    uint64_ofNat_toNat (by omega)
  have hsub := openFile_printed_eq_ok_iff.mpr ⟨hreading, hwriting, inner, hopen, hseek,
    (rfl : (⟨inner, UInt64.ofNat (capture.length + 33), UInt64.ofNat parquet.length, 0⟩ :
      PqcapSubFileHandle) = _)⟩
  rw [hoffset, hcount] at hsub
  refine ⟨_, hsub, rfl, hcount, ⟨hholds, ?_, hfits⟩, ?_⟩
  · simp only [hoffset, hcount]
    omega
  · rw [PqcapSubFileHandle.window, hoffset, hcount]
    exact slice_parquet capture parquet

/-- The Parquet file at the place that a file's footer records. -/
def embeddedParquet (file : Bytes) : Option Bytes :=
  (parseFooterLocator (slice file (file.length - 44) 44)).map fun loc =>
    slice file loc.parquetOffset.toNat loc.parquetLength.toNat

/-- The footer of a bundle records the place of the Parquet file it was made from. -/
theorem embeddedParquet_pqcapBundle (hfits : FitsFile (pqcapBundle capture parquet)) :
    embeddedParquet (pqcapBundle capture parquet) = some parquet := by
  have hlength := pqcapBundle_length capture parquet
  have hbound : (pqcapBundle capture parquet).length < 2 ^ 63 := hfits
  rw [embeddedParquet, slice_footerBlock, parseFooterLocator_footerBlock hfits, Option.map_some,
    uint64_ofNat_toNat (by omega), uint64_ofNat_toNat (by omega), slice_parquet]

/-- The embedded file is located in the bundle, and opening the sub-file path made of its
location gives a handle of its size, whose sequential reads return exactly its bytes. -/
theorem embedded_parquet_roundTrip (hparquet : parquet ≠ [])
    (hfits : FitsFile (pqcapBundle capture parquet))
    (hholds : handle.Holds (pqcapBundle capture parquet)) (source path : Bytes)
    {flags : FileOpenFlags} (hreading : flags.openForReading = true)
    (hwriting : flags.openForWriting = false) {fs : VirtualFileSystem} {inner : FileHandle}
    (hopen : fs path flags = .ok (some inner)) (hseek : inner.canSeek = true)
    (hinner : inner.Holds (pqcapBundle capture parquet)) :
    ∃ location sub, parsePqcapMetadataLocation handle source = .ok location ∧
      openFile (subFilePrefix ++ location ++ ascii "!" ++ path) flags (some ⟨some fs⟩) = .ok sub ∧
        sub.getFileSize.toInt = parquet.length ∧
          ∀ requests : ℕ → Int64, (∀ i, 0 < (requests i).toInt) →
            ∃ count results last, sub.readTimes requests count = .ok (results, last) ∧
              (∀ result ∈ results, 0 < result.2.toInt) ∧
                (results.map Prod.fst).flatten = parquet ∧
                  last.read (requests count) = .ok ([], 0, last) := by
  have hlength := pqcapBundle_length capture parquet
  have hbound : (pqcapBundle capture parquet).length < 2 ^ 63 := hfits
  obtain ⟨sub, hsub, hstart, hsize, hserves, hwindow⟩ :=
    openFile_printedLocation hfits hreading hwriting hopen hseek hinner
  refine ⟨_, sub, parsePqcapMetadataLocation_bundle hparquet hfits hholds source, hsub, ?_, ?_⟩
  · rw [PqcapSubFileHandle.getFileSize, toInt_toInt64 _ (by omega), hsize]
  · intro requests hrequests
    obtain ⟨count, results, last, hrun, hcounts, hdata, hend⟩ :=
      PqcapSubFileHandle.exists_readTimes hserves
        (by rw [hstart]; exact Nat.zero_le _) requests hrequests
    rw [hstart, hwindow] at hdata
    exact ⟨count, results, last, hrun, hcounts, hdata, hend⟩

end RoundTrip

/-- A five-byte Parquet file behind a three-byte capture is read back through a path that
holds both separators. -/
theorem embedded_parquet_roundTrip_sample :
    ∃ location sub,
      parsePqcapMetadataLocation (FileHandle.ofContent (pqcapBundle [1, 2, 3] (ascii "PAR1!")))
          (ascii "a!b_c") = .ok location ∧
        openFile (subFilePrefix ++ location ++ ascii "!" ++ ascii "a!b_c") fileFlagsRead
            (some ⟨some fun _ _ =>
              .ok (some (FileHandle.ofContent (pqcapBundle [1, 2, 3] (ascii "PAR1!"))))⟩) =
          .ok sub ∧
          sub.getFileSize.toInt = (ascii "PAR1!").length ∧
            ∀ requests : ℕ → Int64, (∀ i, 0 < (requests i).toInt) →
              ∃ count results last, sub.readTimes requests count = .ok (results, last) ∧
                (∀ result ∈ results, 0 < result.2.toInt) ∧
                  (results.map Prod.fst).flatten = ascii "PAR1!" ∧
                    last.read (requests count) = .ok ([], 0, last) := by
  have hfits : FitsFile (pqcapBundle [1, 2, 3] (ascii "PAR1!")) := by decide +kernel
  have hholds := FileHandle.ofContent_holds (pqcapBundle [1, 2, 3] (ascii "PAR1!")) hfits
  exact embedded_parquet_roundTrip (by decide) hfits hholds (ascii "a!b_c") (ascii "a!b_c") rfl rfl
    rfl rfl hholds

end PqcapReader
