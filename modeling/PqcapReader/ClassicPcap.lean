import PqcapReader.Host
import PqcapReader.Library.Effects

/-!
# The classic pcap reader

`ClassicPcapReader` reads a global header of 24 bytes and then records of a 16-byte header
and its data, until a header can no longer be read. A record whose data is cut short is
an error. Words are read in host order and swapped when the magic number says so; the host
is little-endian. The state is what the source keeps: its flags and the rest of the file.
-/

namespace PqcapReader

open ByteCodec

/-- `light_packet_header`; `comment` is the text at the pointer, `none` for a null pointer. -/
structure LightPacketHeader where
  interfaceId : UInt32
  tvSec : Int64
  tvNsec : Int64
  capturedLength : UInt32
  originalLength : UInt32
  dataLink : UInt16
  comment : Option Bytes
  deriving DecidableEq, Repr

/-- A header and the bytes at the packet pointer, `none` for a null pointer. -/
structure LightPacket where
  header : LightPacketHeader
  data : Option Bytes
  deriving DecidableEq, Repr

/-- The packet pointer, unless it is null, leads to as many bytes as the header counts. -/
def LightPacket.Covers (packet : LightPacket) : Prop :=
  ∀ data, packet.data = some data → packet.header.capturedLength.toNat ≤ data.length

def pcapngMagic : UInt32 := 0x0A0D0D0A
def pcapMagicLE : UInt32 := 0xA1B2C3D4
def pcapMagicBE : UInt32 := 0xD4C3B2A1
def pcapNsecMagicLE : UInt32 := 0xA1B23C4D
def pcapNsecMagicBE : UInt32 := 0x4D3CB2A1

inductive CaptureReaderKind
  | pcapng
  | classicPcap
  deriving DecidableEq, Repr

/-- `fread` of one item: its bytes when they are all there. The rest of the file is used up
either way. -/
def fread (count : ℕ) (file : Bytes) : Option Bytes × Bytes :=
  if count ≤ file.length then (some (file.take count), file.drop count) else (none, [])

/-- The 32-bit word that the bytes are on the host. -/
def hostWord (bytes : Bytes) : UInt32 := UInt32.ofNat (leValue bytes)

/-- A word with its bytes in reverse order. -/
def swap32 (v : UInt32) : UInt32 :=
  ((v >>> 24) &&& (0xFF : UInt32)) ||| ((v >>> 8) &&& (0xFF00 : UInt32)) |||
    ((v <<< 8) &&& (0xFF0000 : UInt32)) ||| ((v <<< 24) &&& (0xFF000000 : UInt32))

/-- `DetectCaptureFormat` on what `fopen` finds. -/
def detectCaptureFormat (path : Bytes) (file : Option Bytes) :
    Except Exception CaptureReaderKind :=
  match file with
  | none => .error (.ioException (ascii "read_pqcap_packets: failed to open '" ++ path ++ ascii "'"))
  | some content =>
    match fread 4 content with
    | (none, _) =>
      .error (.ioException (ascii "read_pqcap_packets: file too small: '" ++ path ++ ascii "'"))
    | (some bytes, _) =>
      let magic := hostWord bytes
      if magic = pcapngMagic then
        .ok .pcapng
      else if magic = pcapMagicLE ∨ magic = pcapMagicBE ∨ magic = pcapNsecMagicLE ∨
          magic = pcapNsecMagicBE then
        .ok .classicPcap
      else
        .error (.invalidInputException (ascii ("read_pqcap_packets: unsupported capture format " ++
          "(expected pcap or pcapng): '") ++ path ++ ascii "'"))

structure ClassicPcapReader where
  file : Bytes
  swapEndian : Bool
  nanosecondTs : Bool
  linktype : UInt32
  finished : Bool
  deriving DecidableEq, Repr

namespace ClassicPcapReader

/-- Items of the given sizes, read one after the other until one is cut short. -/
def freadItems : List ℕ → Bytes → Option (List Bytes) × Bytes
  | [], file => (some [], file)
  | count :: counts, file =>
    match fread count file with
    | (none, rest) => (none, rest)
    | (some item, rest) =>
      match freadItems counts rest with
      | (none, rest') => (none, rest')
      | (some items, rest') => (some (item :: items), rest')

/-- The two flags that a magic number stands for. -/
def magicFlags (magic : UInt32) : Option (Bool × Bool) :=
  if magic = pcapMagicLE then some (false, false)
  else if magic = pcapMagicBE then some (true, false)
  else if magic = pcapNsecMagicLE then some (false, true)
  else if magic = pcapNsecMagicBE then some (true, true)
  else none

/-- The constructor on an opened file. Of the header fields after the magic number
(versions, zone, accuracy, snapshot length, link type) only the last one is kept. -/
def construct (path content : Bytes) : Except Exception ClassicPcapReader :=
  match fread 4 content with
  | (none, _) => .error (.ioException (ascii "read_pqcap_packets: truncated pcap global header"))
  | (some magic, rest) =>
    match magicFlags (hostWord magic) with
    | none =>
      .error (.invalidInputException
        (ascii "read_pqcap_packets: unsupported classic pcap magic in '" ++ path ++ ascii "'"))
    | some (swapEndian, nanosecondTs) =>
      match freadItems [2, 2, 4, 4, 4, 4] rest with
      | (none, _) =>
        .error (.ioException (ascii "read_pqcap_packets: truncated pcap global header"))
      | (some items, file) =>
        let word := hostWord (items.getD 5 [])
        .ok ⟨file, swapEndian, nanosecondTs, if swapEndian then swap32 word else word, false⟩

/-- The header that `Next` fills in from the four words of a record. -/
def recordHeader (reader : ClassicPcapReader) (tsSec tsSub inclLen origLen : UInt32) :
    LightPacketHeader where
  interfaceId := 0
  tvSec := Int64.ofNat tsSec.toNat
  tvNsec :=
    if reader.nanosecondTs then Int64.ofNat tsSub.toNat else Int64.ofNat tsSub.toNat * 1000
  capturedLength := inclLen
  originalLength := origLen
  dataLink := reader.linktype.toUInt16
  comment := none

/-- A word of a record header, in the byte order of the file. -/
def word (reader : ClassicPcapReader) (item : Bytes) : UInt32 :=
  if reader.swapEndian then swap32 (hostWord item) else hostWord item

/-- The data of a record; without bytes nothing is read. -/
def recordData (inclLen : UInt32) (file : Bytes) : Option Bytes × Bytes :=
  if inclLen > 0 then fread inclLen.toNat file else (some [], file)

/-- `Next`: a packet, `none` for the result `false`, or an exception; and the reader after. -/
def next (reader : ClassicPcapReader) :
    Except Exception (Option LightPacket) × ClassicPcapReader :=
  if reader.finished then
    (.ok none, reader)
  else
    match freadItems [4, 4, 4, 4] reader.file with
    | (none, rest) => (.ok none, { reader with file := rest, finished := true })
    | (some items, rest) =>
      let tsSec := reader.word (items.getD 0 [])
      let tsSub := reader.word (items.getD 1 [])
      let inclLen := reader.word (items.getD 2 [])
      let origLen := reader.word (items.getD 3 [])
      match recordData inclLen rest with
      | (none, rest') =>
        (.error (.ioException (ascii "read_pqcap_packets: truncated pcap packet data")),
          { reader with file := rest' })
      | (some data, rest') =>
        (.ok (some ⟨reader.recordHeader tsSec tsSub inclLen origLen, some data⟩),
          { reader with file := rest' })

/-- The packets that `Next` returns until it returns `false`, at most `fuel` of them. -/
def drain : ℕ → ClassicPcapReader → Except Exception (List LightPacket)
  | 0, _ => .ok []
  | fuel + 1, reader =>
    match reader.next with
    | (.error error, _) => .error error
    | (.ok none, _) => .ok []
    | (.ok (some packet), reader') => do
      let rest ← drain fuel reader'
      pure (packet :: rest)

/-- All packets of a classic capture, or the exception that stops the reader. -/
def packets (path content : Bytes) : Except Exception (List LightPacket) := do
  let reader ← construct path content
  drain (reader.file.length + 1) reader

/-- The reader with more bytes behind its file. -/
def extend (reader : ClassicPcapReader) (more : Bytes) : ClassicPcapReader :=
  { reader with file := reader.file ++ more }

section Reads

/-- Everything that a read of one item can do. -/
theorem fread_eq_some_iff (count : ℕ) (file item rest : Bytes) :
    fread count file = (some item, rest) ↔
      count ≤ file.length ∧ item = file.take count ∧ rest = file.drop count := by
  rw [fread]
  split
  · rename_i h
    simp only [Prod.mk.injEq, Option.some.injEq, h, true_and]
    exact ⟨fun h => ⟨h.1.symm, h.2.symm⟩, fun h => ⟨h.1.symm, h.2.symm⟩⟩
  · rename_i h
    simp [h]

/-- A complete item is read the same from a longer file. -/
theorem fread_append {count : ℕ} {file item rest : Bytes} (more : Bytes)
    (h : fread count file = (some item, rest)) :
    fread count (file ++ more) = (some item, rest ++ more) := by
  obtain ⟨hcount, rfl, rfl⟩ := (fread_eq_some_iff count file item rest).mp h
  rw [fread_eq_some_iff]
  refine ⟨?_, ?_, ?_⟩
  · rw [List.length_append]
    omega
  · rw [List.take_append_of_le_length hcount]
  · rw [List.drop_append_of_le_length hcount]

/-- Complete items are read the same from a longer file, and use up their sizes. -/
theorem freadItems_append {counts : List ℕ} {file rest : Bytes} {items : List Bytes}
    (more : Bytes) (h : freadItems counts file = (some items, rest)) :
    freadItems counts (file ++ more) = (some items, rest ++ more) ∧
      rest.length + counts.sum = file.length := by
  induction counts generalizing file items with
  | nil =>
    simp only [freadItems, Prod.mk.injEq, Option.some.injEq] at h
    obtain ⟨rfl, rfl⟩ := h
    exact ⟨rfl, rfl⟩
  | cons count counts ih =>
    rw [freadItems] at h
    cases hitem : fread count file with
    | mk item middle =>
      cases item with
      | none => simp [hitem] at h
      | some item =>
        rw [hitem] at h
        cases hitems : freadItems counts middle with
        | mk found last =>
          cases found with
          | none => simp [hitems] at h
          | some found =>
            simp only [hitems, Prod.mk.injEq, Option.some.injEq] at h
            obtain ⟨rfl, rfl⟩ := h
            obtain ⟨hlonger, hlength⟩ := ih hitems
            obtain ⟨hcount, -, hmiddle⟩ := (fread_eq_some_iff _ _ _ _).mp hitem
            rw [freadItems, fread_append more hitem]
            simp only [hlonger, List.sum_cons]
            refine ⟨trivial, ?_⟩
            rw [hmiddle, List.length_drop] at hlength
            omega

/-- Items that fit into the file are read. -/
theorem freadItems_eq_some {counts : List ℕ} {file : Bytes} (h : counts.sum ≤ file.length) :
    ∃ items, freadItems counts file = (some items, file.drop counts.sum) := by
  induction counts generalizing file with
  | nil => exact ⟨[], rfl⟩
  | cons count counts ih =>
    rw [List.sum_cons] at h
    have hitem : fread count file = (some (file.take count), file.drop count) :=
      (fread_eq_some_iff _ _ _ _).mpr ⟨by omega, rfl, rfl⟩
    have hleft : counts.sum ≤ (file.drop count).length := by
      rw [List.length_drop]
      omega
    obtain ⟨items, hitems⟩ := ih hleft
    refine ⟨file.take count :: items, ?_⟩
    rw [freadItems, hitem]
    simp only [hitems, List.sum_cons, List.drop_drop]

end Reads

section Records

variable {reader reader' : ClassicPcapReader}

/-- Complete record data is read the same from a longer file. -/
theorem recordData_append {inclLen : UInt32} {file data rest : Bytes} (more : Bytes)
    (h : recordData inclLen file = (some data, rest)) :
    recordData inclLen (file ++ more) = (some data, rest ++ more) ∧
      rest.length ≤ file.length := by
  unfold recordData at h ⊢
  split at h
  · rename_i hpositive
    obtain ⟨-, -, hrest⟩ := (fread_eq_some_iff _ _ _ _).mp h
    rw [if_pos hpositive, fread_append more h, hrest, List.length_drop]
    exact ⟨rfl, Nat.sub_le _ _⟩
  · rename_i hzero
    simp only [Prod.mk.injEq, Option.some.injEq] at h
    obtain ⟨rfl, rfl⟩ := h
    rw [if_neg hzero]
    exact ⟨rfl, le_refl _⟩

/-- `Next` returns `false` only where no record header is left. -/
theorem next_eq_none (hopen : reader.finished = false) (h : reader.next = (.ok none, reader')) :
    reader.file.length < 16 := by
  by_contra hlong
  obtain ⟨items, hitems⟩ := freadItems_eq_some (show [4, 4, 4, 4].sum ≤ reader.file.length from
    not_lt.mp hlong)
  simp only [next, hopen, hitems, Bool.false_eq_true, if_false] at h
  split at h
  · simp only [Prod.mk.injEq, reduceCtorEq, false_and] at h
  · simp only [Prod.mk.injEq, Except.ok.injEq, reduceCtorEq, false_and] at h

/-- Everything that `Next` has read when it returns a packet. -/
theorem next_eq_some_iff {packet : LightPacket} :
    reader.next = (.ok (some packet), reader') ↔
      reader.finished = false ∧ ∃ items rest data rest',
        freadItems [4, 4, 4, 4] reader.file = (some items, rest) ∧
          recordData (reader.word (items.getD 2 [])) rest = (some data, rest') ∧
            packet = ⟨reader.recordHeader (reader.word (items.getD 0 []))
              (reader.word (items.getD 1 [])) (reader.word (items.getD 2 []))
                (reader.word (items.getD 3 [])), some data⟩ ∧
              reader' = { reader with file := rest' } := by
  unfold next
  cases hfinished : reader.finished with
  | true => simp
  | false =>
    rcases hitems : freadItems [4, 4, 4, 4] reader.file with ⟨_ | items, rest⟩
    · simp
    · rcases hdata : recordData (reader.word (items.getD 2 [])) rest with ⟨_ | data, rest'⟩
      · constructor
        · intro h
          simp only [Bool.false_eq_true, if_false, hdata, Prod.mk.injEq, reduceCtorEq,
            false_and] at h
        · rintro ⟨-, _, _, found, left, hread, hfound, -, -⟩
          rw [Prod.mk.injEq, Option.some.injEq] at hread
          obtain ⟨rfl, rfl⟩ := hread
          rw [hdata] at hfound
          cases hfound
      · simp only [Bool.false_eq_true, if_false, hdata, true_and, Prod.mk.injEq, Except.ok.injEq,
          Option.some.injEq]
        constructor
        · rintro ⟨rfl, rfl⟩
          exact ⟨items, rest, data, rest', ⟨rfl, rfl⟩, hdata, rfl, rfl⟩
        · rintro ⟨_, _, found, left, ⟨rfl, rfl⟩, hfound, rfl, rfl⟩
          rw [hdata, Prod.mk.injEq, Option.some.injEq] at hfound
          obtain ⟨rfl, rfl⟩ := hfound
          exact ⟨rfl, rfl⟩

/-- A record that `Next` returns is returned the same when more bytes follow, and uses up at
least its header. -/
theorem next_eq_some {packet : LightPacket} (more : Bytes)
    (h : reader.next = (.ok (some packet), reader')) :
    (reader.extend more).next = (.ok (some packet), reader'.extend more) ∧
      reader'.finished = false ∧ reader'.file.length + 16 ≤ reader.file.length := by
  obtain ⟨hopen, items, rest, data, rest', hitems, hdata, hpacket, rfl⟩ := next_eq_some_iff.mp h
  obtain ⟨hlonger, hlength⟩ := freadItems_append more hitems
  obtain ⟨hlonger', hrest⟩ := recordData_append more hdata
  have hsum : [4, 4, 4, 4].sum = 16 := rfl
  refine ⟨?_, hopen, ?_⟩
  · exact next_eq_some_iff.mpr ⟨hopen, items, rest ++ more, data, rest' ++ more, hlonger, hlonger',
      hpacket, rfl⟩
  · change rest'.length + 16 ≤ reader.file.length
    omega

/-- Record data has as many bytes as the record's length says. -/
theorem recordData_length {inclLen : UInt32} {file data rest : Bytes}
    (h : recordData inclLen file = (some data, rest)) : data.length = inclLen.toNat := by
  unfold recordData at h
  split at h
  · obtain ⟨hcount, hitem, -⟩ := (fread_eq_some_iff _ _ _ _).mp h
    rw [hitem, List.length_take, Nat.min_eq_left hcount]
  · rename_i hzero
    have hcount := mt UInt32.lt_iff_toNat_lt.mpr hzero
    have hnone : (0 : UInt32).toNat = 0 := rfl
    rw [Prod.mk.injEq, Option.some.injEq] at h
    rw [← h.1, List.length_nil]
    omega

/-- A record has as many bytes as its header counts. -/
theorem next_covers {packet : LightPacket} (h : reader.next = (.ok (some packet), reader')) :
    packet.Covers := by
  obtain ⟨-, items, rest, data, rest', -, hdata, rfl, -⟩ := next_eq_some_iff.mp h
  intro bytes hbytes
  obtain rfl : data = bytes := Option.some.inj hbytes
  exact le_of_eq (recordData_length hdata).symm

/-- The constructor and the loop both succeed when packets are read. -/
theorem packets_eq_ok {path content : Bytes} {records : List LightPacket}
    (h : packets path content = .ok records) :
    ∃ reader, construct path content = .ok reader ∧
      drain (reader.file.length + 1) reader = .ok records :=
  Effects.except_bind_eq_ok.mp h

/-- What holds of every packet that `Next` returns holds of all records of a classic capture. -/
theorem packets_forall {keeps : LightPacket → Prop}
    (hnext : ∀ reader reader' packet, next reader = (.ok (some packet), reader') → keeps packet)
    {path content : Bytes} {records : List LightPacket} (h : packets path content = .ok records) :
    ∀ packet ∈ records, keeps packet := by
  have hdrain {fuel : ℕ} {reader : ClassicPcapReader} {records : List LightPacket}
      (h : drain fuel reader = .ok records) : ∀ packet ∈ records, keeps packet := by
    induction fuel generalizing reader records with
    | zero =>
      rw [drain, Except.ok.injEq] at h
      rw [← h]
      exact fun packet hpacket => absurd hpacket List.not_mem_nil
    | succ fuel ih =>
      rw [drain] at h
      rcases hread : reader.next with ⟨error | found, reader'⟩
      · simp [hread] at h
      · cases found with
        | none =>
          simp only [hread, Except.ok.injEq] at h
          rw [← h]
          exact fun packet hpacket => absurd hpacket List.not_mem_nil
        | some first =>
          simp only [hread, bind, Except.bind] at h
          split at h
          · contradiction
          · rename_i rest hrest
            simp only [pure, Except.pure, Except.ok.injEq] at h
            rw [← h, List.forall_mem_cons]
            exact ⟨hnext _ _ _ hread, ih hrest⟩
  obtain ⟨reader, -, hrecords⟩ := packets_eq_ok h
  exact hdrain hrecords

/-- All records of a classic capture have the bytes that their headers count. -/
theorem packets_cover {path content : Bytes} {records : List LightPacket}
    (h : packets path content = .ok records) : ∀ packet ∈ records, packet.Covers :=
  packets_forall (fun _ _ _ => next_covers) h

/-- None of them has a comment. -/
theorem packets_uncommented {path content : Bytes} {records : List LightPacket}
    (h : packets path content = .ok records) : ∀ packet ∈ records, packet.header.comment = none := by
  refine packets_forall (fun _ _ _ hnext => ?_) h
  obtain ⟨-, items, rest, data, rest', -, -, rfl, -⟩ := next_eq_some_iff.mp hnext
  rfl

/-- Behind a capture that was read to its end, 16 further bytes or more are read as a record
or stop the reader with an exception. -/
theorem drain_extend {more : Bytes} (hmore : 16 ≤ more.length) {fuel fuel' : ℕ}
    {records longer : List LightPacket} (hopen : reader.finished = false)
    (hfuel : reader.file.length < fuel) (hfuel' : reader.file.length + more.length < fuel')
    (h : drain fuel reader = .ok records) (h' : drain fuel' (reader.extend more) = .ok longer) :
    records.length < longer.length := by
  induction fuel generalizing reader fuel' records longer with
  | zero => exact absurd hfuel (Nat.not_lt_zero _)
  | succ fuel ih =>
    obtain ⟨fuel', rfl⟩ := Nat.exists_eq_succ_of_ne_zero (Nat.ne_of_gt (Nat.zero_lt_of_lt hfuel'))
    rw [drain] at h h'
    rcases hnext : reader.next with ⟨error | found, reader'⟩
    · simp [hnext] at h
    · cases found with
      | none =>
        simp only [hnext, Except.ok.injEq] at h
        rcases hlonger : (reader.extend more).next with ⟨error | found', reader''⟩
        · simp [hlonger] at h'
        · cases found' with
          | none =>
            have hshort := next_eq_none (show (reader.extend more).finished = false from hopen) hlonger
            rw [extend, List.length_append] at hshort
            omega
          | some packet =>
            simp only [hlonger, bind, Except.bind] at h'
            split at h'
            · contradiction
            · simp only [pure, Except.pure, Except.ok.injEq] at h'
              rw [← h, ← h']
              exact Nat.zero_lt_succ _
      | some packet =>
        obtain ⟨hlonger, hopen', hlength⟩ := next_eq_some more hnext
        simp only [hnext, bind, Except.bind] at h
        simp only [hlonger, bind, Except.bind] at h'
        split at h
        · contradiction
        · rename_i rest hrest
          split at h'
          · contradiction
          · rename_i rest' hrest'
            simp only [pure, Except.pure, Except.ok.injEq] at h h'
            have hlt := ih hopen' (by omega) (by omega) hrest hrest'
            rw [← h, ← h', List.length_cons, List.length_cons]
            omega

/-- The constructor reads the same global header from a longer file. -/
theorem construct_append {path content : Bytes} (more : Bytes)
    (h : construct path content = .ok reader) :
    construct path (content ++ more) = .ok (reader.extend more) ∧ reader.finished = false := by
  unfold construct at h ⊢
  cases hmagic : fread 4 content with
  | mk found rest =>
    cases found with
    | none => simp [hmagic] at h
    | some magic =>
      rw [fread_append more hmagic]
      simp only [hmagic] at h
      simp only
      cases hflags : magicFlags (hostWord magic) with
      | none => simp [hflags] at h
      | some flags =>
        obtain ⟨swapEndian, nanosecondTs⟩ := flags
        simp only [hflags] at h
        cases hitems : freadItems [2, 2, 4, 4, 4, 4] rest with
        | mk found file =>
          cases found with
          | none => simp [hitems] at h
          | some items =>
            simp only [hitems, Except.ok.injEq] at h
            subst h
            simp only [(freadItems_append more hitems).1]
            exact ⟨rfl, trivial⟩

/-- A capture that was read to its end yields more packets, or an exception, when 16 bytes or
more are appended. -/
theorem packets_append {path content more : Bytes} (hmore : 16 ≤ more.length)
    {records longer : List LightPacket} (h : packets path content = .ok records)
    (h' : packets path (content ++ more) = .ok longer) : records.length < longer.length := by
  obtain ⟨reader, hreader, hdrain⟩ := packets_eq_ok h
  obtain ⟨reader', hreader', hdrain'⟩ := packets_eq_ok h'
  obtain ⟨hlonger, hopen⟩ := construct_append more hreader
  rw [hlonger, Except.ok.injEq] at hreader'
  subst hreader'
  refine drain_extend hmore hopen (Nat.lt_succ_self _) ?_ hdrain hdrain'
  rw [extend, List.length_append]
  omega

end Records

end ClassicPcapReader

end PqcapReader
