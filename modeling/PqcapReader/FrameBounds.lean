import PqcapReader.FrameLayers
import PqcapReader.Library.Checked

/-!
# The header parser stays inside the packet

A run of `ParseL4Fields` whose reads are checked against the packet and whose subtractions
are checked against the counter. The cursor and the counter of remaining bytes never add
up to more than the packet's length, which is what every read relies on.
-/

namespace PqcapReader

open ByteCodec CheckedRun

/-- Reads stop the run outside the packet, and subtractions stop it where they would wrap. -/
def PacketAccess.checked (packet : Bytes) : PacketAccess Option where
  read i := packet[i]?
  minus remaining count :=
    if count ≤ remaining then
      some (Id.run ((PacketAccess.plain packet).minus remaining count))
    else
      none

section Bounds

variable {packet : Bytes}

theorem read_safe {pos : ℕ} (h : pos < packet.length) :
    Safe ((PacketAccess.checked packet).read pos) ((PacketAccess.plain packet).read pos) :=
  .read 0 h

theorem minus_safe {remaining count : ℕ} (h : count ≤ remaining) :
    Safe ((PacketAccess.checked packet).minus remaining count)
      ((PacketAccess.plain packet).minus remaining count) :=
  if_pos h

variable (packet) in
/-- A subtraction that does not wrap leaves at most what it should. -/
theorem minus_le {remaining count : ℕ} (h : count ≤ remaining) :
    count + Id.run ((PacketAccess.plain packet).minus remaining count) ≤ remaining := by
  have hsum : remaining + 2 ^ 64 - count = remaining - count + 2 ^ 64 := by omega
  have hle : (remaining - count) % 2 ^ 64 ≤ remaining - count := Nat.mod_le _ _
  rw [plain_minus, Id.run_pure, sizeT, hsum, Nat.add_mod_right]
  omega

theorem readBE16_safe {pos : ℕ} (h : pos + 2 ≤ packet.length) :
    Safe (readBE16 (PacketAccess.checked packet) pos)
      (readBE16 (PacketAccess.plain packet) pos) := by
  refine (read_safe (by omega)).bind ?_
  refine (read_safe (by omega)).bind ?_
  exact .pure _

theorem formatIPv4_safe {src : ℕ} (h : src + 4 ≤ packet.length) :
    Safe (formatIPv4 (PacketAccess.checked packet) src)
      (formatIPv4 (PacketAccess.plain packet) src) := by
  refine (read_safe (by omega)).bind ?_
  refine (read_safe (by omega)).bind ?_
  refine (read_safe (by omega)).bind ?_
  refine (read_safe (by omega)).bind ?_
  exact .pure _

theorem formatIPv6_safe {src : ℕ} (h : src + 16 ≤ packet.length) :
    Safe (formatIPv6 (PacketAccess.checked packet) src)
      (formatIPv6 (PacketAccess.plain packet) src) := by
  refine Safe.bind (Safe.mapM fun i hi => readBE16_safe ?_) (.pure _)
  have hsmall : i < 8 := List.mem_range.mp hi
  omega

/-- The two port fields of a transport header. -/
theorem ports_safe {cursor : ℕ} (h : cursor + 4 ≤ packet.length)
    {next : UInt16 → UInt16 → ParsedL4Fields} :
    Safe (do
        let srcPort ← readBE16 (PacketAccess.checked packet) cursor
        let dstPort ← readBE16 (PacketAccess.checked packet) (cursor + 2)
        pure (next srcPort dstPort))
      (do
        let srcPort ← readBE16 (PacketAccess.plain packet) cursor
        let dstPort ← readBE16 (PacketAccess.plain packet) (cursor + 2)
        pure (next srcPort dstPort)) :=
  (readBE16_safe (by omega)).bind ((readBE16_safe (by omega)).bind (.pure _))

variable {cursor remaining : ℕ} (hinside : cursor + remaining ≤ packet.length)

include hinside

theorem parseTransport_safe (label : Bytes) (protocol : UInt8) (out : ParsedL4Fields) :
    Safe (parseTransport (PacketAccess.checked packet) label protocol cursor remaining out)
      (parseTransport (PacketAccess.plain packet) label protocol cursor remaining out) := by
  refine Safe.ite (fun htcp => ?_) fun _ => Safe.ite (fun hudp => ?_) fun _ => .pure _
  · refine (read_safe (by omega)).bind (Safe.ite (fun _ => ?_) fun _ => .pure _)
    exact ports_safe (by omega)
  · exact ports_safe (by omega)

theorem parseIPv4_safe :
    Safe (parseIPv4 (PacketAccess.checked packet) cursor remaining)
      (parseIPv4 (PacketAccess.plain packet) cursor remaining) := by
  refine Safe.ite (fun _ => .pure _) fun hshort => ?_
  refine (read_safe (by omega)).bind (Safe.ite (fun _ => .pure _) fun hheader => ?_)
  refine (read_safe (by omega)).bind ?_
  refine (formatIPv4_safe (by omega)).bind ?_
  refine (formatIPv4_safe (by omega)).bind ?_
  obtain ⟨-, hfits⟩ := not_or.mp hheader
  refine (minus_safe (not_lt.mp hfits)).bind (parseTransport_safe ?_ _ _ _)
  -- The cursor moves by what the counter loses.
  have hrest := minus_le packet (not_lt.mp hfits)
  omega

theorem parseIPv6_safe :
    Safe (parseIPv6 (PacketAccess.checked packet) cursor remaining)
      (parseIPv6 (PacketAccess.plain packet) cursor remaining) := by
  refine Safe.ite (fun _ => .pure _) fun hshort => ?_
  refine (read_safe (by omega)).bind ?_
  refine (formatIPv6_safe (by omega)).bind ?_
  refine (formatIPv6_safe (by omega)).bind ?_
  refine (minus_safe (not_lt.mp hshort)).bind (parseTransport_safe ?_ _ _ _)
  have hrest := minus_le packet (not_lt.mp hshort)
  omega

/-- The dispatch on an EtherType, with any label for other types. -/
theorem dispatch_safe (etherType : UInt16) (out : ParsedL4Fields) :
    Safe
      (if etherType = 0x0800 then parseIPv4 (PacketAccess.checked packet) cursor remaining
        else if etherType = 0x86DD then parseIPv6 (PacketAccess.checked packet) cursor remaining
          else pure out)
      (if etherType = 0x0800 then parseIPv4 (PacketAccess.plain packet) cursor remaining
        else if etherType = 0x86DD then parseIPv6 (PacketAccess.plain packet) cursor remaining
          else pure out) := by
  refine Safe.ite (fun _ => parseIPv4_safe hinside) fun _ => ?_
  exact Safe.ite (fun _ => parseIPv6_safe hinside) fun _ => .pure _

end Bounds

/-- On every packet of every length and under every link type the checked run returns what the
plain run returns: no read is outside the packet and no subtraction wraps. -/
theorem parseL4Fields_reads_inside (dataLink : UInt16) (isNull : Bool) (packet : Bytes) :
    parseL4Fields (PacketAccess.checked packet) dataLink isNull packet.length =
      some (Id.run (parseL4Fields (PacketAccess.plain packet) dataLink isNull packet.length)) := by
  refine Safe.ite (fun _ => .pure _) fun hsome => Safe.ite (fun _ => ?_) fun _ =>
    Safe.ite (fun _ => ?_) fun _ => ?_
  · obtain ⟨-, hlength⟩ := not_or.mp hsome
    refine (read_safe (by omega)).bind (Safe.ite (fun _ => parseIPv4_safe (by omega)) fun _ => ?_)
    refine (read_safe (by omega)).bind (Safe.ite (fun _ => parseIPv6_safe (by omega)) fun _ => ?_)
    exact .pure _
  · refine Safe.ite (fun _ => .pure _) fun hlength => ?_
    have hrest := minus_le packet (not_lt.mp hlength)
    refine (readBE16_safe (by omega)).bind ((minus_safe (not_lt.mp hlength)).bind ?_)
    exact dispatch_safe (by omega) _ _
  · refine Safe.ite (fun _ => .pure _) fun hlength => ?_
    have hrest := minus_le packet (not_lt.mp hlength)
    refine (readBE16_safe (by omega)).bind ((minus_safe (not_lt.mp hlength)).bind ?_)
    -- With or without a tag, cursor and counter stay inside the packet.
    refine Safe.ite (fun htag => ?_) fun _ => ?_
    · have hinner := minus_le packet htag.2
      refine (readBE16_safe (by omega)).bind ((minus_safe htag.2).bind ?_)
      exact dispatch_safe (by omega) _ _
    · exact dispatch_safe (by omega) _ _

end PqcapReader
