import Dsm.Library.Scan
import Dsm.Network.Discovery

/-!
# Discovery messages as text

A broadcast and its reply carry an address and a chunk count as text. The count is an unsigned number
that `%d` prints and reads as an `int`, so a count of `2 ^ 31` or more travels as a negative number
and is turned back by the conversion to `uint32_t`. The listener tries the pattern of the broadcast
first, which a reply fails at its tenth character.
-/

namespace Dsm

open Scan

def udpBufferSize : Nat := 1024

/-- The text of `DISCOVER_MSG_FMT` or `DISCOVER_REPLY_FMT`, with the tag in front. -/
def discoverText (tag : String) (ip : List UInt8) (port : UInt16) (chunks : UInt32) : List Piece :=
  [.text (ascii tag), .str ip, .text (ascii "/"), .int port.toUInt32.toInt32, .text (ascii "/"),
    .int chunks.toInt32]

/-- `DISCOVER_MSG_FMT` with its arguments. -/
def discoverMsgFmt : List UInt8 → UInt16 → UInt32 → List Piece := discoverText "DISCOVER_DSM/"

/-- `DISCOVER_REPLY_FMT` with its arguments. -/
def discoverReplyFmt : List UInt8 → UInt16 → UInt32 → List Piece := discoverText "DISCOVER_REPLY/"

/-- The patterns of the listener, `%15[^/]/%d/%d` after the tag. -/
def discoverPattern (tag : String) : List Directive :=
  [.text (ascii tag), .set 15 47, .text (ascii "/"), .int, .text (ascii "/"), .int]

def discoverMsgPattern : List Directive := discoverPattern "DISCOVER_DSM/"

def discoverReplyPattern : List Directive := discoverPattern "DISCOVER_REPLY/"

/-- `msg_ip`, `msg_port` and `msg_chunks`. -/
structure Announcement where
  msgIp : List UInt8
  msgPort : Int32
  msgChunks : Int32
deriving DecidableEq

/-- The test of the listener for three conversions. -/
def parseAnnouncement (pattern : List Directive) (buf : List UInt8) : Option Announcement :=
  match sscanf pattern buf with
  | [.str ip, .int port, .int chunks] => some { msgIp := ip, msgPort := port, msgChunks := chunks }
  | _ => none

/-- What the listener takes a datagram for. -/
inductive UdpParsed where
  | discover (a : Announcement)
  | reply (a : Announcement)
  | ignored
deriving DecidableEq

/-- The parsing part of `udp_listener_thread_func`: `recvfrom` leaves room for a terminator. -/
def udpParse (datagram : List UInt8) : UdpParsed :=
  let buf := datagram.take (udpBufferSize - 1)
  match parseAnnouncement discoverMsgPattern buf with
  | some a => .discover a
  | none =>
      match parseAnnouncement discoverReplyPattern buf with
      | some a => .reply a
      | none => .ignored

/-- The `uint16_t` that `dsm_tcp_connect`, `dsm_node_table_add` and `master_port` get. -/
def Announcement.port (a : Announcement) : UInt16 := a.msgPort.toUInt32.toUInt16

/-- The `uint32_t` that `dsm_node_table_add` gets. -/
def Announcement.chunks (a : Announcement) : UInt32 := a.msgChunks.toUInt32

/-- Four numbers with dots between them. -/
def DottedQuad (ip : List UInt8) : Prop :=
  ∃ a b c d : List UInt8, (∀ part ∈ [a, b, c, d], part ≠ [] ∧ ∀ x ∈ part, isDigit x = true) ∧
    ip = a ++ 46 :: (b ++ 46 :: (c ++ 46 :: d))

/-- What `%s` and `%15[^/]` need of an address. -/
structure TextIp (ip : List UInt8) : Prop where
  ne_nil : ip ≠ []
  length : ip.length ≤ 15
  no_slash : (47 : UInt8) ∉ ip
  no_zero : (0 : UInt8) ∉ ip

theorem DottedQuad.textIp {ip : List UInt8} (h : DottedQuad ip) (hlength : ip.length ≤ 15) :
    TextIp ip := by
  obtain ⟨a, b, c, d, hparts, rfl⟩ := h
  have hmem : ∀ x ∈ a ++ 46 :: (b ++ 46 :: (c ++ 46 :: d)), isDigit x = true ∨ x = 46 := by
    intro x hx
    simp only [List.mem_append, List.mem_cons] at hx
    rcases hx with hx | rfl | hx | rfl | hx | rfl | hx
    · exact .inl ((hparts a (by simp)).2 x hx)
    · exact .inr rfl
    · exact .inl ((hparts b (by simp)).2 x hx)
    · exact .inr rfl
    · exact .inl ((hparts c (by simp)).2 x hx)
    · exact .inr rfl
    · exact .inl ((hparts d (by simp)).2 x hx)
  refine ⟨by simp, hlength, fun hslash => ?_, fun hzero => ?_⟩
  · exact absurd (hmem 47 hslash) (by decide)
  · exact absurd (hmem 0 hzero) (by decide)

section

variable {ip : List UInt8} (hip : TextIp ip) (tag : String) (port : UInt16) (chunks : UInt32)
include hip

theorem reads_discoverText : Reads (discoverPattern tag) (discoverText tag ip port chunks) := by
  have hlast : Reads [.int] [.int chunks.toInt32] := .int _ (by simp [print]) .nil
  have hcount : Reads [.int, .text (ascii "/"), .int]
      [.int port.toUInt32.toInt32, .text (ascii "/"), .int chunks.toInt32] := by
    refine .int _ (fun b hb => ?_) (.text _ hlast)
    obtain rfl : 47 = b := Option.some.inj hb
    decide
  exact .text _ (.str hip.ne_nil hip.length hip.no_slash (.text [47] hcount))

theorem length_discoverText_lt (htag : (ascii tag).length ≤ 15) :
    (print (discoverText tag ip port chunks)).length < udpBufferSize := by
  have hlength := hip.length
  have hport := length_printInt_le port.toUInt32.toInt32
  have hchunks := length_printInt_le chunks.toInt32
  have hslash : (ascii "/").length = 1 := by decide
  simp only [print, discoverText, List.flatMap_cons, List.flatMap_nil, Piece.bytes,
    List.length_append, List.length_nil, hslash, udpBufferSize]
  omega

theorem zero_not_mem_discoverText (htag : (0 : UInt8) ∉ ascii tag) :
    (0 : UInt8) ∉ print (discoverText tag ip port chunks) := by
  have hslash : (0 : UInt8) ∉ ascii "/" := by decide
  simp only [print, discoverText, List.flatMap_cons, List.flatMap_nil, Piece.bytes, List.mem_append,
    htag, hip.no_zero, hslash, zero_not_mem_printInt, List.not_mem_nil, or_self, not_false_eq_true]

theorem parseAnnouncement_discoverText (htag : (0 : UInt8) ∉ ascii tag) :
    parseAnnouncement (discoverPattern tag) (print (discoverText tag ip port chunks)) =
      some { msgIp := ip, msgPort := port.toUInt32.toInt32, msgChunks := chunks.toInt32 } := by
  rw [parseAnnouncement, sscanf_eq_scan (zero_not_mem_discoverText hip tag port chunks htag),
    scan_print (reads_discoverText hip tag port chunks)]
  rfl

end

theorem parseAnnouncement_discoverMsgPattern_reply {ip : List UInt8} (hip : TextIp ip) (port : UInt16)
    (chunks : UInt32) : parseAnnouncement discoverMsgPattern
      (print (discoverReplyFmt ip port chunks)) = none := by
  have hzero : (0 : UInt8) ∉ print (discoverReplyFmt ip port chunks) :=
    zero_not_mem_discoverText hip "DISCOVER_REPLY/" port chunks (by decide)
  have hnot : ¬ ascii "DISCOVER_DSM/" <+: print (discoverReplyFmt ip port chunks) := by
    intro hprefix
    have htag : ascii "DISCOVER_REPLY/" <+: print (discoverReplyFmt ip port chunks) :=
      List.prefix_append ..
    have hshort := List.prefix_of_prefix_length_le hprefix htag (by decide)
    exact absurd hshort (by decide)
  rw [parseAnnouncement, sscanf_eq_scan hzero, discoverMsgPattern, discoverPattern,
    scan_text_of_not_prefix hnot]

theorem take_snprintf {size : Nat} {ps : List Piece} (h : (print ps).length < size) :
    (snprintf size ps).take (size - 1) = print ps := by
  rw [snprintf_of_length_lt h, List.take_of_length_le (Nat.le_sub_one_of_lt h)]

theorem udpParse_discoverMsg {ip : List UInt8} (hip : TextIp ip) (port : UInt16) (chunks : UInt32) :
    udpParse (snprintf udpBufferSize (discoverMsgFmt ip port chunks)) =
      .discover { msgIp := ip, msgPort := port.toUInt32.toInt32, msgChunks := chunks.toInt32 } := by
  have hfits := length_discoverText_lt hip "DISCOVER_DSM/" port chunks (by decide)
  have hread := parseAnnouncement_discoverText hip "DISCOVER_DSM/" port chunks (by decide)
  have htake : (snprintf udpBufferSize (discoverMsgFmt ip port chunks)).take (udpBufferSize - 1) =
      print (discoverText "DISCOVER_DSM/" ip port chunks) := take_snprintf hfits
  simp only [udpParse, htake, discoverMsgPattern, hread]

theorem udpParse_discoverReply {ip : List UInt8} (hip : TextIp ip) (port : UInt16) (chunks : UInt32) :
    udpParse (snprintf udpBufferSize (discoverReplyFmt ip port chunks)) =
      .reply { msgIp := ip, msgPort := port.toUInt32.toInt32, msgChunks := chunks.toInt32 } := by
  have hfits := length_discoverText_lt hip "DISCOVER_REPLY/" port chunks (by decide)
  have hread := parseAnnouncement_discoverText hip "DISCOVER_REPLY/" port chunks (by decide)
  have htake : (snprintf udpBufferSize (discoverReplyFmt ip port chunks)).take (udpBufferSize - 1) =
      print (discoverReplyFmt ip port chunks) := take_snprintf hfits
  have hother := parseAnnouncement_discoverMsgPattern_reply hip port chunks
  have hread' : parseAnnouncement discoverReplyPattern (print (discoverReplyFmt ip port chunks)) =
      some { msgIp := ip, msgPort := port.toUInt32.toInt32, msgChunks := chunks.toInt32 } := hread
  simp only [udpParse, htake, hother, hread']

theorem toInt_port (port : UInt16) : port.toUInt32.toInt32.toInt = port.toNat := by
  have hlt := port.toNat_lt
  rw [Int32.toInt, UInt32.toBitVec_toInt32, BitVec.toInt_eq_toNat_of_lt]
  · simp
  · simp
    omega

/-- Both messages keep the address, and the broadcast the number of chunks, for every number of 32
bits; a reply is not taken for a broadcast. -/
theorem discovery_round_trip {ip : List UInt8} (hquad : DottedQuad ip) (hlength : ip.length ≤ 15)
    (port : UInt16) (chunks : UInt32) :
    (print (discoverMsgFmt ip port chunks)).length < udpBufferSize ∧
      (∃ a, udpParse (snprintf udpBufferSize (discoverMsgFmt ip port chunks)) = .discover a ∧
        a.msgIp = ip ∧ a.msgPort.toInt = port.toNat ∧ a.port = port ∧ a.chunks = chunks) ∧
      parseAnnouncement discoverMsgPattern
        (snprintf udpBufferSize (discoverReplyFmt ip port chunks)) = none ∧
      ∃ a, parseAnnouncement discoverReplyPattern
          (snprintf udpBufferSize (discoverReplyFmt ip port chunks)) = some a ∧
        udpParse (snprintf udpBufferSize (discoverReplyFmt ip port chunks)) = .reply a ∧
        a.msgIp = ip ∧ a.msgPort.toInt = port.toNat ∧ a.port = port := by
  have hip := hquad.textIp hlength
  have hport : (Announcement.mk ip port.toUInt32.toInt32 chunks.toInt32).port = port := by
    simp [Announcement.port]
  have hchunks : (Announcement.mk ip port.toUInt32.toInt32 chunks.toInt32).chunks = chunks := by
    simp [Announcement.chunks]
  have hreply : snprintf udpBufferSize (discoverReplyFmt ip port chunks) =
      print (discoverReplyFmt ip port chunks) :=
    snprintf_of_length_lt (length_discoverText_lt hip _ port chunks (by decide))
  refine ⟨length_discoverText_lt hip _ port chunks (by decide), ?_, ?_, ?_⟩
  · exact ⟨_, udpParse_discoverMsg hip port chunks, rfl, toInt_port port, hport, hchunks⟩
  · rw [hreply]
    exact parseAnnouncement_discoverMsgPattern_reply hip port chunks
  · refine ⟨_, ?_, udpParse_discoverReply hip port chunks, rfl, toInt_port port, hport⟩
    rw [hreply]
    exact parseAnnouncement_discoverText hip _ port chunks (by decide)

/-- A count of `2 ^ 31` or more, which is printed with a minus sign. -/
theorem discovery_round_trip_negative :
    print (discoverMsgFmt (ascii "10.0.0.7") 65535 4294967295) =
        ascii "DISCOVER_DSM/10.0.0.7/65535/-1" ∧
      ∃ a, udpParse (snprintf udpBufferSize
          (discoverMsgFmt (ascii "10.0.0.7") 65535 4294967295)) = .discover a ∧
        a.chunks = 4294967295 := by
  have hquad : DottedQuad (ascii "10.0.0.7") :=
    ⟨ascii "10", ascii "0", ascii "0", ascii "7", by decide +kernel, by decide +kernel⟩
  obtain ⟨-, ⟨a, ha, -, -, -, hchunks⟩, -⟩ :=
    discovery_round_trip hquad (by decide +kernel) 65535 4294967295
  exact ⟨by decide +kernel, a, ha, hchunks⟩

/-! ### The messages of the discovery protocol -/

/-- The message that a listener acts on; `master_ip` has 16 bytes. -/
def UdpParsed.message : UdpParsed → Option UdpMessage
  | .discover a => some (.discover (a.msgIp, a.port.toNat))
  | .reply a => some (.reply (snprintf 16 [.str a.msgIp], a.port.toNat))
  | .ignored => none

def UdpMessage.address : UdpMessage → Address
  | .discover sender => sender
  | .reply master => master

/-- The datagram in which a node that donates `chunks` pages sends a message. -/
def UdpMessage.datagram (chunks : UInt32) : UdpMessage → List UInt8
  | .discover sender =>
      snprintf udpBufferSize (discoverMsgFmt sender.1 (UInt16.ofNat sender.2) chunks)
  | .reply master =>
      snprintf udpBufferSize (discoverReplyFmt master.1 (UInt16.ofNat master.2) chunks)

theorem message_udpParse_datagram {msg : UdpMessage} (hip : TextIp msg.address.1)
    (hport : msg.address.2 < 2 ^ 16) (chunks : UInt32) :
    (udpParse (msg.datagram chunks)).message = some msg := by
  have hback : ∀ (ip : List UInt8) (p : Nat) (c : Int32), p < 2 ^ 16 →
      (Announcement.mk ip (UInt16.ofNat p).toUInt32.toInt32 c).port.toNat = p := by
    intro ip p c hp
    simpa [Announcement.port] using hp
  cases msg with
  | discover sender =>
      have hsender : TextIp sender.1 := hip
      rw [UdpMessage.datagram, udpParse_discoverMsg hsender]
      exact congrArg (fun p => some (UdpMessage.discover (sender.1, p))) (hback _ _ _ hport)
  | reply master =>
      have hmaster : TextIp master.1 := hip
      have hprint : print [.str master.1] = master.1 := by simp [print, Piece.bytes]
      have hwhole : snprintf 16 [.str master.1] = master.1 := by
        rw [snprintf_of_length_lt (by rw [hprint]; exact Nat.lt_succ_of_le hmaster.length), hprint]
      rw [UdpMessage.datagram, udpParse_discoverReply hmaster]
      simp only [UdpParsed.message, hwhole]
      exact congrArg (fun p => some (UdpMessage.reply (master.1, p))) (hback _ _ _ hport)

end Dsm
