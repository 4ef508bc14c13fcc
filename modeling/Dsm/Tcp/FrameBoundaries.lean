import Dsm.Tcp.Receive

/-!
# Headers at the starts of frames

A stream of frames whose payloads may hold anything, among it bytes that look like frames. The
receiver keeps to the starts of the frames as long as it takes every payload that it has read the
header of. On a header that announces more than its buffer holds it returns and leaves the payload
where it is, so the next call reads the payload's first bytes as a header. For a sequence of headers,
then, all calls carry headers of frames whatever the payloads are exactly when every payload fits
(`calls_at_frames_iff`).
-/

namespace Dsm.Tcp

/-- A receiver and the offsets of what it reads, counted from the start of the stream. -/
structure StreamState where
  conn : Connection
  /-- How many bytes `recv` has taken. -/
  consumed : Nat
  /-- Where the header starts that was read last. -/
  headerAt : Nat
  /-- The calls of `dsm_handle_message`, each with the offset of its header. -/
  calls : List (Nat × Header × Option (List UInt8))
deriving DecidableEq, Repr

/-- How many bytes the `recv` of an action takes out of the socket. -/
def Action.takes : Action → Nat
  | .readHeader => headerSize
  | .readPayload k => k
  | _ => 0

def StreamState.step (s : StreamState) (a : Action) : Option StreamState :=
  (Tcp.step s.conn a).map fun conn =>
    let headerAt := if a = .readHeader then s.consumed else s.headerAt
    { conn := conn
      consumed := s.consumed + a.takes
      headerAt := headerAt
      calls := s.calls ++
        (conn.handled.drop s.conn.handled.length).map fun call => (headerAt, call) }

def arriving (stream : List UInt8) : Connection :=
  { queue := [], buffers := [], wire := stream, rcv := [], receiver := .idle, notified := false,
    handled := [] }

/-- The frames are on their way to a receiver that has read nothing yet. -/
def streamMachine (frames : List Message) : Machine StreamState Action where
  start s := s =
    { conn := arriving (frames.flatMap Message.frame), consumed := 0, headerAt := 0, calls := [] }
  step := StreamState.step

/-- The calls that the frames are meant to lead to, from an offset on, each with the offset of its
frame. -/
def frameStarts : Nat → List Message → List (Nat × Header × Option (List UInt8))
  | _, [] => []
  | offset, m :: frames => (offset, m.call) :: frameStarts (offset + m.frame.length) frames

theorem frameStarts_append (offset : Nat) (as bs : List Message) :
    frameStarts offset (as ++ bs) =
      frameStarts offset as ++ frameStarts (offset + (as.flatMap Message.frame).length) bs := by
  induction as generalizing offset with
  | nil => rfl
  | cons m as ih =>
      rw [List.cons_append, frameStarts, ih, frameStarts, List.cons_append, List.flatMap_cons,
        List.length_append, Nat.add_assoc]

/-! ### Payloads that fit -/

/-- The frames that have been handled, and where the receiver stands after them. -/
structure StreamInv (frames : List Message) (s : StreamState) : Prop where
  conn : ConnectionInv frames s.conn
  consumed : s.consumed + s.conn.ahead.length = (frames.flatMap Message.frame).length
  calls : s.calls = frameStarts 0 (frames.take s.conn.handled.length)
  headerAt : ∀ header recvBuf, s.conn.receiver = .payload header recvBuf →
    s.headerAt = ((frames.take s.conn.handled.length).flatMap Message.frame).length

section Steps

variable {frames : List Message} {s t : StreamState}

theorem ConnectionInv.handled_eq {conn : Connection} (h : ConnectionInv frames conn) :
    conn.handled = (frames.take conn.handled.length).map Message.call ∧
      conn.receiver.taken ++ conn.ahead =
        (frames.drop conn.handled.length).flatMap Message.frame := by
  obtain ⟨done, rest, rfl, hdone, hstream⟩ := h.framed
  have hlength : conn.handled.length = done.length := by rw [hdone, List.length_map]
  rw [hlength, List.take_left, List.drop_left]
  exact ⟨hdone, hstream⟩

/-- A receiver that is not inside a payload has taken the frames of the handled messages. -/
theorem StreamInv.consumed_eq (h : StreamInv frames s) (htaken : s.conn.receiver.taken = []) :
    s.consumed = ((frames.take s.conn.handled.length).flatMap Message.frame).length := by
  have hahead := h.conn.handled_eq.2
  rw [htaken, List.nil_append] at hahead
  have hsplit : ((frames.take s.conn.handled.length).flatMap Message.frame).length +
      s.conn.ahead.length = (frames.flatMap Message.frame).length := by
    rw [hahead, ← List.length_append, ← List.flatMap_append, List.take_append_drop]
  have hconsumed := h.consumed
  omega

/-- What a step of the connection leaves of the calls, if the header that is being read starts where
the handled frames end. -/
theorem StreamInv.of_step (h : StreamInv frames s) {conn : Connection} {headerAt consumed : Nat}
    (hconn : ConnectionInv frames conn)
    (hconsumed : consumed + conn.ahead.length = (frames.flatMap Message.frame).length)
    (hheader : conn.handled = s.conn.handled ∨ (∃ call, conn.handled = s.conn.handled ++ [call]) ∧
      conn.receiver.taken = [])
    (hstart : (conn.handled ≠ s.conn.handled ∨ conn.receiver.taken ≠ []) →
      headerAt = ((frames.take s.conn.handled.length).flatMap Message.frame).length) :
    StreamInv frames
      { conn := conn, consumed := consumed, headerAt := headerAt
        calls := s.calls ++
          (conn.handled.drop s.conn.handled.length).map fun call => (headerAt, call) } := by
  rcases hheader with hsame | ⟨⟨call, hcall⟩, htaken⟩
  · refine ⟨hconn, hconsumed, ?_, fun header recvBuf hpc => ?_⟩
    · simp only [hsame, List.drop_length, List.map_nil, List.append_nil]
      exact h.calls
    · simp only [hsame]
      refine hstart (.inr fun hnil => ?_)
      rw [show conn.receiver = _ from hpc, Receiver.taken] at hnil
      exact header.encode_ne_nil (List.append_eq_nil_iff.mp hnil).1
  · have hoffset := hstart (.inl (by simp [hcall]))
    have hlength : conn.handled.length = s.conn.handled.length + 1 := by simp [hcall]
    have hlt : s.conn.handled.length < frames.length := by
      have hmap := congrArg List.length hconn.handled_eq.1
      rw [List.length_map, List.length_take, hlength] at hmap
      omega
    have htake : frames.take conn.handled.length =
        frames.take s.conn.handled.length ++ [frames[s.conn.handled.length]] := by
      rw [hlength, List.take_succ_eq_append_getElem hlt]
    have hframe : call = frames[s.conn.handled.length].call := by
      have hmap := hconn.handled_eq.1
      rw [htake, List.map_append, ← h.conn.handled_eq.1] at hmap
      have hlast := List.append_cancel_left (hcall.symm.trans hmap)
      exact (List.cons.inj hlast).1
    refine ⟨hconn, hconsumed, ?_, fun header recvBuf hpc => ?_⟩
    · simp only [hcall, List.drop_left, List.map_cons, List.map_nil]
      rw [← hcall, htake, frameStarts_append, h.calls, hframe, hoffset, Nat.zero_add]
      rfl
    · rw [show conn.receiver = _ from hpc, Receiver.taken] at htaken
      exact (header.encode_ne_nil (List.append_eq_nil_iff.mp htaken).1).elim

theorem StreamInv.headerAt_of_taken (h : StreamInv frames s) (htaken : s.conn.receiver.taken ≠ []) :
    s.headerAt = ((frames.take s.conn.handled.length).flatMap Message.frame).length := by
  cases hpc : s.conn.receiver with
  | payload header recvBuf => exact h.headerAt header recvBuf hpc
  | idle | peeking | peeked =>
      rw [hpc] at htaken
      exact (htaken rfl).elim

theorem StreamInv.moved (h : StreamInv frames s) {conn : Connection}
    (hconn : ConnectionInv frames conn) (hahead : conn.ahead = s.conn.ahead)
    (hhandled : conn.handled = s.conn.handled)
    (htaken : conn.receiver.taken = s.conn.receiver.taken) :
    StreamInv frames
      { conn := conn, consumed := s.consumed + 0, headerAt := s.headerAt
        calls := s.calls ++
          (conn.handled.drop s.conn.handled.length).map fun call => (s.headerAt, call) } := by
  refine h.of_step hconn (by rw [hahead]; exact h.consumed) (.inl hhandled) fun hread => ?_
  exact h.headerAt_of_taken (htaken ▸ hread.resolve_left fun hne => hne hhandled)

theorem onHeader_cases (conn : Connection) (header : Header) :
    (conn.onHeader header).ahead = conn.ahead ∧
      ((conn.onHeader header).handled = conn.handled ∨
        (∃ call, (conn.onHeader header).handled = conn.handled ++ [call]) ∧
          (conn.onHeader header).receiver.taken = []) := by
  simp only [Connection.onHeader]
  split_ifs
  · exact ⟨rfl, .inl rfl⟩
  · exact ⟨rfl, .inl rfl⟩
  · exact ⟨rfl, .inl rfl⟩
  · exact ⟨rfl, .inr ⟨⟨_, rfl⟩, rfl⟩⟩

theorem onPayload_cases (conn : Connection) (header : Header) (recvBuf : List UInt8) :
    (conn.onPayload header recvBuf).ahead = conn.ahead ∧
      ((conn.onPayload header recvBuf).handled = conn.handled ∨
        (∃ call, (conn.onPayload header recvBuf).handled = conn.handled ++ [call]) ∧
          (conn.onPayload header recvBuf).receiver.taken = []) := by
  simp only [Connection.onPayload]
  split_ifs
  · exact ⟨rfl, .inl rfl⟩
  · exact ⟨rfl, .inr ⟨⟨_, rfl⟩, rfl⟩⟩

theorem length_ahead_drop {conn : Connection} {k : Nat} (hk : k ≤ conn.rcv.length) :
    k + (Connection.ahead { conn with rcv := conn.rcv.drop k }).length = conn.ahead.length := by
  simp only [Connection.ahead, List.length_append, List.length_drop]
  omega

theorem StreamInv.step {a : Action} (h : StreamInv frames s) (hframes : ∀ m ∈ frames, m.WellFormed)
    (ha : s.step a = some t) : StreamInv frames t := by
  obtain ⟨conn, hstep, rfl⟩ := Option.map_eq_some_iff.mp ha
  have hconn := h.conn.step hframes hstep
  cases step_effect hstep with
  | @begin m queue hbuffers hqueue =>
      have hm : m.WellFormed := h.conn.queue m (hqueue ▸ List.mem_cons_self)
      exact h.moved hconn (ahead_begin hm hbuffers hqueue) rfl rfl
  | accept hbuffers hpos hk => exact h.moved hconn (ahead_accept hbuffers hk) rfl rfl
  | @deliver k hpos hk => exact h.moved hconn (ahead_deliver s.conn k) rfl rfl
  | call hpc | peekAgain hpc | peekShort hpc | peek hpc =>
      exact h.moved hconn rfl rfl (by rw [hpc]; rfl)
  | readHeader hpc =>
      obtain ⟨hahead, hhandled⟩ := onHeader_cases { s.conn with rcv := s.conn.rcv.drop headerSize }
        (Header.decode (s.conn.rcv.take headerSize))
      have hlength := length_ahead_drop (h.conn.peeked hpc)
      refine h.of_step hconn ?_ hhandled fun _ => h.consumed_eq (by rw [hpc]; rfl)
      rw [hahead, Action.takes, Nat.add_assoc, hlength]
      exact h.consumed
  | @readPayload k header recvBuf hpc hpos hk hfits =>
      obtain ⟨hahead, hhandled⟩ := onPayload_cases { s.conn with rcv := s.conn.rcv.drop k } header
        (recvBuf ++ s.conn.rcv.take k)
      have hlength := length_ahead_drop hk
      refine h.of_step hconn ?_ hhandled fun _ => h.headerAt header recvBuf hpc
      rw [hahead, Action.takes, Nat.add_assoc, hlength]
      exact h.consumed

theorem StreamInv.start (h : (streamMachine frames).start s) : StreamInv frames s := by
  obtain rfl := h
  refine ⟨⟨nofun, ⟨[], frames, rfl, rfl, ?_⟩, nofun, nofun, fun _ _ => (by decide : 0 < headerSize)⟩,
    ?_, rfl, nofun⟩
  · simp [arriving, Connection.ahead, Receiver.taken]
  · simp [arriving, Connection.ahead]

end Steps

/-- Where every payload fits, all calls are the calls of the frames, in their order. -/
theorem calls_sublist {frames : List Message} (hframes : ∀ m ∈ frames, m.WellFormed)
    {s : StreamState} (hs : (streamMachine frames).Reachable s) :
    s.calls.Sublist (frameStarts 0 frames) := by
  have hinv : StreamInv frames s :=
    hs.invariant (fun _ hstart => .start hstart) fun s a t (h : StreamInv frames s)
      (ha : s.step a = some t) => h.step hframes ha
  rw [hinv.calls]
  have hsplit := frameStarts_append 0 (frames.take s.conn.handled.length)
    (frames.drop s.conn.handled.length)
  rw [List.take_append_drop] at hsplit
  rw [hsplit]
  exact List.sublist_append_left _ _

/-! ### A payload that does not fit -/

section Oversize

variable {frames : List Message}

/-- The receiver before its next peek, with these bytes in its socket. -/
def reading (rcv : List UInt8) (notified : Bool) (handled : List (Header × Option (List UInt8)))
    (consumed headerAt : Nat) (calls : List (Nat × Header × Option (List UInt8))) : StreamState :=
  { conn := { queue := [], buffers := [], wire := [], rcv := rcv, receiver := .peeking
              notified := notified, handled := handled }
    consumed := consumed, headerAt := headerAt, calls := calls }

variable {more : List UInt8} {notified : Bool} {handled : List (Header × Option (List UInt8))}
  {consumed headerAt : Nat} {calls : List (Nat × Header × Option (List UInt8))}

/-- What the receiver does with the next header, up to its next `recv` or its return. -/
theorem reachable_header {header : Header}
    (h : (streamMachine frames).Reachable
      (reading (header.encode ++ more) notified handled consumed headerAt calls)) :
    (streamMachine frames).Reachable
      (let conn := Connection.onHeader (reading more notified handled consumed headerAt calls).conn header
       { conn := conn, consumed := consumed + headerSize, headerAt := consumed
         calls := calls ++ (conn.handled.drop handled.length).map fun call => (consumed, call) }) := by
  have hlength : (header.encode ++ more).length = headerSize + more.length := by
    rw [List.length_append, Header.length_encode]
  have htake : (header.encode ++ more).take headerSize = header.encode :=
    List.take_left' header.length_encode
  have hdrop : (header.encode ++ more).drop headerSize = more := List.drop_left' header.length_encode
  have hpeek : (streamMachine frames).Reachable
      { conn := { (reading (header.encode ++ more) notified handled consumed headerAt calls).conn with
          receiver := .peeked }
        consumed := consumed, headerAt := headerAt, calls := calls } := by
    refine h.step (.peek headerSize) ?_
    simp [streamMachine, StreamState.step, Tcp.step, reading, hlength, Action.takes, headerSize]
  refine hpeek.step .readHeader ?_
  simp only [streamMachine, StreamState.step, Tcp.step, reading, if_true, Option.map_some, htake, hdrop,
    Header.decode_encode, Action.takes]
  simp only [Connection.onHeader]

theorem reachable_frame {m : Message} (hm : m.WellFormed)
    (h : (streamMachine frames).Reachable
      (reading (m.frame ++ more) notified handled consumed headerAt calls)) :
    (streamMachine frames).Reachable (reading more notified (handled ++ [m.call])
      (consumed + m.frame.length) consumed (calls ++ [(consumed, m.call)])) := by
  have hsplit : m.frame ++ more = m.header.encode ++ (m.payload ++ more) := List.append_assoc ..
  have hframe : m.frame.length = headerSize + m.header.payloadLen.toNat := by
    rw [Message.frame, List.length_append, Header.length_encode, hm.length]
  rw [hsplit] at h
  have hheader := reachable_header h
  by_cases hzero : m.header.payloadLen.toNat = 0
  · have hnil : m.payload = [] := List.eq_nil_of_length_eq_zero (hm.length.trans hzero)
    simpa [Connection.onHeader, hm.magic, hzero, reading, hnil, hframe, Message.call] using hheader
  · have hpos : 0 < m.header.payloadLen.toNat := Nat.pos_of_ne_zero hzero
    have hpayload : (streamMachine frames).Reachable
        { conn := { queue := [], buffers := [], wire := [], rcv := m.payload ++ more
                    receiver := .payload m.header [], notified := notified, handled := handled }
          consumed := consumed + headerSize, headerAt := consumed, calls := calls } := by
      have hfits : ¬ tcpBufferSize < m.header.payloadLen.toNat := Nat.not_lt.mpr hm.small
      simpa [Connection.onHeader, hm.magic, hpos, hfits, reading] using hheader
    refine hpayload.step (.readPayload m.header.payloadLen.toNat) ?_
    have htake : (m.payload ++ more).take m.header.payloadLen.toNat = m.payload :=
      List.take_left' hm.length
    have hdrop : (m.payload ++ more).drop m.header.payloadLen.toNat = more :=
      List.drop_left' hm.length
    simp [streamMachine, StreamState.step, Tcp.step, reading, Action.takes, Connection.onPayload, hpos,
      htake, hdrop, hm.length, hframe, Message.call, hzero, Nat.add_assoc]

/-- On a header that announces too much the receiver returns with the payload still in its socket, and
the next call begins there. -/
theorem reachable_after_oversize {header : Header} (hmagic : header.magic = magic)
    (hlarge : tcpBufferSize < header.payloadLen.toNat)
    (h : (streamMachine frames).Reachable
      (reading (header.encode ++ more) notified handled consumed headerAt calls)) :
    (streamMachine frames).Reachable
      (reading more notified handled (consumed + headerSize) consumed calls) := by
  have hpos : 0 < header.payloadLen.toNat := Nat.lt_of_le_of_lt (Nat.zero_le _) hlarge
  have hidle : (streamMachine frames).Reachable
      { conn := { queue := [], buffers := [], wire := [], rcv := more, receiver := .idle
                  notified := notified, handled := handled }
        consumed := consumed + headerSize, headerAt := consumed, calls := calls } := by
    simpa [Connection.onHeader, hmagic, hpos, hlarge, reading] using reachable_header h
  refine hidle.step .call ?_
  simp [streamMachine, StreamState.step, Tcp.step, reading, Action.takes]

theorem reachable_frames {pre : List Message} (hpre : ∀ m ∈ pre, m.WellFormed)
    (h : (streamMachine frames).Reachable
      (reading (pre.flatMap Message.frame ++ more) notified handled consumed headerAt calls)) :
    ∃ handled' headerAt' calls', (streamMachine frames).Reachable
      (reading more notified handled' (consumed + (pre.flatMap Message.frame).length) headerAt'
        calls') := by
  induction pre generalizing handled consumed headerAt calls with
  | nil => exact ⟨handled, headerAt, calls, h⟩
  | cons m pre ih =>
      rw [List.flatMap_cons, List.append_assoc] at h
      obtain ⟨handled', headerAt', calls', hnext⟩ := ih
        (fun m' hm' => hpre m' (List.mem_cons_of_mem _ hm'))
        (reachable_frame (hpre m List.mem_cons_self) h)
      refine ⟨handled', headerAt', calls', ?_⟩
      rw [List.flatMap_cons, List.length_append, ← Nat.add_assoc]
      exact hnext

theorem reachable_arrived (hne : frames.flatMap Message.frame ≠ []) :
    (streamMachine frames).Reachable (reading (frames.flatMap Message.frame) true [] 0 0 []) := by
  have hpos : 0 < (frames.flatMap Message.frame).length := List.length_pos_of_ne_nil hne
  have harrived : (streamMachine frames).Reachable
      { conn := { arriving [] with rcv := frames.flatMap Message.frame, notified := true }
        consumed := 0, headerAt := 0, calls := [] } := by
    refine (Machine.Reachable.start rfl).step (.deliver (frames.flatMap Message.frame).length) ?_
    simp [-List.length_flatMap, streamMachine, StreamState.step, Tcp.step, arriving, Action.takes, hpos]
  refine harrived.step .call ?_
  simp [streamMachine, StreamState.step, Tcp.step, arriving, reading, Action.takes]

/-- A header without a payload. -/
def embedded : Header :=
  { magic := magic, type := 0x42, srcNode := 2, dstNode := 1, seqNum := 0, payloadLen := 0 }

/-- A frame whose payload begins like a frame. -/
def disguised (header : Header) : Message :=
  { header := header
    payload := embedded.encode ++ List.replicate (header.payloadLen.toNat - headerSize) 0 }

theorem offset_of_mem_frameStarts {offset : Nat} {frames : List Message}
    {x : Nat × Header × Option (List UInt8)} (hx : x ∈ frameStarts offset frames) : offset ≤ x.1 := by
  induction frames generalizing offset with
  | nil => cases hx
  | cons m frames ih =>
      rcases List.mem_cons.mp hx with rfl | hx
      · exact le_refl _
      · exact (Nat.le_add_right _ _).trans (ih hx)

theorem offset_lt_of_mem_frameStarts {offset : Nat} {frames : List Message}
    {x : Nat × Header × Option (List UInt8)} (hx : x ∈ frameStarts offset frames) :
    x.1 < offset + (frames.flatMap Message.frame).length := by
  induction frames generalizing offset with
  | nil => cases hx
  | cons m frames ih =>
      have hpos : 0 < m.frame.length := by
        rw [Message.frame, List.length_append, Header.length_encode, headerSize]
        omega
      rw [List.flatMap_cons, List.length_append]
      rcases List.mem_cons.mp hx with rfl | hx
      · dsimp only
        omega
      · have hlt := ih hx
        omega

/-- A header that announces too much is followed by a call with a header out of its payload. -/
theorem reachable_misread {pre : List Message} (post : List Message) {header : Header}
    (hpre : ∀ m ∈ pre, m.WellFormed) (hmagic : header.magic = magic)
    (hlarge : tcpBufferSize < header.payloadLen.toNat) :
    ∃ s, (streamMachine (pre ++ disguised header :: post)).Reachable s ∧
      ¬ s.calls.Sublist (frameStarts 0 (pre ++ disguised header :: post)) := by
  have hstream : (pre ++ disguised header :: post).flatMap Message.frame =
      pre.flatMap Message.frame ++ (header.encode ++ (embedded.encode ++
        (List.replicate (header.payloadLen.toNat - headerSize) 0 ++
          post.flatMap Message.frame))) := by
    simp [Message.frame, disguised]
  have hne : (pre ++ disguised header :: post).flatMap Message.frame ≠ [] := by
    rw [hstream]
    simp [header.encode_ne_nil]
  have hstart := reachable_arrived hne
  rw [hstream] at hstart
  obtain ⟨handled, headerAt, calls, hpayload⟩ := reachable_frames hpre hstart
  have hembedded : Message.WellFormed { header := embedded, payload := [] } := ⟨rfl, by decide, rfl⟩
  have hmisread := reachable_frame hembedded (reachable_after_oversize hmagic hlarge hpayload)
  refine ⟨_, hmisread, fun hsublist => ?_⟩
  have hmem := hsublist.subset (List.mem_append_right _ (List.mem_singleton_self _))
  rw [frameStarts_append] at hmem
  rcases List.mem_append.mp hmem with hbefore | hmem
  · have hlt := offset_lt_of_mem_frameStarts hbefore
    dsimp only at hlt
    omega
  · rcases List.mem_cons.mp hmem with hsame | hafter
    · have hoffset := congrArg Prod.fst hsame
      simp only [headerSize] at hoffset
      omega
    · have hle := offset_of_mem_frameStarts hafter
      have hlength : (disguised header).frame.length =
          headerSize + (headerSize + (header.payloadLen.toNat - headerSize)) := by
        simp [Message.frame, disguised]
      rw [hlength] at hle
      simp only [headerSize] at hle
      omega

theorem length_disguised {header : Header} (hlarge : tcpBufferSize < header.payloadLen.toNat) :
    (disguised header).payload.length = header.payloadLen.toNat := by
  rw [tcpBufferSize] at hlarge
  simp only [disguised, List.length_append, Header.length_encode, List.length_replicate, headerSize]
  omega

end Oversize

/-- A stream of frames with these headers, and with payloads as long as the headers say. -/
def FramesOf (headers : List Header) (frames : List Message) : Prop :=
  frames.map Message.header = headers ∧
    ∀ m ∈ frames, m.payload.length = m.header.payloadLen.toNat

def zeros (header : Header) : Message :=
  { header := header, payload := List.replicate header.payloadLen.toNat 0 }

/-- The calls are those of the frames, in their order, whatever the payloads hold and however the
stream is cut, exactly when every header announces a payload that fits the buffer. -/
theorem calls_at_frames_iff {headers : List Header} (hmagic : ∀ h ∈ headers, h.magic = magic) :
    (∀ frames, FramesOf headers frames → ∀ s, (streamMachine frames).Reachable s →
        s.calls.Sublist (frameStarts 0 frames)) ↔
      ∀ h ∈ headers, h.payloadLen.toNat ≤ tcpBufferSize := by
  constructor
  · intro hall
    by_contra hnot
    cases hfind : headers.find? fun h => decide (tcpBufferSize < h.payloadLen.toNat) with
    | none =>
        refine hnot fun h hh => ?_
        simpa using List.find?_eq_none.mp hfind h hh
    | some header =>
        obtain ⟨hlarge, pre, post, rfl, hpre⟩ := List.find?_eq_some_iff_append.mp hfind
        have hlarge' : tcpBufferSize < header.payloadLen.toNat := by simpa using hlarge
        have hwell : ∀ m ∈ pre.map zeros, m.WellFormed := by
          intro m hm
          obtain ⟨h, hh, rfl⟩ := List.mem_map.mp hm
          exact ⟨hmagic h (List.mem_append_left _ hh), by simpa [zeros] using hpre h hh, by simp [zeros]⟩
        obtain ⟨s, hs, hmisread⟩ := reachable_misread (post.map zeros) hwell
          (hmagic header (by simp)) hlarge'
        refine hmisread (hall _ ⟨?_, fun m hm => ?_⟩ s hs)
        · simp [Function.comp_def, zeros, disguised]
        · rcases List.mem_append.mp hm with hm | hm
          · obtain ⟨h, -, rfl⟩ := List.mem_map.mp hm
            simp [zeros]
          · rcases List.mem_cons.mp hm with rfl | hm
            · exact length_disguised hlarge'
            · obtain ⟨h, -, rfl⟩ := List.mem_map.mp hm
              simp [zeros]
  · rintro hfits frames ⟨rfl, hlength⟩ s hs
    refine calls_sublist (fun m hm => ?_) hs
    have hheader : m.header ∈ frames.map Message.header := List.mem_map_of_mem hm
    exact ⟨hmagic _ hheader, hfits _ hheader, hlength m hm⟩

private def smallHeader : Header :=
  { magic := magic, type := 0x30, srcNode := 2, dstNode := 1, seqNum := 0, payloadLen := 4 }

private def largeHeader : Header := { smallHeader with payloadLen := 65537 }

/-- A payload that begins with the magic, a frame without a payload, and one more payload. -/
private def smallFrames : List Message :=
  [⟨smallHeader, Bytes.le magic.toNat 4⟩, ⟨{ smallHeader with payloadLen := 0 }, []⟩,
   ⟨{ smallHeader with payloadLen := 2 }, [5, 6]⟩]

/-- The stream is cut inside the first header, inside the first payload and inside the last one. -/
private def smallRun : List Action :=
  [.deliver 10, .call, .peek 10, .deliver 16, .call, .peek 24, .readHeader, .readPayload 2, .deliver 51,
    .readPayload 1, .readPayload 1, .peek 24, .readHeader, .peek 24, .readHeader, .readPayload 1,
    .deliver 1, .readPayload 1, .peekAgain]

theorem calls_at_frames_small : ∃ s, (streamMachine smallFrames).Reachable s ∧
    s.calls.map Prod.fst = [0, 28, 52] ∧ s.calls.Sublist (frameStarts 0 smallFrames) := by
  have hrun : ∃ s, (streamMachine smallFrames).exec
      { conn := arriving (smallFrames.flatMap Message.frame), consumed := 0, headerAt := 0, calls := [] }
      smallRun = some s ∧ s.calls.map Prod.fst = [0, 28, 52] := ⟨_, rfl, by decide +kernel⟩
  obtain ⟨s, hexec, hcalls⟩ := hrun
  have hreachable := (Machine.Reachable.start rfl).exec hexec
  have hframes : FramesOf (smallFrames.map Message.header) smallFrames := ⟨rfl, by decide⟩
  exact ⟨s, hreachable, hcalls,
    (calls_at_frames_iff (by decide)).mpr (by decide) _ hframes _ hreachable⟩

/-- A frame with one byte more than the buffer holds, whose payload begins like a frame. -/
theorem not_calls_at_frames : FramesOf [largeHeader] [disguised largeHeader] ∧
    ∃ s, (streamMachine [disguised largeHeader]).Reachable s ∧
      ¬ s.calls.Sublist (frameStarts 0 [disguised largeHeader]) := by
  have hlarge : tcpBufferSize < largeHeader.payloadLen.toNat := by decide
  have hpre : ∀ m ∈ ([] : List Message), m.WellFormed := nofun
  have hmisread := reachable_misread [] hpre (rfl : largeHeader.magic = magic) hlarge
  refine ⟨⟨rfl, fun m hm => ?_⟩, hmisread⟩
  rw [List.mem_singleton.mp hm]
  exact length_disguised hlarge

end Dsm.Tcp
