import Dsm.Tcp.Receive

/-!
# A peer that goes away

`handle_client_data` call by call of `recv`, with the `errno` of its thread. The loop that reads a
payload tries again where `recv` returns nothing and `errno` is `EAGAIN`; but an end-of-file sets no
`errno`, so what decides then is the value that an earlier call has left. The call returns on every
other way in which a connection ends (`client_read_returns_iff`).

What `recv` brings is up to the network, call by call, also for the call with `MSG_PEEK` and for the
one after it. A `usleep` that is not interrupted leaves `errno` alone.
-/

namespace Dsm.Tcp

abbrev Errno := Nat

/-- `EAGAIN`, which is `EWOULDBLOCK` too. -/
def eagain : Errno := 11

/-- The outcome of a call of `recv`. -/
inductive RecvResult where
  /-- At least one byte, of which the call takes as many as it has asked for. If the call completes a
  message, `left` is the `errno` that `dsm_handle_message` leaves, where it sets it. -/
  | data (first : UInt8) (more : List UInt8) (left : Option Errno)
  /-- `recv` returns `0`. -/
  | eof
  /-- `recv` returns `-1`. -/
  | error (errno : Errno)
deriving DecidableEq, Repr

/-- A call of `handle_client_data`; it has returned where `pc` is `idle`. -/
structure ClientRead where
  pc : Receiver
  errno : Errno
  closed : Bool
  handled : List (Header × Option (List UInt8))
deriving DecidableEq, Repr

namespace ClientRead

/-- The call of `dsm_handle_message`, after which the next message is peeked for. -/
def handle (s : ClientRead) (header : Header) (payload : Option (List UInt8))
    (left : Option Errno) : ClientRead :=
  { s with
    pc := .peeking, errno := left.getD s.errno, handled := s.handled ++ [(header, payload)] }

/-- What `header.magic` and `header.payload_len` decide. -/
def onHeader (s : ClientRead) (header : Header) (left : Option Errno) : ClientRead :=
  if header.magic ≠ magic then { s with pc := .idle }
  else if 0 < header.payloadLen.toNat then
    if header.payloadLen.toNat > tcpBufferSize then { s with pc := .idle }
    else { s with pc := .payload header [] }
  else s.handle header none left

/-- The head of the loop that reads the payload. -/
def onPayload (s : ClientRead) (header : Header) (recvBuf : List UInt8) (left : Option Errno) :
    ClientRead :=
  if recvBuf.length < header.payloadLen.toNat then { s with pc := .payload header recvBuf }
  else s.handle header (some recvBuf) left

/-- One call of `recv`, and what follows up to the next one. -/
def next (s : ClientRead) (result : RecvResult) : ClientRead :=
  match s.pc with
  | .idle => s
  | .peeking =>
      match result with
      | .data first more _ =>
          if ((first :: more).take headerSize).length < headerSize then { s with pc := .idle }
          else { s with pc := .peeked }
      | .eof => { s with pc := .idle, closed := true }
      | .error errno => { s with pc := .idle, errno := errno, closed := decide (errno ≠ eagain) }
  | .peeked =>
      match result with
      | .data first more left =>
          let bytes := (first :: more).take headerSize
          if bytes.length ≠ headerSize then { s with pc := .idle }
          else s.onHeader (Header.decode bytes) left
      | .eof => { s with pc := .idle }
      | .error errno => { s with pc := .idle, errno := errno }
  | .payload header recvBuf =>
      match result with
      | .data first more left =>
          s.onPayload header
            (recvBuf ++ (first :: more).take (header.payloadLen.toNat - recvBuf.length)) left
      -- `recv` has not set `errno`
      | .eof => if s.errno = eagain then s else { s with pc := .idle }
      | .error errno =>
          if errno = eagain then { s with errno := errno }
          else { s with pc := .idle, errno := errno }

/-- The call after the first `n` outcomes. -/
def run (s : ClientRead) (results : Nat → RecvResult) : Nat → ClientRead
  | 0 => s
  | n + 1 => (s.run results n).next (results n)

/-- The call returns. -/
def Returns (s : ClientRead) (results : Nat → RecvResult) : Prop :=
  ∃ n, (s.run results n).pc = .idle

/-- The call is in the payload loop, and the last call that has set `errno` has set it to `EAGAIN`. -/
def TriesAgain (s : ClientRead) : Prop :=
  (∃ header recvBuf, s.pc = .payload header recvBuf) ∧ s.errno = eagain

end ClientRead

/-- A finite sequence of outcomes, and then one outcome for ever. -/
def followedBy (results : List RecvResult) (last : RecvResult) (n : Nat) : RecvResult :=
  results.getD n last

/-! ### The receiver is that of the whole connection -/

theorem onHeader_receiver (s : ClientRead) (c : Connection) (header : Header)
    (left : Option Errno) : (s.onHeader header left).pc = (c.onHeader header).receiver := by
  rw [ClientRead.onHeader, Connection.onHeader]
  split_ifs <;> rfl

theorem onPayload_receiver (s : ClientRead) (c : Connection) (header : Header)
    (recvBuf : List UInt8) (left : Option Errno) :
    (s.onPayload header recvBuf left).pc = (c.onPayload header recvBuf).receiver := by
  rw [ClientRead.onPayload, Connection.onPayload]
  split_ifs <;> rfl

/-! ### The end of a sequence of outcomes -/

namespace ClientRead

variable {s : ClientRead}

theorem run_add (results : Nat → RecvResult) (m n : Nat) :
    s.run results (m + n) = (s.run results m).run (fun i => results (m + i)) n := by
  induction n with
  | zero => rfl
  | succ n ih => rw [← Nat.add_assoc, run, run, ih]

theorem run_congr {results results' : Nat → RecvResult} {n : Nat}
    (h : ∀ i < n, results i = results' i) : s.run results n = s.run results' n := by
  induction n with
  | zero => rfl
  | succ n ih =>
      rw [run, run, h n (Nat.lt_succ_self n), ih fun i hi => h i (Nat.lt_succ_of_lt hi)]

theorem run_followedBy (results : List RecvResult) (last : RecvResult) :
    s.run (followedBy results last) results.length = results.foldl next s := by
  induction results using List.reverseRecOn with
  | nil => rfl
  | append_singleton results result ih =>
      have hbefore : s.run (followedBy (results ++ [result]) last) results.length =
          s.run (followedBy results last) results.length := by
        apply run_congr
        intro i hi
        simp [followedBy, hi, List.getElem?_append_left]
      rw [List.length_append, List.length_singleton, run, hbefore, ih, List.foldl_append]
      simp [followedBy]

theorem next_idle (h : s.pc = .idle) (result : RecvResult) : s.next result = s := by
  simp only [next, h]

theorem run_idle (h : s.pc = .idle) (results : Nat → RecvResult) (n : Nat) :
    s.run results n = s := by
  induction n with
  | zero => rfl
  | succ n ih => rw [run, ih, next_idle h]

theorem run_pc_idle {results : Nat → RecvResult} {m : Nat} (h : (s.run results m).pc = .idle)
    (n : Nat) : (s.run results (m + n)).pc = .idle := by
  rw [run_add, run_idle h, h]

/-- What the call does after the finite sequence does not depend on how it has come there. -/
theorem returns_followedBy (results : List RecvResult) (last : RecvResult) :
    s.Returns (followedBy results last) ↔ (results.foldl next s).Returns fun _ => last := by
  have htail : ∀ n, s.run (followedBy results last) (results.length + n) =
      (results.foldl next s).run (fun _ => last) n := by
    intro n
    rw [run_add, run_followedBy]
    apply run_congr
    intro i _
    simp [followedBy]
  constructor
  · intro h
    obtain ⟨n, hn⟩ := h
    have hlater : (s.run (followedBy results last) (results.length + n)).pc = .idle := by
      rw [Nat.add_comm]
      exact run_pc_idle hn results.length
    exact ⟨n, by rw [← htail, hlater]⟩
  · intro h
    obtain ⟨n, hn⟩ := h
    exact ⟨results.length + n, by rw [htail, hn]⟩

theorem next_error_idle {errno : Errno} (h : errno ≠ eagain) :
    (s.next (.error errno)).pc = .idle := by
  cases hpc : s.pc with
  | idle => rw [next_idle hpc, hpc]
  | peeking | peeked => simp only [next, hpc]
  | payload header recvBuf => simp only [next, hpc, if_neg h]

/-- An end-of-file ends the call unless the payload loop takes it for an `EAGAIN`. -/
theorem next_eof_idle (h : ¬ s.TriesAgain) : (s.next .eof).pc = .idle := by
  cases hpc : s.pc with
  | idle => rw [next_idle hpc, hpc]
  | peeking | peeked => simp only [next, hpc]
  | payload header recvBuf =>
      have hne : s.errno ≠ eagain := fun heq => h ⟨⟨header, recvBuf, hpc⟩, heq⟩
      simp only [next, hpc, if_neg hne]

theorem run_eof_of_triesAgain (h : s.TriesAgain) (n : Nat) : s.run (fun _ => .eof) n = s := by
  obtain ⟨⟨header, recvBuf, hpc⟩, herrno⟩ := h
  induction n with
  | zero => rfl
  | succ n ih =>
      rw [run, ih]
      simp only [next, hpc, if_pos herrno]

end ClientRead

/-- From any point of a call, after any finite sequence of outcomes: with a fatal error for ever the
call returns, and with an end-of-file for ever it returns exactly if the loop that reads a payload
does not begin the end-of-file with `EAGAIN` in `errno`. -/
theorem client_read_returns_iff (s : ClientRead) (results : List RecvResult) :
    (∀ errno ≠ eagain, s.Returns (followedBy results (.error errno))) ∧
      (s.Returns (followedBy results .eof) ↔ ¬ (results.foldl ClientRead.next s).TriesAgain) := by
  constructor
  · intro errno herrno
    rw [ClientRead.returns_followedBy]
    exact ⟨1, ClientRead.next_error_idle herrno⟩
  · rw [ClientRead.returns_followedBy]
    constructor
    · intro h htries
      obtain ⟨n, hn⟩ := h
      have hpc := htries.1
      obtain ⟨header, recvBuf, hpc⟩ := hpc
      rw [ClientRead.run_eof_of_triesAgain htries, hpc] at hn
      cases hn
    · intro h
      exact ⟨1, ClientRead.next_eof_idle h⟩

/-- A call as it begins. -/
private def called : ClientRead :=
  { pc := .peeking, errno := 0, closed := false, handled := [] }

/-- A whole header, which announces a payload of four bytes. -/
private def announced : RecvResult :=
  .data 0 [0x4d, 0x53, 0x44, 10, 0, 0, 0, 2, 0, 0, 0, 1, 0, 0, 0, 0, 0, 0, 0, 4, 0, 0, 0] none

/-- The peer sends the header and two bytes of the payload, and goes away. -/
theorem client_read_returns_iff_two_bytes :
    called.Returns (followedBy [announced, announced, .data 1 [2] none] .eof) := by
  apply (client_read_returns_iff called [announced, announced, .data 1 [2] none]).2.mpr
  intro htries
  have herrno : ([announced, announced, .data 1 [2] none].foldl ClientRead.next called).errno = 0 :=
    rfl
  exact absurd (herrno.symm.trans htries.2) (by decide)

/-- The peer sends the header and goes away once `recv` has returned `EAGAIN` in the payload loop. -/
theorem client_read_not_returning :
    ¬ (∀ results, called.Returns (followedBy results .eof)) := by
  intro h
  obtain ⟨n, hn⟩ := (ClientRead.returns_followedBy _ _).mp
    (h [announced, announced, .error eagain])
  have htries : ([announced, announced, .error eagain].foldl ClientRead.next called).TriesAgain :=
    ⟨⟨_, _, rfl⟩, rfl⟩
  obtain ⟨⟨header, recvBuf, hpc⟩, -⟩ := id htries
  rw [ClientRead.run_eof_of_triesAgain htries, hpc] at hn
  cases hn

end Dsm.Tcp
