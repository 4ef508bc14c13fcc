import Dsm.Library.Machine
import Dsm.Tcp.Message
import Mathlib.Data.List.Chain

/-!
# The threads that share one connection

`dsm_tcp_send` sends a message by two calls of `dsm_tcp_send_raw`, one for the header and one for the
payload, and so do `dsm_tcp_broadcast`, `dsm_lock`, `dsm_unlock` and `dsm_page_fault_handle`. The
threads of a node that send to the same peer take no lock around the two calls. A call appends its
bytes to the connection at once; which thread makes the next call is up to the scheduler.
-/

namespace Dsm.Tcp

inductive Part where
  | header
  | payload
deriving DecidableEq, Repr

/-- A call of `dsm_tcp_send_raw`, with the thread that makes it and the part of its message. -/
structure RawSend (τ : Type) where
  thread : τ
  message : Message
  part : Part
deriving DecidableEq, Repr

variable {τ : Type}

/-- The bytes that a call appends to the connection. -/
def RawSend.bytes (c : RawSend τ) : List UInt8 :=
  match c.part with
  | .header => c.message.header.encode
  | .payload => c.message.payload.take c.message.header.payloadLen.toNat

/-- The calls of `dsm_tcp_send`. -/
def tcpSend (t : τ) (m : Message) : List (RawSend τ) :=
  ⟨t, m, .header⟩ :: if m.HasPayload then [⟨t, m, .payload⟩] else []

/-- The calls of `dsm_tcp_broadcast` on the connection to the node `dst`. -/
def tcpBroadcast (t : τ) (m : Message) (dst : UInt32) : List (RawSend τ) :=
  let m := { m with header := { m.header with dstNode := dst } }
  ⟨t, m, .header⟩ ::
    if m.payload = [] ∨ m.header.payloadLen.toNat = 0 then [] else [⟨t, m, .payload⟩]

/-- The calls of `dsm_lock`, `dsm_unlock` and `dsm_page_fault_handle`, which always have a payload. -/
def pairedSend (t : τ) (m : Message) : List (RawSend τ) := [⟨t, m, .header⟩, ⟨t, m, .payload⟩]

theorem map_bytes_tcpSend (t : τ) (m : Message) :
    (tcpSend t m).map RawSend.bytes = tcpSendBuffers m := by
  rw [tcpSend, tcpSendBuffers, List.map_cons, apply_ite (List.map RawSend.bytes)]
  rfl

theorem tcpBroadcast_eq (t : τ) (m : Message) (dst : UInt32) :
    tcpBroadcast t m dst = tcpSend t { m with header := { m.header with dstNode := dst } } := by
  by_cases hpayload : m.payload = [] <;> by_cases hlen : m.header.payloadLen.toNat = 0 <;>
    simp [tcpBroadcast, tcpSend, Message.HasPayload, hpayload, hlen, Nat.pos_iff_ne_zero]

theorem pairedSend_eq {m : Message} (hm : m.WellFormed) (hpos : 0 < m.header.payloadLen.toNat)
    (t : τ) : pairedSend t m = tcpSend t m := by
  have hne : m.payload ≠ [] := List.ne_nil_of_length_pos (by rw [hm.length]; exact hpos)
  rw [pairedSend, tcpSend, if_pos ⟨hne, hpos⟩]

/-! ### The threads -/

variable [DecidableEq τ]

structure Sending (τ : Type) where
  /-- The calls that a thread still has to make for its current message. -/
  rest : τ → List (RawSend τ)
  sent : List (RawSend τ)

inductive SendAction (τ : Type) where
  | begin (t : τ) (m : Message)
  | call (t : τ)

def Sending.step (s : Sending τ) : SendAction τ → Option (Sending τ)
  | .begin t m =>
      match s.rest t with
      | [] => some { s with rest := Function.update s.rest t (tcpSend t m) }
      | _ :: _ => none
  | .call t =>
      match s.rest t with
      | [] => none
      | c :: cs => some { rest := Function.update s.rest t cs, sent := s.sent ++ [c] }

def Sending.quiet : Sending τ := { rest := fun _ => [], sent := [] }

def sending : Machine (Sending τ) (SendAction τ) where
  start s := s = .quiet
  step := Sending.step

def wholeFrames (frames : List (τ × Message)) : List (RawSend τ) :=
  frames.flatMap fun f => tcpSend f.1 f.2

/-- Whole frames, each header followed by its own payload, and at most one unfinished frame at the
end: the calls so far begin a sequence of whole frames. -/
def Framed (sent : List (RawSend τ)) : Prop :=
  ∃ frames : List (τ × Message), sent <+: wholeFrames frames

/-- The thread has sent the header of its message and not yet the payload. -/
def Sending.Midway (s : Sending τ) (t : τ) : Prop := ∃ m, s.rest t = [⟨t, m, .payload⟩]

/-- A thread makes a call only while no other thread is between header and payload. -/
def Undisturbed (s : Sending τ) : SendAction τ → Prop
  | .begin _ _ => True
  | .call t => ∀ u, u ≠ t → ¬ s.Midway u

/-! ### What a framed sequence looks like -/

section Framing

omit [DecidableEq τ]

theorem wholeFrames_snoc (frames : List (τ × Message)) (t : τ) (m : Message) :
    wholeFrames (frames ++ [(t, m)]) = wholeFrames frames ++ tcpSend t m := by
  simp [wholeFrames, List.flatMap_append]

/-- A header that has a payload is followed by it. -/
def FollowedByOwn (a b : RawSend τ) : Prop :=
  a.part = .header → a.message.HasPayload → b = ⟨a.thread, a.message, .payload⟩

theorem isChain_tcpSend_append {t : τ} {m : Message} {rest : List (RawSend τ)}
    (hrest : rest.IsChain FollowedByOwn) : (tcpSend t m ++ rest).IsChain FollowedByOwn := by
  by_cases hpayload : m.HasPayload
  · rw [tcpSend, if_pos hpayload]
    refine List.IsChain.cons_cons (fun _ _ => rfl) ?_
    exact hrest.cons fun _ _ => nofun
  · rw [tcpSend, if_neg hpayload]
    exact hrest.cons fun _ _ _ hhas => absurd hhas hpayload

theorem isChain_wholeFrames (frames : List (τ × Message)) :
    (wholeFrames frames).IsChain FollowedByOwn := by
  induction frames with
  | nil => exact .nil
  | cons f frames ih => exact isChain_tcpSend_append ih

/-- A header behind a header that has a payload: no continuation mends the sequence. -/
theorem not_framed_of_two_headers {sent : List (RawSend τ)} {t u : τ} {m n : Message}
    (hm : m.HasPayload) : ¬ Framed (sent ++ [⟨t, m, .header⟩] ++ [⟨u, n, .header⟩]) := by
  rintro ⟨frames, hprefix⟩
  have hchain := List.IsChain.prefix (isChain_wholeFrames frames) hprefix
  rw [List.append_assoc, List.singleton_append, List.isChain_append_cons_cons] at hchain
  cases hchain.2.1 rfl hm

end Framing

/-! ### Undisturbed runs -/

/-- What a thread may still have to do: nothing, a whole message, or a payload. -/
def Sending.Shaped (s : Sending τ) (t : τ) : Prop :=
  s.rest t = [] ∨ (∃ m, s.rest t = tcpSend t m) ∨
    ∃ m, m.HasPayload ∧ s.rest t = [⟨t, m, .payload⟩]

/-- As long as the threads leave each other undisturbed, at most one of them is midway, and the last
call was its header. -/
structure SendingInv (s : Sending τ) : Prop where
  shaped : ∀ t, s.Shaped t
  aligned :
    (∃ frames, s.sent = wholeFrames frames ∧ ∀ t, ¬ s.Midway t) ∨
    ∃ frames t m, s.sent = wholeFrames frames ++ [⟨t, m, .header⟩] ∧ m.HasPayload ∧
      s.rest t = [⟨t, m, .payload⟩] ∧ ∀ u, u ≠ t → ¬ s.Midway u

omit [DecidableEq τ] in
theorem SendingInv.framed {s : Sending τ} (h : SendingInv s) : Framed s.sent := by
  rcases h.aligned with ⟨frames, hsent, -⟩ | ⟨frames, t, m, hsent, hm, -⟩
  · exact ⟨frames, by rw [hsent]⟩
  · refine ⟨frames ++ [(t, m)], ?_⟩
    rw [wholeFrames_snoc, tcpSend, if_pos hm, hsent]
    exact ⟨[⟨t, m, .payload⟩], by simp⟩

omit [DecidableEq τ] in
theorem SendingInv.quiet : SendingInv (Sending.quiet : Sending τ) where
  shaped _ := .inl rfl
  aligned := .inl ⟨[], rfl, fun _ ⟨_, hm⟩ => by cases hm⟩

omit [DecidableEq τ] in
theorem not_midway_of_tcpSend {s : Sending τ} {t : τ} {m : Message} (h : s.rest t = tcpSend t m) :
    ¬ s.Midway t := by
  rintro ⟨n, hn⟩
  rw [h, tcpSend] at hn
  cases (List.cons.inj hn).1

theorem midway_update_of_ne {s s' : Sending τ} {t u : τ} {cs : List (RawSend τ)} (hne : u ≠ t)
    (hrest : s'.rest = Function.update s.rest t cs) : s'.Midway u ↔ s.Midway u := by
  rw [Sending.Midway, Sending.Midway, hrest, Function.update_of_ne hne]

theorem SendingInv.begin {s : Sending τ} (h : SendingInv s) {t : τ} (m : Message)
    (hidle : s.rest t = []) :
    SendingInv { s with rest := Function.update s.rest t (tcpSend t m) } := by
  have hmidway : ∀ u, Sending.Midway { s with rest := Function.update s.rest t (tcpSend t m) } u →
      s.Midway u := by
    intro u hu
    by_cases hut : u = t
    · subst hut
      exact absurd hu (not_midway_of_tcpSend (Function.update_self ..))
    · exact (midway_update_of_ne hut rfl).mp hu
  refine ⟨fun u => ?_, ?_⟩
  · by_cases hut : u = t
    · subst hut
      exact .inr (.inl ⟨m, Function.update_self ..⟩)
    · simpa only [Sending.Shaped, Function.update_of_ne hut] using h.shaped u
  · rcases h.aligned with ⟨frames, hsent, hnone⟩ | ⟨frames, v, n, hsent, hn, hrest, hnone⟩
    · exact .inl ⟨frames, hsent, fun u hu => hnone u (hmidway u hu)⟩
    · have hvt : v ≠ t := by
        rintro rfl
        rw [hidle] at hrest
        cases hrest
      exact .inr ⟨frames, v, n, hsent, hn, by simpa only [Function.update_of_ne hvt] using hrest,
        fun u hu hmid => hnone u hu (hmidway u hmid)⟩

theorem SendingInv.next {s : Sending τ} (h : SendingInv s) {t : τ} {c : RawSend τ}
    {cs : List (RawSend τ)} (hrest : s.rest t = c :: cs) (hothers : ∀ u, u ≠ t → ¬ s.Midway u) :
    (∃ frames m, s.sent = wholeFrames frames ∧ c :: cs = tcpSend t m) ∨
    ∃ frames m, s.sent = wholeFrames frames ++ [⟨t, m, .header⟩] ∧ m.HasPayload ∧
      c :: cs = [⟨t, m, .payload⟩] := by
  rcases h.aligned with ⟨frames, hsent, hnone⟩ | ⟨frames, v, n, hsent, hn, hmid, hnone⟩
  · rcases h.shaped t with hnil | ⟨m, hm⟩ | ⟨m, -, hm⟩
    · rw [hnil] at hrest
      cases hrest
    · exact .inl ⟨frames, m, hsent, by rw [← hrest, hm]⟩
    · exact absurd ⟨m, hm⟩ (hnone t)
  · obtain rfl : v = t := by
      by_contra hvt
      exact hothers v hvt ⟨n, hmid⟩
    exact .inr ⟨frames, n, hsent, hn, by rw [← hrest, hmid]⟩

theorem SendingInv.call {s : Sending τ} (h : SendingInv s) {t : τ} {c : RawSend τ}
    {cs : List (RawSend τ)} (hrest : s.rest t = c :: cs) (hothers : ∀ u, u ≠ t → ¬ s.Midway u) :
    SendingInv { rest := Function.update s.rest t cs, sent := s.sent ++ [c] } := by
  have hmidway : ∀ u, u ≠ t → ¬ Sending.Midway
      { rest := Function.update s.rest t cs, sent := s.sent ++ [c] } u :=
    fun u hu hmid => hothers u hu ((midway_update_of_ne hu rfl).mp hmid)
  have hshaped : cs = [] ∨ (∃ m, m.HasPayload ∧ cs = [⟨t, m, .payload⟩]) →
      ∀ u, Sending.Shaped { rest := Function.update s.rest t cs, sent := s.sent ++ [c] } u := by
    intro hcs u
    by_cases hut : u = t
    · subst hut
      simp only [Sending.Shaped, Function.update_self]
      exact hcs.imp id .inr
    · simpa only [Sending.Shaped, Function.update_of_ne hut] using h.shaped u
  have hdone : cs = [] → ∀ u, ¬ Sending.Midway
      { rest := Function.update s.rest t cs, sent := s.sent ++ [c] } u := by
    rintro rfl u
    by_cases hut : u = t
    · subst hut
      rintro ⟨m, hm⟩
      simp only [Function.update_self] at hm
      cases hm
    · exact hmidway u hut
  rcases h.next hrest hothers with ⟨frames, m, hsent, hcalls⟩ | ⟨frames, m, hsent, hm, hcalls⟩
  · by_cases hm : m.HasPayload
    · rw [tcpSend, if_pos hm] at hcalls
      obtain ⟨rfl, rfl⟩ := List.cons.inj hcalls
      exact ⟨hshaped (.inr ⟨m, hm, rfl⟩),
        .inr ⟨frames, t, m, by simp only [hsent], hm, by simp only [Function.update_self], hmidway⟩⟩
    · have hframe := hcalls
      rw [tcpSend, if_neg hm] at hcalls
      obtain ⟨rfl, rfl⟩ := List.cons.inj hcalls
      refine ⟨hshaped (.inl rfl), .inl ⟨frames ++ [(t, m)], ?_, hdone rfl⟩⟩
      rw [wholeFrames_snoc, ← hframe, hsent]
  · obtain ⟨rfl, rfl⟩ := List.cons.inj hcalls
    refine ⟨hshaped (.inl rfl), .inl ⟨frames ++ [(t, m)], ?_, hdone rfl⟩⟩
    rw [wholeFrames_snoc, tcpSend, if_pos hm, hsent, List.append_assoc]
    rfl

theorem SendingInv.not_framed {s : Sending τ} (h : SendingInv s) {t u : τ} {c : RawSend τ}
    {cs : List (RawSend τ)} (hrest : s.rest t = c :: cs) (hut : u ≠ t) (hmid : s.Midway u) :
    ¬ Framed (s.sent ++ [c]) := by
  rcases h.aligned with ⟨-, -, hnone⟩ | ⟨frames, v, n, hsent, hn, -, hnone⟩
  · exact absurd hmid (hnone u)
  · obtain rfl : u = v := by
      by_contra hne
      exact hnone u hne hmid
    rcases h.shaped t with hnil | ⟨m, hm⟩ | ⟨m, -, hm⟩
    · rw [hnil] at hrest
      cases hrest
    · rw [hrest, tcpSend] at hm
      rw [hsent, (List.cons.inj hm).1]
      exact not_framed_of_two_headers hn
    · exact absurd ⟨m, hm⟩ (hnone t hut.symm)

/-- On every run, the connection carries whole frames and at most one unfinished frame at the end
exactly as long as no thread makes a call while another one is between header and payload. -/
theorem framed_iff_undisturbed {as : List (SendAction τ)} {s : Sending τ}
    (hexec : sending.exec Sending.quiet as = some s) :
    sending.Always (fun s => Framed s.sent) Sending.quiet as ↔
      sending.EachStep Undisturbed Sending.quiet as := by
  refine Machine.always_iff_eachStep (fun _ => SendingInv.framed) ?_ ?_ SendingInv.quiet hexec
  · intro s a s' h hok ha
    cases a with
    | begin t m =>
        simp only [sending, Sending.step] at ha
        split at ha
        · rename_i hidle
          obtain rfl := Option.some.inj ha
          exact h.begin m hidle
        · cases ha
    | call t =>
        simp only [sending, Sending.step] at ha
        split at ha
        · cases ha
        · rename_i c cs hrest
          obtain rfl := Option.some.inj ha
          exact h.call hrest hok
  · intro s a s' h hnot ha
    cases a with
    | begin t m => exact absurd trivial hnot
    | call t =>
        simp only [sending, Sending.step] at ha
        split at ha
        · cases ha
        · rename_i c cs hrest
          obtain rfl := Option.some.inj ha
          simp only [Undisturbed, not_forall, not_not] at hnot
          obtain ⟨u, hut, hmid⟩ := hnot
          exact h.not_framed hrest hut hmid

/-- A LOCK_REQUEST, whose payload is the lock id. -/
private def lockRequest (id : UInt32) : Message :=
  ⟨{ magic := magic, type := 0x30, srcNode := 2, dstNode := 0, seqNum := id, payloadLen := 4 },
    Bytes.le id.toNat 4⟩

private def orderlyRun : List (SendAction Nat) :=
  [.begin 0 (lockRequest 1), .begin 1 (lockRequest 2), .call 1, .call 1, .call 0, .call 0]

private def racingRun : List (SendAction Nat) :=
  [.begin 0 (lockRequest 1), .begin 1 (lockRequest 2), .call 0, .call 1, .call 0, .call 1]

theorem framed_iff_undisturbed_orderly :
    sending.Always (fun s => Framed s.sent) Sending.quiet orderlyRun ↔
      sending.EachStep Undisturbed Sending.quiet orderlyRun :=
  framed_iff_undisturbed rfl

/-- Two threads request a lock at the same time and both headers leave before the payloads. What the
connection carries begins no sequence of well-formed frames: the receiver takes the magic of the
second header for the payload of the first one and the type for a magic. -/
theorem racing_lock_requests :
    ∃ s, sending.exec Sending.quiet racingRun = some s ∧ ¬ Framed s.sent ∧
      ¬ ∃ msgs : List Message, (∀ m ∈ msgs, m.WellFormed) ∧
        (s.sent.map RawSend.bytes).flatten <+: msgs.flatMap Message.frame := by
  refine ⟨_, rfl, ?_, ?_⟩
  · rintro ⟨frames, hprefix⟩
    have htwo : Framed ([] ++ [⟨0, lockRequest 1, .header⟩] ++ [⟨1, lockRequest 2, .header⟩]) :=
      ⟨frames, (List.prefix_append _ _).trans hprefix⟩
    exact not_framed_of_two_headers (by decide) htwo
  · rintro ⟨msgs, hwell, more, hstream⟩
    have hfirst : (lockRequest 1).header.encode ++
        ((lockRequest 2).header.encode.take 4 ++ (((lockRequest 2).header.encode.drop 4 ++
          (lockRequest 1).payload) ++ ((lockRequest 2).payload ++ more))) =
        msgs.flatMap Message.frame := hstream
    obtain ⟨m, msgs', rfl, hheader, hrest⟩ := flatMap_frame_head rfl hfirst
    have hm : m.payload.length = 4 := by
      rw [(hwell m List.mem_cons_self).length, ← Header.decode_encode m.header, ← hheader,
        Header.decode_encode]
      rfl
    obtain ⟨-, hsecond⟩ := List.append_inj hrest hm.symm
    obtain ⟨n, msgs'', rfl, hheader', -⟩ := flatMap_frame_head rfl hsecond
    have hmagic := (hwell n (by simp)).magic
    rw [← Header.decode_encode n.header, ← hheader'] at hmagic
    exact absurd hmagic (by decide)

end Dsm.Tcp
