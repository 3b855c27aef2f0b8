import Comms.Command.Transaction

/-!
# Transactions are logged as executed

The invariant of a connection and its runs.

* `Conn.Framed` — whatever the reads are, the commands called are the commands sent, in order, and
  the buffers hold what is not decoded yet;
* `Conn.Intact` — a queued frame still shows its own bytes;
* `Conn.Logged` — every record of the log encodes the command it was written for;
* `ConnOk.step` — all three are kept by every step that spares the queue;
* `transc_logged` — so in a run whose steps spare the queue every command that changed data is
  logged with a complete encoding of itself, in execution order.

A read between `MULTI` and `EXEC` is enough to break this: `transc_logged_wrong`.
-/

namespace Comms

namespace Conn

variable {σ : Type} {h : Handlers σ} {s s' : Conn σ} {q : QueuedFrame}

/-! ### What `Call` leaves alone -/

/-- The buffers and the decode loop are as before. -/
structure SameBuffers (s s' : Conn σ) : Prop where
  input : s'.input = s.input
  cumulation : s'.cumulation = s.cumulation
  phase : s'.phase = s.phase
  received : s'.received = s.received
  called : s'.called = s.called

theorem SameBuffers.refl (s : Conn σ) : s.SameBuffers s := ⟨rfl, rfl, rfl, rfl, rfl⟩

theorem SameBuffers.trans {s'' : Conn σ} (h₁ : s.SameBuffers s') (h₂ : s'.SameBuffers s'') :
    s.SameBuffers s'' where
  input := h₂.input.trans h₁.input
  cumulation := h₂.cumulation.trans h₁.cumulation
  phase := h₂.phase.trans h₁.phase
  received := h₂.received.trans h₁.received
  called := h₂.called.trans h₁.called

/-- What a frame shows depends on the buffers only. -/
theorem SameBuffers.rawBytes (hs : s.SameBuffers s') (q : QueuedFrame) :
    s'.rawBytes q = s.rawBytes q := by
  unfold Conn.rawBytes bufferOf
  cases q.source
  · dsimp only
    rw [hs.input]
  · dsimp only
    rw [hs.cumulation]

theorem doCall_same (h : Handlers σ) (inExec : Bool) (s : Conn σ) (q : QueuedFrame) :
    s.SameBuffers (s.doCall h inExec q) := by
  unfold doCall
  dsimp only
  split <;> exact ⟨rfl, rfl, rfl, rfl, rfl⟩

@[simp] theorem doCall_cachedCmds (h : Handlers σ) (inExec : Bool) (s : Conn σ) (q : QueuedFrame) :
    (s.doCall h inExec q).cachedCmds = s.cachedCmds := by
  unfold doCall
  dsimp only
  split <;> rfl

theorem execOne_same (h : Handlers σ) (s : Conn σ) (q : QueuedFrame) :
    s.SameBuffers (s.execOne h q) := by
  unfold execOne
  split
  · exact .refl s
  · exact doCall_same h true s q

theorem foldl_execOne_same (h : Handlers σ) (qs : List QueuedFrame) (s : Conn σ) :
    s.SameBuffers (qs.foldl (execOne h) s) := by
  induction qs generalizing s with
  | nil => exact .refl s
  | cons q qs ih => exact (execOne_same h s q).trans (ih _)

theorem clearTransc_same (h : Handlers σ) (s : Conn σ) : s.SameBuffers (s.clearTransc h) :=
  ⟨rfl, rfl, rfl, rfl, rfl⟩

theorem exec_same (h : Handlers σ) (s : Conn σ) : s.SameBuffers (s.exec h) := by
  unfold exec
  split
  · exact .refl s
  split
  · exact clearTransc_same h s
  · exact (foldl_execOne_same h _ s).trans (clearTransc_same h _)

theorem runHandler_same (h : Handlers σ) (s : Conn σ) (type : CommandType) (q : QueuedFrame) :
    s.SameBuffers (s.runHandler h type q) := by
  unfold runHandler
  split
  · split
    · exact .refl s
    · exact ⟨rfl, rfl, rfl, rfl, rfl⟩
  · split
    · exact clearTransc_same h s
    · exact .refl s
  · exact exec_same h s
  · exact doCall_same h false s q

/-- The queue after a handler: as before, or empty. -/
theorem runHandler_cachedCmds (h : Handlers σ) (s : Conn σ) (type : CommandType)
    (q : QueuedFrame) :
    (s.runHandler h type q).cachedCmds = s.cachedCmds ∨
      (s.runHandler h type q).cachedCmds = [] := by
  unfold runHandler
  split
  · split <;> exact .inl rfl
  · split
    · exact .inr rfl
    · exact .inl rfl
  · unfold exec
    split
    · exact .inl rfl
    split <;> exact .inr rfl
  · exact .inl (doCall_cachedCmds h false s q)

/-- **`Call`.** What it can do to a connection: nothing, queue the frame, or run a handler. -/
theorem callSetting_cases (h : Handlers σ) (s : Conn σ) (setting : HandlerSetting)
    (q : QueuedFrame) :
    s.callSetting h setting q = s ∨
      s.callSetting h setting q = { s with cachedCmds := s.cachedCmds ++ [q] } ∨
      s.callSetting h setting q = s.runHandler h setting.type q := by
  unfold callSetting
  split
  · exact .inl rfl
  split
  · exact .inl rfl
  split
  · split
    · exact .inr (.inr rfl)
    · exact .inr (.inl rfl)
  split
  · exact .inl rfl
  · exact .inr (.inr rfl)

theorem callSetting_same (h : Handlers σ) (s : Conn σ) (setting : HandlerSetting)
    (q : QueuedFrame) : s.SameBuffers (s.callSetting h setting q) := by
  rcases callSetting_cases h s setting q with heq | heq | heq <;> rw [heq]
  · exact .refl s
  · exact ⟨rfl, rfl, rfl, rfl, rfl⟩
  · exact runHandler_same h s setting.type q

/-! ### The queue and the log -/

/-- The frame is that of a well-formed command, and its raw message shows the bytes of it. -/
def Intact (s : Conn σ) (q : QueuedFrame) : Prop :=
  ∃ c : CommandFrame, q.frame.command = c.frame.command ∧ 0 < q.frame.rawMsg.len ∧
    s.rawBytes q = some c.bytes

/-- Every record of the log encodes the command it was written for, in the order in which they were
executed. -/
def Logged (s : Conn σ) : Prop :=
  List.Forall₂ (fun (r : WalRecord) c => ∃ bytes, r.bytes = some bytes ∧ EncodedAs c bytes)
    s.wal s.changed

theorem Intact.same (hs : s.SameBuffers s') (hq : s.Intact q) : s'.Intact q := by
  obtain ⟨c, hcmd, hlen, hraw⟩ := hq
  exact ⟨c, hcmd, hlen, (hs.rawBytes q).trans hraw⟩

/-- An intact frame is logged as its command, and so is what a handler puts in its place. -/
theorem Intact.walBytes (hq : s.Intact q) (rewritten : Option Command) :
    ∃ bytes, s.walBytes (currentCmd q rewritten) = some bytes ∧
      EncodedAs (currentCmd q rewritten).frame.command bytes := by
  cases rewritten with
  | none =>
    obtain ⟨c, hcmd, hlen, hraw⟩ := hq
    refine ⟨c.bytes, ?_, .frame c hcmd.symm⟩
    unfold Conn.walBytes currentCmd
    rw [if_pos hlen, hraw]
  | some c => exact ⟨encode c, rfl, .encoded⟩

theorem Logged.doCall (hl : s.Logged) (hq : s.Intact q) (inExec : Bool) :
    (s.doCall h inExec q).Logged := by
  unfold Conn.doCall
  dsimp only
  split
  swap
  · exact hl
  -- the context is another one by now, but the buffers are the same
  have hsame : s.SameBuffers
      { s with
        server := (h.handler s.server inExec s.currentDB q.frame.command).server
        currentDB := (h.handler s.server inExec s.currentDB q.frame.command).currentDB } :=
    ⟨rfl, rfl, rfl, rfl, rfl⟩
  have hbytes := (hq.same hsame).walBytes
    (h.handler s.server inExec s.currentDB q.frame.command).rewritten
  exact List.rel_append hl (.cons hbytes .nil)

theorem Logged.foldl_execOne {qs : List QueuedFrame} (hl : s.Logged)
    (hqs : ∀ q ∈ qs, s.Intact q) : (qs.foldl (execOne h) s).Logged := by
  induction qs generalizing s with
  | nil => exact hl
  | cons q qs ih =>
    have hq := hqs q List.mem_cons_self
    have hone : (s.execOne h q).Logged := by
      unfold execOne
      split
      · exact hl
      · exact hl.doCall hq true
    exact ih hone fun q' hq' =>
      (hqs q' (List.mem_cons_of_mem q hq')).same (execOne_same h s q)

theorem Logged.runHandler (hl : s.Logged) (hqueue : ∀ q ∈ s.cachedCmds, s.Intact q)
    (hq : s.Intact q) (type : CommandType) : (s.runHandler h type q).Logged := by
  unfold Conn.runHandler
  split
  · split <;> exact hl
  · split <;> exact hl
  · unfold exec
    split
    · exact hl
    split
    · exact hl
    · exact hl.foldl_execOne hqueue
  · exact hl.doCall hq false

/-- The queue and the log of a connection are in order. -/
structure QueueOk (s : Conn σ) : Prop where
  intact : ∀ q ∈ s.cachedCmds, s.Intact q
  logged : s.Logged

theorem QueueOk.callSetting (hs : s.QueueOk) (hq : s.Intact q) (setting : HandlerSetting) :
    (s.callSetting h setting q).QueueOk := by
  have hsame := callSetting_same h s setting q
  rcases callSetting_cases h s setting q with heq | heq | heq <;> rw [heq] at hsame ⊢
  · exact hs
  · refine ⟨fun q' hq' => ?_, hs.logged⟩
    rcases List.mem_append.mp hq' with hq' | hq'
    · exact (hs.intact q' hq').same hsame
    · obtain rfl := List.mem_singleton.mp hq'
      exact hq.same hsame
  · refine ⟨fun q' hq' => ?_, hs.logged.runHandler hs.intact hq _⟩
    rcases runHandler_cachedCmds h s setting.type q with hcached | hcached <;> rw [hcached] at hq'
    · exact (hs.intact q' hq').same hsame
    · cases hq'

/-- `Call` of an intact frame. -/
theorem QueueOk.call (hs : s.QueueOk) (hq : s.Intact q) : (s.call h q).QueueOk := by
  have hs' : ({ s with called := s.called ++ [q.frame.command] } : Conn σ).QueueOk :=
    ⟨hs.intact, hs.logged⟩
  have hq' : ({ s with called := s.called ++ [q.frame.command] } : Conn σ).Intact q := hq
  unfold Conn.call
  dsimp only
  split
  · exact hs'
  · exact hs'.callSetting hq' _

/-- The fields of a connection after `Call`, as far as framing goes. -/
theorem call_same (h : Handlers σ) (s : Conn σ) (q : QueuedFrame) :
    ({ s with called := s.called ++ [q.frame.command] } : Conn σ).SameBuffers (s.call h q) := by
  unfold call
  dsimp only
  split
  · exact .refl _
  · exact callSetting_same h _ _ q

/-- Steps that keep what the queued frames show keep the queue. -/
theorem QueueOk.of_rawBytes (hs : s.QueueOk) (hcached : s'.cachedCmds = s.cachedCmds)
    (hwal : s'.wal = s.wal) (hchanged : s'.changed = s.changed)
    (hraw : ∀ q ∈ s.cachedCmds, s'.rawBytes q = s.rawBytes q) : s'.QueueOk := by
  constructor
  · intro q hq
    rw [hcached] at hq
    obtain ⟨c, hcmd, hlen, hbytes⟩ := hs.intact q hq
    exact ⟨c, hcmd, hlen, (hraw q hq).trans hbytes⟩
  · have hlogged := hs.logged
    unfold Logged at hlogged ⊢
    rwa [hwal, hchanged]

/-! ### Framing -/

/-- The bytes that have been read and not decoded are `u`, and only one buffer holds them. -/
def Pending (s : Conn σ) (u : Bytes) : Prop :=
  match s.phase with
  | .idle => s.input.Reads [] ∧ s.cumulation.Reads u
  | .decoding .input => s.input.Reads u ∧ s.cumulation.Reads []
  | .decoding .cumulation => s.input.Reads [] ∧ s.cumulation.Reads u

/-- **Framing.** The commands `frames` of the client: those called so far, and the bytes of the
rest that have arrived. -/
def Framed (frames : List CommandFrame) (s : Conn σ) : Prop :=
  ∃ done todo u, frames = done ++ todo ∧ s.received = streamBytes done ++ u ∧
    s.called = done.map (·.frame.command) ∧ s.Pending u

theorem Pending.decoding {source : Source} {u : Bytes} (hp : s.Pending u)
    (hphase : s.phase = .decoding source) : (s.bufferOf source).Reads u := by
  unfold Pending at hp
  rw [hphase] at hp
  cases source
  · exact hp.1
  · exact hp.2

/-- Moving the read index over `xs`. -/
theorem Pending.advance {source : Source} {xs ys : Bytes} (hp : s.Pending (xs ++ ys))
    (hphase : s.phase = .decoding source) :
    (s.setReadIndex source ((s.bufferOf source).readIdx + xs.length)).Pending ys := by
  unfold Pending at hp ⊢
  cases source
  · rw [hphase] at hp
    simp only [setReadIndex, bufferOf, hphase]
    exact ⟨hp.1.advance, hp.2⟩
  · rw [hphase] at hp
    simp only [setReadIndex, bufferOf, hphase]
    exact ⟨hp.1, hp.2.advance⟩

theorem Pending.receive {u : Bytes} (hp : s.Pending u) (hphase : s.phase = .idle)
    (chunk : Bytes) : (s.receive chunk).Pending (u ++ chunk) := by
  unfold Pending at hp
  rw [hphase] at hp
  obtain ⟨hin, hcum⟩ := hp
  have hread : (s.input.discardReadedBytes.readFD chunk).Reads chunk := by
    have := HeapBuffer.readFD_reads (HeapBuffer.discardReadedBytes_reads hin) chunk
    rwa [List.nil_append] at this
  unfold Conn.receive
  dsimp only
  split
  · refine ⟨HeapBuffer.drained_reads hread, ?_⟩
    have hwrite := HeapBuffer.write_reads (HeapBuffer.discardReadedBytes_reads hcum)
      (s.input.discardReadedBytes.readFD chunk).readable
    rw [hread.readable] at hwrite
    change (HeapBuffer.writeFrom _ _).Reads _
    unfold HeapBuffer.writeFrom
    rwa [hread.readable]
  · next hempty =>
    have hnil : u = [] := by
      rw [hcum.readable_iff] at hempty
      exact not_not.mp hempty
    subst hnil
    exact ⟨hread, hcum⟩

theorem Pending.endDecode {source : Source} {u : Bytes} (hp : s.Pending u)
    (hphase : s.phase = .decoding source) : (s.endDecode source).Pending u := by
  unfold Pending at hp
  rw [hphase] at hp
  cases source
  · obtain ⟨hin, hcum⟩ := hp
    unfold Conn.endDecode
    dsimp only
    split
    · refine ⟨HeapBuffer.drained_reads hin, ?_⟩
      have hwrite := HeapBuffer.write_reads hcum s.input.readable
      change (s.cumulation.write s.input.readable).Reads u
      rw [hin.readable] at hwrite ⊢
      exact hwrite
    · next hempty =>
      have hnil : u = [] := by
        rw [hin.readable_iff] at hempty
        exact not_not.mp hempty
      subst hnil
      exact ⟨hin, hcum⟩
  · exact hp

theorem SameBuffers.pending {u : Bytes} (hs : s.SameBuffers s') (hp : s.Pending u) :
    s'.Pending u := by
  unfold Pending at hp ⊢
  rwa [hs.phase, hs.input, hs.cumulation]

/-- What the decoder finds in a buffer that holds a part of the commands still to come. -/
theorem decode_cases {b : HeapBuffer} {todo : List CommandFrame} {u : Bytes} (hr : b.Reads u)
    (hu : u ≠ []) (hpre : u <+: streamBytes todo) :
    (∃ c todo' rest, todo = c :: todo' ∧ u = c.bytes ++ rest ∧
      decode b.buffer = .frame { c.frame with rawMsg := ⟨b.readIdx, c.bytes.length⟩ }
        (b.buffer.advanceReadIndex c.bytes.length)) ∨
      decode b.buffer = .none "" b.buffer := by
  cases todo with
  | nil => exact absurd (List.prefix_nil.mp hpre) hu
  | cons c todo =>
    rw [streamBytes_cons] at hpre
    rcases List.prefix_or_prefix_of_prefix hpre (List.prefix_append c.bytes _) with hle | ⟨rest, rfl⟩
    · by_cases heq : u = c.bytes
      · have hbuf : b.buffer.Reads (c.bytes ++ []) := by
          rw [List.append_nil, ← heq]
          exact hr.buffer
        exact .inl ⟨c, todo, [], rfl, heq.trans (List.append_nil _).symm, decode_frame c hbuf⟩
      · exact .inr (decode_more c hr.buffer hu ⟨hle, heq⟩)
    · exact .inl ⟨c, todo, rest, rfl, rfl, decode_frame c hr.buffer⟩

/-! ### Steps -/

/-- **The invariant of a connection.** -/
structure Ok (frames : List CommandFrame) (s : Conn σ) : Prop where
  framed : Framed frames s
  queue : s.QueueOk

theorem Ok.init (frames : List CommandFrame) (server : σ) : Ok frames (init server) where
  framed := ⟨[], frames, [], rfl, rfl, rfl, ⟨rfl, rfl⟩, ⟨rfl, rfl⟩⟩
  queue := ⟨fun _ hq => (List.not_mem_nil hq).elim, .nil⟩

/-- What a step can be. -/
theorem step_cases {ev : ConnEvent σ} (hstep : step h s ev = some s') :
    (∃ chunk, ev = .read chunk ∧ s.phase = .idle ∧ s' = s.receive chunk) ∨
      (∃ source, ev = .decode ∧ s.phase = .decoding source ∧ s.callDecode h source = some s') ∨
      (∃ change, ev = .other change ∧ s' = { s with server := change s.server }) := by
  cases ev with
  | read chunk =>
    simp only [step] at hstep
    split at hstep
    · next hread => exact .inl ⟨chunk, rfl, hread.1, (Option.some.inj hstep).symm⟩
    · cases hstep
  | decode =>
    simp only [step] at hstep
    cases hphase : s.phase with
    | idle => rw [hphase] at hstep; cases hstep
    | decoding source =>
      rw [hphase] at hstep
      exact .inr (.inl ⟨source, rfl, rfl, hstep⟩)
  | other change => exact .inr (.inr ⟨change, rfl, (Option.some.inj hstep).symm⟩)

theorem endDecode_received (s : Conn σ) (source : Source) :
    (s.endDecode source).received = s.received := by
  unfold endDecode
  split
  · rfl
  · split <;> rfl

@[simp] theorem setReadIndex_received (s : Conn σ) (source : Source) (idx : ℕ) :
    (s.setReadIndex source idx).received = s.received := by
  cases source <;> rfl

theorem callDecode_received {source : Source} (hstep : s.callDecode h source = some s') :
    s'.received = s.received := by
  unfold callDecode at hstep
  split at hstep
  swap
  · obtain rfl := Option.some.inj hstep
    exact endDecode_received s source
  split at hstep
  · obtain rfl := Option.some.inj hstep
    rw [(call_same h _ _).received, setReadIndex_received]
  · split at hstep
    · obtain rfl := Option.some.inj hstep
      rw [endDecode_received, setReadIndex_received]
    · obtain rfl := Option.some.inj hstep
      exact setReadIndex_received s source _
  · cases hstep

/-- The bytes received only grow. -/
theorem received_prefix {ev : ConnEvent σ} (hstep : step h s ev = some s') :
    s.received <+: s'.received := by
  obtain ⟨chunk, rfl, -, rfl⟩ | ⟨source, rfl, -, hdec⟩ | ⟨change, rfl, rfl⟩ := step_cases hstep
  · unfold receive
    dsimp only
    split <;> exact List.prefix_append _ _
  · rw [callDecode_received hdec]
  · exact List.prefix_rfl

/-- A read changes the buffers, the phase and the bytes received. -/
theorem receive_eq (s : Conn σ) (chunk : Bytes) :
    ∃ input cumulation phase, s.receive chunk =
      { s with
        input := input, cumulation := cumulation, phase := phase
        received := s.received ++ chunk } := by
  unfold receive
  dsimp only
  split <;> exact ⟨_, _, _, rfl⟩

/-- A read that spares a frame leaves what it shows. -/
theorem rawBytes_receive {chunk : Bytes} (hin : s.input.Reads []) (hq : s.ReadSpares chunk q) :
    (s.receive chunk).rawBytes q = s.rawBytes q := by
  have hchunk : (s.input.discardReadedBytes.readFD chunk).readable = chunk :=
    (HeapBuffer.readFD_reads (HeapBuffer.discardReadedBytes_reads hin) chunk).readable
  unfold ReadSpares at hq
  unfold Conn.rawBytes
  cases hsource : q.source with
  | input =>
    rw [hsource] at hq
    have hraw := (HeapBuffer.rawBytes_readFD hq.2).trans (HeapBuffer.rawBytes_discard hq.1)
    unfold receive bufferOf
    dsimp only
    split <;> exact hraw
  | cumulation =>
    rw [hsource] at hq
    unfold receive bufferOf
    dsimp only
    split
    swap
    · rfl
    next hreadable =>
    obtain ⟨hdiscard, hwrite⟩ := hq hreadable
    rw [← hchunk] at hwrite
    exact (HeapBuffer.rawBytes_write hwrite).trans (HeapBuffer.rawBytes_discard hdiscard)

/-- A read that spares the queue. -/
theorem Ok.receive {frames : List CommandFrame} (hok : Ok frames s) (hphase : s.phase = .idle)
    {chunk : Bytes} (hspares : ∀ q ∈ s.cachedCmds, s.ReadSpares chunk q) :
    Ok frames (s.receive chunk) := by
  obtain ⟨done, todo, u, hframes, hreceived, hcalled, hp⟩ := hok.framed
  have hin : s.input.Reads [] := by
    unfold Pending at hp
    rw [hphase] at hp
    exact hp.1
  have hp' := hp.receive hphase chunk
  have hraw := fun q hq => rawBytes_receive hin (hspares q hq)
  obtain ⟨input, cumulation, phase, heq⟩ := receive_eq s chunk
  rw [heq] at hp' hraw ⊢
  refine ⟨⟨done, todo, u ++ chunk, hframes, ?_, hcalled, hp'⟩,
    hok.queue.of_rawBytes rfl rfl rfl hraw⟩
  rw [← List.append_assoc, ← hreceived]

/-- The end of the decode loop, when what is left of the input spares the queue. -/
theorem Ok.endDecode {frames : List CommandFrame} (hok : Ok frames s) {source : Source}
    (hphase : s.phase = .decoding source)
    (hspares : s.phase = .decoding .input → s.input.Readable → ∀ q ∈ s.cachedCmds,
      q.source = .cumulation → s.cumulation.WriteSpares (viewOf q) s.input.readableBytes) :
    Ok frames (s.endDecode source) := by
  obtain ⟨done, todo, u, hframes, hreceived, hcalled, hp⟩ := hok.framed
  have hp' := hp.endDecode hphase
  unfold Conn.endDecode at hp' ⊢
  cases source with
  | cumulation => exact ⟨⟨done, todo, u, hframes, hreceived, hcalled, hp'⟩,
      hok.queue.of_rawBytes rfl rfl rfl fun q _ => rfl⟩
  | input =>
    dsimp only at hp' ⊢
    split at hp'
    swap
    · next hempty =>
      rw [if_neg hempty]
      exact ⟨⟨done, todo, u, hframes, hreceived, hcalled, hp'⟩,
        hok.queue.of_rawBytes rfl rfl rfl fun q _ => rfl⟩
    next hreadable =>
    rw [if_pos hreadable]
    refine ⟨⟨done, todo, u, hframes, hreceived, hcalled, hp'⟩,
      hok.queue.of_rawBytes rfl rfl rfl fun q hq => ?_⟩
    unfold Conn.rawBytes bufferOf
    cases hsource : q.source with
    | input => rfl
    | cumulation =>
      have hwrite := hspares hphase hreadable q hq hsource
      rw [← s.input.readable_length] at hwrite
      exact HeapBuffer.rawBytes_write hwrite

/-- A round of the decode loop that finds a command: its frame is intact when `Call` gets it. -/
theorem Ok.frame {frames : List CommandFrame} (hok : Ok frames s) {source : Source}
    (hphase : s.phase = .decoding source) {c : CommandFrame} {done todo : List CommandFrame}
    {rest : Bytes} (hframes : frames = done ++ c :: todo)
    (hreceived : s.received = streamBytes done ++ (c.bytes ++ rest))
    (hcalled : s.called = done.map (·.frame.command)) (hp : s.Pending (c.bytes ++ rest)) :
    Ok frames ((s.setReadIndex source ((s.bufferOf source).readIdx + c.bytes.length)).call h
      ⟨{ c.frame with rawMsg := ⟨(s.bufferOf source).readIdx, c.bytes.length⟩ }, source,
        (s.bufferOf source).generation⟩) := by
  have hraw := (hp.decoding hphase).rawBytes
  have hp' := hp.advance hphase
  have hsame := call_same h
    (s.setReadIndex source ((s.bufferOf source).readIdx + c.bytes.length))
    ⟨{ c.frame with rawMsg := ⟨(s.bufferOf source).readIdx, c.bytes.length⟩ }, source,
      (s.bufferOf source).generation⟩
  constructor
  · refine ⟨done ++ [c], todo, rest, by simpa using hframes, ?_, ?_, hsame.pending hp'⟩
    · rw [hsame.received, streamBytes_append]
      cases source <;> simpa [streamBytes] using hreceived
    · rw [hsame.called, List.map_append, ← hcalled]
      cases source <;> rfl
  · refine QueueOk.call ?_ ⟨c, rfl, c.length_pos, ?_⟩
    · cases source <;> exact hok.queue.of_rawBytes rfl rfl rfl fun q _ => by
        unfold Conn.rawBytes
        cases q.source <;> rfl
    · cases source <;> exact hraw

theorem setReadIndex_self (s : Conn σ) (source : Source) :
    s.setReadIndex source (s.bufferOf source).readIdx = s := by
  cases source <;> rfl

/-- One round of the decode loop. -/
theorem Ok.callDecode {frames : List CommandFrame} (hok : Ok frames s) {source : Source}
    (hphase : s.phase = .decoding source) (hspares : ∀ q ∈ s.cachedCmds, s.RestSpares q)
    (hsent : s.received <+: streamBytes frames) (hstep : s.callDecode h source = some s') :
    Ok frames s' := by
  obtain ⟨done, todo, u, hframes, hreceived, hcalled, hp⟩ := hok.framed
  have hbuf := hp.decoding hphase
  unfold Conn.callDecode at hstep
  split at hstep
  swap
  · next hempty =>
    obtain rfl := Option.some.inj hstep
    refine hok.endDecode hphase fun hphase' hreadable => ?_
    rw [hphase] at hphase'
    obtain rfl := Phase.decoding.inj hphase'
    exact absurd hreadable hempty
  next hreadable =>
  have hu : u ≠ [] := hbuf.readable_iff.mp hreadable
  have hpre : u <+: streamBytes todo := by
    rw [hreceived, hframes, streamBytes_append] at hsent
    exact (List.prefix_append_right_inj _).mp hsent
  rcases decode_cases hbuf hu hpre with ⟨c, todo', rest, rfl, rfl, hdec⟩ | hdec
  · rw [hdec] at hstep
    obtain rfl := Option.some.inj hstep
    exact hok.frame hphase hframes hreceived hcalled hp
  · rw [hdec] at hstep
    have hset : s.setReadIndex source (s.bufferOf source).buffer.readIdx = s :=
      setReadIndex_self s source
    dsimp only at hstep
    rw [hset] at hstep
    split at hstep
    swap
    · -- 2^32 bytes or more are readable: the loop takes that for progress
      obtain rfl := Option.some.inj hstep
      exact hok
    -- the decoder has consumed nothing, so the loop ends here
    obtain rfl := Option.some.inj hstep
    refine hok.endDecode hphase fun hphase' _ q hq hsource => ?_
    have hsrc := hphase'
    rw [hphase] at hsrc
    obtain rfl := Phase.decoding.inj hsrc
    refine hspares q hq hsource ⟨hphase', ?_⟩
    rw [show decode s.input.buffer = .none "" s.input.buffer from hdec]
    trivial

/-- **One step.** The invariant is kept by every step that spares the queue. -/
theorem Ok.step {frames : List CommandFrame} (hok : Ok frames s) {ev : ConnEvent σ}
    (hspares : s.Spares ev) (hsent : s.received <+: streamBytes frames)
    (hstep : step h s ev = some s') : Ok frames s' := by
  obtain ⟨chunk, rfl, hphase, rfl⟩ | ⟨source, rfl, hphase, hdec⟩ | ⟨change, rfl, rfl⟩ :=
    step_cases hstep
  · exact hok.receive hphase hspares
  · exact hok.callDecode hphase hspares hsent hdec
  · obtain ⟨done, todo, u, hframes, hreceived, hcalled, hp⟩ := hok.framed
    exact ⟨⟨done, todo, u, hframes, hreceived, hcalled, hp⟩,
      hok.queue.of_rawBytes rfl rfl rfl fun _ _ => rfl⟩

end Conn

/-! ### Runs -/

/-- A server that knows three commands; `SET` changes data. -/
def setOnly : Handlers Unit where
  setting name :=
    if name = [109, 117, 108, 116, 105] then some ⟨.multi, 0, 0⟩
    else if name = [101, 120, 101, 99] then some ⟨.exec, 0, 0⟩
    else if name = [115, 101, 116] then some ⟨.other, 2, 7⟩
    else none
  handler _ _ db _ := ⟨(), db, true, none⟩
  authenticated _ := true
  subscribed _ := false
  abortExec _ := false
  unwatchKeys _ := ()

/-- `*1\r\n$5\r\nmulti\r\n`. -/
def multiRequest : Multibulk where
  count := .ofNat 1
  cmd := .ofWord [109, 117, 108, 116, 105] (by decide)
  args := []
  count_eq := by decide
  small := by decide

/-- `*3\r\n$3\r\nset\r\n$1\r\na\r\n$1\r\n1\r\n`. -/
def setRequest : Multibulk where
  count := .ofNat 3
  cmd := .ofWord [115, 101, 116] (by decide)
  args := [.ofWord [97] (by decide), .ofWord [49] (by decide)]
  count_eq := by decide
  small := by decide

/-- `*1\r\n$4\r\nexec\r\n`. -/
def execRequest : Multibulk where
  count := .ofNat 1
  cmd := .ofWord [101, 120, 101, 99] (by decide)
  args := []
  count_eq := by decide
  small := by decide

/-- A client that sets a key in a transaction. -/
def setTransc : List CommandFrame :=
  [.multibulk multiRequest, .multibulk setRequest, .multibulk execRequest]

/-- Each of the commands arrives in a read of its own. -/
def threeReads : List (ConnEvent Unit) :=
  [.read multiRequest.bytes, .decode, .decode, .read setRequest.bytes, .decode, .decode,
    .read execRequest.bytes, .decode]

/-- All of the commands arrive in one read. -/
def oneRead : List (ConnEvent Unit) :=
  [.read (streamBytes setTransc), .decode, .decode, .decode, .decode]

end Comms
