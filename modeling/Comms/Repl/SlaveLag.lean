import Comms.Repl.SlaveLink

/-!
# A slave that lags behind its own log

`HandleRedisCommand` appends a command and executes it at once only when nothing is left to replay;
otherwise `ReplayWAL` has to come to it. Whatever is appended before that slides the window of the
log along, and nothing looks whether the data offset is still in it: `swal_replay` hands out no byte
for an offset outside, `ReplayWAL` returns, and the slave stays in `SLAVE_STATE_SYNCED`.

* `Tail` — what lies behind the data offset are commands, and the file still has them;
* `Replays` — what the replay under way has still to read are the next of them;
* `Node.advance_spec` — a replay goes on to the next command, or is at its end;
* `LagOk.step` — the invariant, kept by every step that is `LagSafe`;
* `slave_keeps_up` — the run.

A step is `LagSafe` when the file has room for what is appended behind the data offset, when it does
not overwrite what the replay under way still has to read, and when the wrap point does not cut a
command of a replay that starts.
-/

namespace Comms
namespace Linked

variable {crc64 : UInt64 → Bytes → UInt64} {behind : Swal → Run → Bytes}

namespace Node

/-- The commands behind the data offset. -/
def pending (s : Node) : List Call := (s.entries.drop s.dataIdx).map Entry.call

end Node

/-- The bytes of some commands of the log. -/
def callBytes (calls : List Call) : Bytes := calls.flatMap Call.raw

theorem callBytes_frames (frames : List CommandFrame) :
    callBytes (frames.map CommandFrame.call) = streamBytes frames := by
  induction frames with
  | nil => rfl
  | cons c frames ih =>
    rw [List.map_cons, streamBytes_cons, ← ih]
    rfl

theorem callBytes_append (cs ds : List Call) : callBytes (cs ++ ds) = callBytes cs ++ callBytes ds :=
  List.flatMap_append

theorem Node.log_bytes (s : Node) : s.log.bytes = callBytes (s.entries.map Entry.call) := by
  unfold Node.log callBytes
  rw [List.flatMap_map]

/-- What a replay has still to read of its runs. -/
def unread (wal : Swal) (r : Replaying) : List Bytes :=
  match r.runs with
  | [] => []
  | run :: runs => (run.bytes wal).drop r.pos :: runs.map (Run.bytes wal)

@[simp] theorem unread_zero (wal : Swal) (runs : List Run) :
    unread wal ⟨runs, 0⟩ = runs.map (Run.bytes wal) := by
  cases runs <;> rfl

/-! ### The replay -/

/-- The bytes that the callback decodes. -/
theorem runBuffer_reads {wal : Swal} {r : Run} (hin : r.Inside wal) {pos : ℕ} {bs : Bytes}
    (hpos : pos ≤ r.len.toNat) (hbs : (r.bytes wal).drop pos = bs) :
    (Node.runBuffer behind wal r pos).Reads bs := by
  have hlen : (r.bytes wal).length = r.len.toNat := Circular.slice_length hin
  constructor
  · rw [← hbs, List.length_drop, hlen]
    change pos + (r.len.toNat - pos) = 0 + r.len.toNat
    omega
  · refine ⟨behind wal r, ?_⟩
    change (r.bytes wal ++ behind wal r).drop pos = bs ++ behind wal r
    rw [List.drop_append_of_le_length (by omega), hbs]

/-- A slave that is not synced any more lets the rest of the replay be. -/
theorem Node.advance_off {s : Node} (hs : s.state ≠ .synced) (runs : List Run) (pos : ℕ) :
    s.advance crc64 behind runs pos = some (s.setReplaying none) := by
  induction runs generalizing pos with
  | nil => rfl
  | cons r rs ih =>
    rw [Node.advance, if_neg fun h => hs h.2]
    exact ih 0

/-- **The replay.** Where every run carries complete commands, the replay goes on to the next command,
or comes to its end when there is none. -/
theorem Node.advance_spec {s : Node} (hs : s.state = .synced) {runs : List Run} {pos : ℕ}
    (hin : ∀ r ∈ runs, r.Inside s.repl.wal) {parts : List (List CommandFrame)}
    (hunread : unread s.repl.wal ⟨runs, pos⟩ = parts.map streamBytes) :
    match parts.flatten with
    | [] => s.advance crc64 behind runs pos = some (s.setReplaying none)
    | c :: rest => ∃ (r' : Replaying) (parts' : List (List CommandFrame)),
      s.advance crc64 behind runs pos
          = some ((s.replayed crc64 c.call).setReplaying (some r')) ∧
        (∀ r ∈ r'.runs, r.Inside s.repl.wal) ∧ unread s.repl.wal r' = parts'.map streamBytes ∧
        parts'.flatten = rest := by
  induction runs generalizing pos parts with
  | nil =>
    obtain rfl : parts = [] := by simpa [unread] using hunread.symm
    rfl
  | cons r rs ih =>
    cases parts with
    | nil => simp [unread] at hunread
    | cons fs parts =>
      obtain ⟨hr, hrs⟩ := List.cons.inj (by simpa only [unread, List.map_cons] using hunread)
      have hlen : (r.bytes s.repl.wal).length = r.len.toNat :=
        Circular.slice_length (hin r List.mem_cons_self)
      cases fs with
      | nil =>
        -- nothing is left of this run
        have hdone : ¬(pos < r.len.toNat ∧ s.state = .synced) := by
          rintro ⟨hlt, -⟩
          have hnil := congrArg List.length hr
          rw [List.length_drop, streamBytes_nil, List.length_nil] at hnil
          omega
        have hunread' : unread s.repl.wal ⟨rs, 0⟩ = parts.map streamBytes :=
          (unread_zero s.repl.wal rs).trans hrs
        have hrest := ih (fun r' hr' => hin r' (List.mem_cons_of_mem r hr')) hunread'
        rw [List.flatten_cons, List.nil_append, Node.advance, if_neg hdone]
        exact hrest
      | cons c fs =>
        rw [streamBytes_cons] at hr
        have hpos := c.length_pos
        have hlt : pos + c.bytes.length + (streamBytes fs).length = r.len.toNat := by
          have hsum := congrArg List.length hr
          rw [List.length_drop, List.length_append] at hsum
          omega
        have hreads := @runBuffer_reads behind _ _ (hin r List.mem_cons_self) _ _ (by omega) hr
        rw [List.flatten_cons, List.cons_append]
        refine ⟨⟨r :: rs, pos + c.bytes.length⟩, fs :: parts, ?_, hin, ?_, rfl⟩
        · rw [Node.advance, if_pos ⟨by omega, hs⟩, decode_frame c hreads]
          dsimp only
          rw [Buffer.advanceReadIndex_mem, rawMsg_bytes hreads]
          rfl
        · have hdrop : (r.bytes s.repl.wal).drop (pos + c.bytes.length) = streamBytes fs := by
            rw [← List.drop_drop, hr, List.drop_left]
          simp only [unread, List.map_cons, hdrop, hrs]

/-! ### The data offset -/

/-- **The tail.** The data offset lies between two commands of the log, and the file has room for
everything behind it. -/
structure Tail (s : Node) : Prop where
  le : s.dataIdx ≤ s.entries.length
  offset : s.repl.replMeta.dataOffset
    = s.log.offsetAt (callBytes ((s.entries.take s.dataIdx).map Entry.call)).length
  commands : ∃ frames : List CommandFrame, s.pending = frames.map CommandFrame.call
  room : (callBytes s.pending).length ≤ s.repl.wal.options.maxFileSize.toNat

/-- The log is the part in front of the data offset and the part behind it. -/
theorem Node.log_split (s : Node) : s.log.bytes
    = callBytes ((s.entries.take s.dataIdx).map Entry.call) ++ callBytes s.pending := by
  rw [s.log_bytes, Node.pending, ← callBytes_append, ← List.map_append, List.take_append_drop]

theorem maxFileSize_lt {wal : Swal} {l : Log} (h : Faithful wal l) :
    wal.options.maxFileSize.toNat < 2 ^ 63 := h.file.size_lt

/-- The window of a log whose offsets have not wrapped around. -/
theorem window_noWrap {wal : Swal} {l : Log} (h : Faithful wal l)
    (hwrap : l.base.toNat + l.bytes.length < 2 ^ 64) :
    wal.logMeta.logEndOffset.toNat = l.base.toNat + l.bytes.length ∧
      wal.logMeta.logStartOffset.toNat + min l.bytes.length wal.options.maxFileSize.toNat
        = wal.logMeta.logEndOffset.toNat := by
  have hlen : l.bytes.length.toUInt64.toNat = l.bytes.length := length_toNat (by omega)
  have hend : wal.logMeta.logEndOffset.toNat = l.base.toNat + l.bytes.length := by
    rw [h.file.end_eq, Log.endOffset, toNat_add_of_lt (by rw [hlen]; omega), hlen]
  have hwin := h.file.window
  refine ⟨hend, ?_⟩
  -- a start behind the end would make the window larger than the log
  rw [UInt64.toNat_sub] at hwin
  have hlt := UInt64.toNat_lt wal.logMeta.logStartOffset
  omega

namespace Tail

variable {s : Node}

theorem lag (ht : Tail s) (h : Faithful s.repl.wal s.log) :
    (s.repl.wal.logMeta.logEndOffset - s.repl.replMeta.dataOffset).toNat
      = (callBytes s.pending).length := by
  have hsize := maxFileSize_lt h
  have hroom := ht.room
  have hsplit := congrArg List.length s.log_split
  rw [List.length_append] at hsplit
  rw [h.file.end_eq, ht.offset, s.log.endOffset_sub (by omega) (by omega), hsplit]
  omega

theorem since (ht : Tail s) (h : Faithful s.repl.wal s.log) :
    s.log.since s.repl.replMeta.dataOffset = callBytes s.pending := by
  have hsize := maxFileSize_lt h
  have hroom := ht.room
  have hsplit := congrArg List.length s.log_split
  rw [List.length_append] at hsplit
  rw [ht.offset, s.log.since_offsetAt (by omega) (by omega), s.log_split, List.drop_left]

theorem inWindow (ht : Tail s) (h : Faithful s.repl.wal s.log)
    (hwrap : s.base.toNat + s.log.bytes.length < 2 ^ 64) :
    InWindow s.repl.wal s.repl.replMeta.dataOffset := by
  have hsize := maxFileSize_lt h
  have hroom := ht.room
  have hsplit := congrArg List.length s.log_split
  rw [List.length_append] at hsplit
  obtain ⟨hend, hstart⟩ := window_noWrap h hwrap
  change _ = s.base.toNat + _ at hend
  have hdata : s.repl.replMeta.dataOffset.toNat
      = s.base.toNat + (callBytes ((s.entries.take s.dataIdx).map Entry.call)).length := by
    rw [ht.offset, Log.offsetAt, toNat_add_of_lt, length_toNat (by omega)]
    · rfl
    · rw [length_toNat (by omega)]
      change s.base.toNat + _ < _
      omega
  constructor
  · rw [UInt64.le_iff_toNat_le]
    omega
  · rw [UInt64.le_iff_toNat_le]
    omega

/-- Nothing is left to replay exactly when the data offset is the end of the log. -/
theorem pending_eq_nil (ht : Tail s) (h : Faithful s.repl.wal s.log) :
    s.pending = [] ↔ s.repl.replMeta.dataOffset = s.repl.wal.logMeta.logEndOffset := by
  have hlag := ht.lag h
  obtain ⟨frames, hframes⟩ := ht.commands
  rw [hframes, callBytes_frames] at hlag
  constructor
  · intro hnil
    obtain rfl : frames = [] := by simpa [hframes] using hnil
    have hzero : s.repl.wal.logMeta.logEndOffset - s.repl.replMeta.dataOffset = 0 :=
      UInt64.toNat_inj.mp (by simpa using hlag)
    grind
  · intro hdone
    rw [hdone, UInt64.sub_self] at hlag
    cases frames with
    | nil => exact hframes
    | cons c frames =>
      have hpos := c.length_pos
      rw [streamBytes_cons, List.length_append, UInt64.toNat_zero] at hlag
      omega

end Tail

/-! ### The invariant -/

/-- **The replay under way.** Each of its runs carries complete commands, and together they are the
next ones behind the data offset. -/
structure Replays (s : Node) (r : Replaying) : Prop where
  inside : ∀ run ∈ r.runs, run.Inside s.repl.wal
  next : ∃ parts : List (List CommandFrame), unread s.repl.wal r = parts.map streamBytes ∧
    (parts.flatten ≠ [] → ∃ later, s.pending = (parts.flatten ++ later).map CommandFrame.call)

/-- **The invariant.** A synced slave still has everything behind its data offset. -/
structure LagOk (s : Node) : Prop where
  faithful : Faithful s.repl.wal s.log
  noWrap : s.base.toNat + s.log.bytes.length < 2 ^ 64
  flag : s.repl.slave.replayingWal = s.replaying.isSome
  busy : s.replaying ≠ none → s.state = .synced ∨ s.state = .invalid ∧ s.link = none
  synced : s.state = .synced → Tail s
  loading : s.state = .loadingSnapshot → s.base = s.cachedOffset ∧
    s.log.bytes.length ≤ s.repl.wal.options.maxFileSize.toNat ∧
    ∃ frames : List CommandFrame, s.entries.map Entry.call = frames.map CommandFrame.call
  replay : ∀ r, s.replaying = some r → s.state = .synced → Replays s r

/-! ### Safe steps -/

namespace Node

/-- The state in which a step calls `ReplayWAL`. -/
def replayCall (s : Node) : Act → Option Node
  | .routine => if s.master ≠ none ∧ s.replaying = none then some s else none
  | .loaded => if s.state = .loadingSnapshot then some s.loaded else none
  | .deliver => s.link.bind fun link =>
      if s.DecodesCommands then
        match decode (.wrap link.held 0 link.held.length) with
        | .frame msg b =>
          (Node.append { s with link := some { link with held := b.mem.drop b.readIdx } }
            ⟨msg.cmd, msg.args, msg.rawMsg.bytes b.mem⟩ false).bind fun t =>
              if t.Direct (msg.rawMsg.bytes b.mem).length then none else some t
        | _ => none
      else none
  | _ => none

end Node

/-- The file has room for `n` more bytes behind what is not replayed yet, and the offsets do not wrap
around. -/
structure Room (s : Node) (n : ℕ) : Prop where
  noWrap : s.repl.wal.logMeta.logEndOffset.toNat + n < 2 ^ 64
  synced : s.state = .synced →
    (s.repl.wal.logMeta.logEndOffset - s.repl.replMeta.dataOffset).toNat + n
      ≤ s.repl.wal.options.maxFileSize.toNat
  loading : s.state = .loadingSnapshot →
    (s.repl.wal.logMeta.logEndOffset - s.cachedOffset).toNat + n
      ≤ s.repl.wal.options.maxFileSize.toNat

/-- Appending this command does not overwrite what the replay under way has still to read. -/
def KeepsUnread (s : Node) (call : Call) : Prop :=
  ∀ r executed t, s.replaying = some r → s.append call executed = some t →
    unread t.repl.wal r = unread s.repl.wal r

/-- The wrap point does not cut a command of the replay that starts here. -/
def CutOk (s : Node) : Prop :=
  s.Starts → ∀ frames : List CommandFrame, s.pending = frames.map CommandFrame.call →
    CutsBetween frames (s.repl.wal.cut s.repl.replMeta.dataOffset)

/-- A step that does not run into the defects. The master sends commands. -/
def LagSafe (s : Node) (a : Act) : Prop :=
  (∀ t, s.replayCall a = some t → CutOk t) ∧
  match a with
  | .deliver => ∀ link, s.link = some link → ∀ msg b,
      decode (.wrap link.held 0 link.held.length) = .frame msg b →
        ∃ (c : CommandFrame) (rest : Bytes), link.held = c.bytes ++ rest ∧ Room s c.bytes.length ∧
          KeepsUnread s c.call
  | .log call _ => ∃ c : CommandFrame, call = c.call ∧ Room s c.bytes.length ∧ KeepsUnread s call
  | .continued => Tail s
  | _ => True

/-! ### Appending -/

theorem Node.append_spec {s t : Node} {call : Call} {executed : Bool}
    (h : s.append call executed = some t) :
    ∃ (hlen : call.raw.length < 2 ^ 63) (wal : Swal),
      swalStep s.repl.wal (.append ⟨call.raw, hlen⟩) = some wal ∧
      t = { s with
        repl := { s.repl with wal := wal }, entries := s.entries ++ [⟨call, executed⟩] } := by
  unfold Node.append at h
  split at h
  · next hlen =>
    obtain ⟨wal, hwal, rfl⟩ := Option.map_eq_some_iff.mp h
    exact ⟨hlen.trans (by decide), wal, hwal, rfl⟩
  · cases h

/-- What is appended does not depend on the link. -/
theorem Node.append_link (s : Node) (link : Option Link) (call : Call) (executed : Bool) :
    Node.append { s with link := link } call executed
      = (s.append call executed).map fun t => { t with link := link } := by
  unfold Node.append
  split
  · rw [Option.map_map]
    rfl
  · rfl

/-- The memory behind the log keeps its size. -/
theorem region_length_eq {wal wal' : Swal} {l l' : Log} (h : Faithful wal l) (h' : Faithful wal' l')
    (hopt : wal'.options = wal.options) (region : Region) :
    (wal'.region region).length = (wal.region region).length := by
  cases region with
  | file => rw [h'.file.mapping.length_eq, h.file.mapping.length_eq, hopt]
  | ring =>
    have hsome : wal'.ringCache.isSome ↔ wal.ringCache.isSome := by
      rw [h'.ring.some_iff, h.ring.some_iff, hopt]
    cases hr : wal.ringCache with
    | none =>
      have hr' : wal'.ringCache = none := by
        rw [hr] at hsome
        exact Option.not_isSome_iff_eq_none.mp fun hs => (by cases hsome.mp hs)
      simp [Swal.region, hr, hr']
    | some ring =>
      rw [hr] at hsome
      obtain ⟨ring', hr'⟩ := Option.isSome_iff_exists.mp (hsome.mpr rfl)
      have hlen := (h.ring.ring ring hr).length_eq
      have hlen' := (h'.ring.ring ring' hr').length_eq
      simp [Swal.region, hr, hr', hlen, hlen', hopt]

theorem Node.pending_append {s : Node} (hle : s.dataIdx ≤ s.entries.length) (e : Entry) (repl : Repl) :
    Node.pending { s with repl := repl, entries := s.entries ++ [e] } = s.pending ++ [e.call] := by
  simp only [Node.pending, List.drop_append_of_le_length hle, List.map_append, List.map_cons,
    List.map_nil]

/-- The node with a command behind what it had logged, and the log it is in. -/
def Node.withEntry (s : Node) (wal : Swal) (c : CommandFrame) (executed : Bool) : Node :=
  { s with repl := { s.repl with wal := wal }, entries := s.entries ++ [⟨c.call, executed⟩] }

section WithEntry

variable {s : Node} {wal : Swal} {c : CommandFrame} {executed : Bool}

theorem Node.log_withEntry : (s.withEntry wal c executed).log = s.log.append c.bytes := by
  simp [Node.withEntry, Node.log, Log.append, CommandFrame.call]

theorem Node.length_log_withEntry :
    (s.withEntry wal c executed).log.bytes.length = s.log.bytes.length + c.bytes.length := by
  rw [Node.log_withEntry, Log.append_bytes, List.length_append]

/-- What is pending grows by the command. -/
theorem Tail.withEntry (ht : Tail s) (hf : Faithful s.repl.wal s.log)
    (hopt : wal.options = s.repl.wal.options)
    (hroom : (s.repl.wal.logMeta.logEndOffset - s.repl.replMeta.dataOffset).toNat + c.bytes.length
      ≤ s.repl.wal.options.maxFileSize.toNat) : Tail (s.withEntry wal c executed) := by
  have hlag := ht.lag hf
  have hpending := Node.pending_append ht.le ⟨c.call, executed⟩ { s.repl with wal := wal }
  obtain ⟨frames, hframes⟩ := ht.commands
  refine ⟨?_, ?_, ⟨frames ++ [c], ?_⟩, ?_⟩
  · change s.dataIdx ≤ (s.entries ++ _).length
    rw [List.length_append]
    exact ht.le.trans (Nat.le_add_right _ _)
  · -- the data offset stays where it is, in front of the same entry
    rw [Node.log_withEntry]
    change s.repl.replMeta.dataOffset = s.base + _
    rw [ht.offset]
    change s.base + _ = s.base + (callBytes (((s.entries ++ _).take s.dataIdx).map _)).length.toUInt64
    rw [List.take_append_of_le_length ht.le]
  · unfold Node.withEntry
    rw [hpending, hframes, List.map_append]
    rfl
  · unfold Node.withEntry
    rw [hpending, callBytes_append, List.length_append, ← hlag]
    change _ + (c.bytes ++ []).length ≤ wal.options.maxFileSize.toNat
    rw [List.append_nil, hopt]
    exact hroom

/-- A replay under way finds what it has still to read, and one more command behind it. -/
theorem Replays.withEntry {r : Replaying} (h : Replays s r) (ht : Tail s)
    (hf : Faithful s.repl.wal s.log) (hf' : Faithful wal (s.log.append c.bytes))
    (hopt : wal.options = s.repl.wal.options) (hunread : unread wal r = unread s.repl.wal r) :
    Replays (s.withEntry wal c executed) r := by
  obtain ⟨hinside, parts, hparts, hnext⟩ := h
  refine ⟨?_, parts, hunread.trans hparts, ?_⟩
  · intro run hrun
    have hlen := region_length_eq hf hf' hopt run.region
    have hin := hinside run hrun
    unfold Run.Inside at hin ⊢
    change _ ≤ (wal.region run.region).length
    rw [hlen]
    exact hin
  · intro hne
    obtain ⟨later, hlater⟩ := hnext hne
    refine ⟨later ++ [c], ?_⟩
    unfold Node.withEntry
    rw [Node.pending_append ht.le, hlater, ← List.append_assoc]
    simp

end WithEntry

/-- **Appending.** A command that the file has room for leaves the invariant. -/
theorem LagOk.append {s t : Node} (h : LagOk s) {c : CommandFrame} {executed : Bool}
    (hroom : Room s c.bytes.length) (hkeep : KeepsUnread s c.call)
    (happ : s.append c.call executed = some t) : LagOk t := by
  have hunread := fun r hr => hkeep r executed t hr happ
  obtain ⟨hlen, wal, hwal, rfl⟩ := Node.append_spec happ
  obtain ⟨wal', hwal', hfaith, hopt⟩ := h.faithful.step (.append ⟨c.call.raw, hlen⟩)
  obtain rfl : wal' = wal := Option.some.inj (hwal'.symm.trans hwal)
  obtain ⟨hend, -⟩ := window_noWrap h.faithful h.noWrap
  change _ = s.base.toNat + _ at hend
  change LagOk (s.withEntry wal' c executed)
  refine ⟨by rw [Node.log_withEntry]; exact hfaith, ?_, h.flag, h.busy, fun hsync => ?_,
    fun hload => ?_, fun r hr hsync => ?_⟩
  · have hsum := hroom.noWrap
    rw [Node.length_log_withEntry]
    change s.base.toNat + _ < _
    omega
  · exact (h.synced hsync).withEntry h.faithful hopt (hroom.synced hsync)
  · -- the log began at the offset of the snapshot, so the room counts from its base
    obtain ⟨hbase, -, frames, hframes⟩ := h.loading hload
    have hfits := hroom.loading hload
    have hlag : (s.repl.wal.logMeta.logEndOffset - s.cachedOffset).toNat = s.log.bytes.length := by
      rw [← hbase, toNat_sub_of_le (by omega)]
      omega
    refine ⟨hbase, ?_, frames ++ [c], ?_⟩
    · rw [Node.length_log_withEntry, ← hlag]
      change _ ≤ wal'.options.maxFileSize.toNat
      rw [hopt]
      exact hfits
    · change (s.entries ++ _).map Entry.call = _
      rw [List.map_append, hframes, List.map_append]
      rfl
  · exact (h.replay r hr hsync).withEntry (h.synced hsync) h.faithful hfaith hopt (hunread r hr)

/-! ### Executing -/

/-- Marking an entry as executed changes no command. -/
theorem Node.execute_calls (s : Node) (call : Call) :
    (s.execute crc64 call).entries.map Entry.call = s.entries.map Entry.call := by
  apply List.ext_getElem?
  intro i
  simp only [Node.execute, List.getElem?_map, List.getElem?_modify]
  cases s.entries[i]? with
  | none => rfl
  | some e => by_cases hi : s.dataIdx = i <;> simp [hi]

theorem Node.execute_log (s : Node) (call : Call) : (s.execute crc64 call).log = s.log := by
  have hbytes := congrArg callBytes (@Node.execute_calls crc64 s call)
  rw [← Node.log_bytes, ← Node.log_bytes] at hbytes
  exact congrArg (Log.mk s.base) hbytes

/-- **The next command.** Executing it moves it from behind the data index to the end of what lies in
front. -/
theorem Node.execute_next {s : Node} {call : Call} {calls : List Call}
    (hnext : s.pending = call :: calls) :
    s.dataIdx < s.entries.length ∧ (s.execute crc64 call).pending = calls ∧
      ((s.execute crc64 call).entries.take (s.execute crc64 call).dataIdx).map Entry.call
        = (s.entries.take s.dataIdx).map Entry.call ++ [call] := by
  obtain ⟨e, rest, hdrop⟩ : ∃ e rest, s.entries.drop s.dataIdx = e :: rest := by
    cases hd : s.entries.drop s.dataIdx with
    | nil => simp [Node.pending, hd] at hnext
    | cons e rest => exact ⟨e, rest, rfl⟩
  have hlt : s.dataIdx < s.entries.length := by
    by_contra hge
    rw [List.drop_eq_nil_of_le (by omega)] at hdrop
    cases hdrop
  obtain ⟨hcall, hrest⟩ : e.call = call ∧ rest.map Entry.call = calls := by
    rw [Node.pending, hdrop, List.map_cons] at hnext
    exact List.cons.inj hnext
  have hcalls := @Node.execute_calls crc64 s call
  refine ⟨hlt, ?_, ?_⟩
  · rw [← hrest]
    unfold Node.pending
    rw [List.map_drop, hcalls, ← List.map_drop]
    change (s.entries.drop (s.dataIdx + 1)).map Entry.call = _
    rw [← List.drop_drop, hdrop]
    rfl
  · change ((s.execute crc64 call).entries.take (s.dataIdx + 1)).map Entry.call = _
    rw [List.map_take, hcalls, ← List.map_take, List.take_add, hdrop, List.map_append]
    simp [hcall]

/-- What executing the next command leaves of the tail. -/
theorem Tail.execute {s : Node} (ht : Tail s) {c : CommandFrame} {frames : List CommandFrame}
    (hnext : s.pending = (c :: frames).map CommandFrame.call) :
    Tail (s.execute crc64 c.call) ∧
      (s.execute crc64 c.call).pending = frames.map CommandFrame.call := by
  obtain ⟨hlt, hpending, htake⟩ := @Node.execute_next crc64 s _ _ hnext
  have hlog := @Node.execute_log crc64 s c.call
  refine ⟨⟨?_, ?_, ⟨frames, hpending⟩, ?_⟩, hpending⟩
  · change s.dataIdx + 1 ≤ (s.entries.modify _ _).length
    rw [List.length_modify]
    exact hlt
  · -- the data offset moves by the command that is in front of it now
    rw [htake, callBytes_append, List.length_append, hlog, Log.offsetAt, toUInt64_add,
      ← UInt64.add_assoc]
    change s.repl.replMeta.dataOffset + c.bytes.length.toUInt64 = _
    rw [ht.offset, Log.offsetAt]
    congr 2
    simp [callBytes, CommandFrame.call]
  · have hroom := ht.room
    rw [hnext, callBytes_frames, streamBytes_cons, List.length_append] at hroom
    rw [hpending, callBytes_frames]
    exact (Nat.le_add_left _ _).trans hroom

/-! ### Replaying -/

theorem LagOk.done {s : Node} (h : LagOk s) : LagOk (s.setReplaying none) where
  faithful := h.faithful
  noWrap := h.noWrap
  flag := rfl
  busy := fun hne => absurd rfl hne
  synced := fun hs => ⟨(h.synced hs).le, (h.synced hs).offset, (h.synced hs).commands,
    (h.synced hs).room⟩
  loading := h.loading
  replay := by
    intro r hr
    cases hr

/-- The replay has executed a command and goes on behind it. -/
theorem LagOk.next {s : Node} (h : LagOk s) (hs : s.state = .synced) {c : CommandFrame}
    {rest later : List CommandFrame} (hpending : s.pending = (c :: rest ++ later).map CommandFrame.call)
    {r : Replaying} (hinside : ∀ run ∈ r.runs, run.Inside s.repl.wal)
    {parts : List (List CommandFrame)} (hunread : unread s.repl.wal r = parts.map streamBytes)
    (hparts : parts.flatten = rest) :
    LagOk ((s.replayed crc64 c.call).setReplaying (some r)) := by
  obtain ⟨htail, hnext⟩ := @Tail.execute crc64 s (h.synced hs) c (rest ++ later) hpending
  have hlog := @Node.execute_log crc64 s c.call
  refine ⟨?_, ?_, rfl, fun _ => Or.inl hs, fun _ => ⟨htail.le, htail.offset, htail.commands,
    htail.room⟩, fun hload => ?_, ?_⟩
  · change Faithful s.repl.wal (s.execute crc64 c.call).log
    rw [hlog]
    exact h.faithful
  · change s.base.toNat + (s.execute crc64 c.call).log.bytes.length < _
    rw [hlog]
    exact h.noWrap
  · have hboth : SlaveState.synced = .loadingSnapshot := hs.symm.trans hload
    cases hboth
  · intro r' hr' _
    obtain rfl := Option.some.inj hr'
    exact ⟨hinside, parts, hunread, fun _ => ⟨later, by rw [hparts]; exact hnext⟩⟩

/-- **Going on.** The event loop returns to the replay. -/
theorem LagOk.resume {s : Node} (h : LagOk s) {r : Replaying} (hr : s.replaying = some r) :
    ∃ t, s.advance crc64 behind r.runs r.pos = some t ∧ LagOk t := by
  by_cases hs : s.state = .synced
  · obtain ⟨hinside, parts, hunread, hnext⟩ := h.replay r hr hs
    have hspec := @Node.advance_spec crc64 behind s hs r.runs r.pos hinside parts hunread
    cases hflat : parts.flatten with
    | nil =>
      rw [hflat] at hspec
      exact ⟨_, hspec, h.done⟩
    | cons c rest =>
      rw [hflat] at hspec
      obtain ⟨r', parts', hadv, hinside', hunread', hparts'⟩ := hspec
      obtain ⟨later, hpending⟩ := hnext (by rw [hflat]; exact List.cons_ne_nil _ _)
      rw [hflat] at hpending
      exact ⟨_, hadv, h.next hs hpending hinside' hunread' hparts'⟩
  · exact ⟨_, Node.advance_off hs r.runs r.pos, h.done⟩

/-- **A call of `ReplayWAL`.** It keeps the invariant, and executes a command if it does not return at
once. -/
theorem LagOk.replayWAL {s : Node} (h : LagOk s) (hcut : CutOk s) :
    ∃ t, s.replayWAL crc64 behind = some t ∧ LagOk t ∧
      (s.Starts → ∃ call, t.repl.called = s.repl.called ++ [call]) := by
  unfold Node.replayWAL
  by_cases hstarts : s.Starts
  · rw [if_pos hstarts]
    have hs : s.state = .synced := hstarts.1
    have ht := h.synced hs
    obtain ⟨frames, hframes⟩ := ht.commands
    have hsince : s.log.since s.repl.replMeta.dataOffset = streamBytes frames := by
      rw [ht.since h.faithful, hframes, callBytes_frames]
    obtain ⟨hlo, hhi⟩ := ht.inWindow h.faithful h.noWrap
    obtain ⟨-, hinside, -⟩ := h.faithful.replay_split hlo hhi hsince
    obtain ⟨parts, hparts, hruns⟩ := h.faithful.replay_parts hlo hhi hsince
      (hcut hstarts frames hframes)
    have hspec := @Node.advance_spec crc64 behind s hs _ 0 hinside parts (by rw [unread_zero, hruns])
    rw [hparts] at hspec
    cases frames with
    | nil => exact absurd ((ht.pending_eq_nil h.faithful).mp hframes) hstarts.2.1
    | cons c rest =>
      obtain ⟨r', parts', hadv, hinside', hunread', hparts'⟩ := hspec
      refine ⟨_, hadv, ?_, fun _ => ⟨c.call, rfl⟩⟩
      exact @LagOk.next crc64 s h hs c rest [] (by rw [List.append_nil]; exact hframes) r' hinside'
        parts' hunread' hparts'
  · rw [if_neg hstarts]
    exact ⟨s, rfl, h, fun hst => absurd hst hstarts⟩

/-! ### A command from the master -/

/-- A command that is executed at once finds nothing in front of it. -/
theorem Direct.pending_eq_nil {s t : Node} (hs : LagOk s) (ht : LagOk t) {c : CommandFrame}
    (happ : s.append c.call false = some t) (hdirect : t.Direct c.call.raw.length) :
    s.pending = [] := by
  obtain ⟨hlen, wal, -, rfl⟩ := Node.append_spec happ
  obtain ⟨hsync, hoff⟩ := hdirect
  have hsync' : s.state = .synced := hsync
  have hts := hs.synced hsync'
  have hlag := (ht.synced hsync).lag ht.faithful
  rw [← hoff, UInt64.add_comm, UInt64.add_sub_cancel, length_toNat (by omega),
    Node.pending_append hts.le, callBytes_append, List.length_append] at hlag
  have hone : (callBytes [c.call]).length = c.call.raw.length := by simp [callBytes]
  obtain ⟨frames, hframes⟩ := hts.commands
  rw [hframes, callBytes_frames] at hlag
  cases frames with
  | nil => exact hframes
  | cons d frames =>
    have hpos := d.length_pos
    rw [streamBytes_cons, List.length_append] at hlag
    change _ = _ + (callBytes [c.call]).length at hlag
    omega

/-- **Executing at once.** -/
theorem LagOk.direct {s t : Node} (hs : LagOk s) (ht : LagOk t) {c : CommandFrame}
    (hkeep : KeepsUnread s c.call) (happ : s.append c.call false = some t)
    (hdirect : t.Direct c.call.raw.length) : LagOk (t.execute crc64 c.call) := by
  have hnil := Direct.pending_eq_nil hs ht happ hdirect
  have hunread := fun r hr => hkeep r false t hr happ
  have hsync : t.state = .synced := hdirect.1
  obtain ⟨hlen, wal, -, rfl⟩ := Node.append_spec happ
  have hsync' : s.state = .synced := hsync
  have hpending := Node.pending_append (hs.synced hsync').le ⟨c.call, false⟩ { s.repl with wal := wal }
  rw [hnil] at hpending
  obtain ⟨htail, hnext⟩ := @Tail.execute crc64 _ (ht.synced hsync) c [] hpending
  have hlog := @Node.execute_log crc64 { s with
    repl := { s.repl with wal := wal }, entries := s.entries ++ [⟨c.call, false⟩] } c.call
  refine ⟨by rw [hlog]; exact ht.faithful, by rw [hlog]; exact ht.noWrap, ht.flag, ht.busy,
    fun _ => htail, fun hload => ?_, ?_⟩
  · have hboth : SlaveState.synced = .loadingSnapshot := hsync.symm.trans hload
    cases hboth
  · intro r hr _
    -- the replay under way is at its end
    obtain ⟨-, parts, hparts, hmore⟩ := hs.replay r hr hsync'
    have hflat : parts.flatten = [] := by
      by_contra hne
      obtain ⟨later, hlater⟩ := hmore hne
      rw [hnil] at hlater
      have hboth := List.map_eq_nil_iff.mp hlater.symm
      exact hne (List.append_eq_nil_iff.mp hboth).1
    exact ⟨(ht.replay r hr hsync).inside, parts, (hunread r hr).trans hparts, fun hne =>
      absurd hflat hne⟩

/-! ### The steps -/

/-- Nothing of the invariant is about what the link holds. -/
theorem LagOk.setLink {s : Node} (h : LagOk s) {link : Link} (hlink : s.link = some link)
    (link' : Link) : LagOk { s with link := some link' } where
  faithful := h.faithful
  noWrap := h.noWrap
  flag := h.flag
  busy := by
    intro hne
    rcases h.busy hne with hs | ⟨-, hnone⟩
    · exact Or.inl hs
    · rw [hlink] at hnone
      cases hnone
  synced := fun hs => ⟨(h.synced hs).le, (h.synced hs).offset, (h.synced hs).commands,
    (h.synced hs).room⟩
  loading := h.loading
  replay := fun r hr hs => ⟨(h.replay r hr hs).inside, (h.replay r hr hs).next⟩

/-- The link is in another state, in which the slave neither executes nor logs. -/
theorem LagOk.setState {s : Node} (h : LagOk s) (hidle : s.replaying = none) {state : SlaveState}
    (hs : state ≠ .synced) (hl : state ≠ .loadingSnapshot) (link : Option Link) :
    LagOk { s.setState state with link := link } where
  faithful := h.faithful
  noWrap := h.noWrap
  flag := h.flag
  busy := fun hne => absurd hidle hne
  synced := fun hsync => absurd hsync hs
  loading := fun hload => absurd hload hl
  replay := fun _ _ hsync => absurd hsync hs

/-- Outside the event loop of a replay none is under way. -/
theorem LagOk.idle {s : Node} (h : LagOk s) (hlink : s.link ≠ none) (hs : s.state ≠ .synced) :
    s.replaying = none := by
  by_contra hne
  rcases h.busy hne with hsync | ⟨-, hnone⟩
  · exact hs hsync
  · exact hlink hnone

theorem LagOk.continued {s : Node} (h : LagOk s) (hidle : s.replaying = none) (ht : Tail s) :
    LagOk (s.setState .synced) where
  faithful := h.faithful
  noWrap := h.noWrap
  flag := h.flag
  busy := fun _ => Or.inl rfl
  synced := fun _ => ⟨ht.le, ht.offset, ht.commands, ht.room⟩
  loading := by
    intro hload
    cases hload
  replay := by
    intro r hr
    rw [show s.replaying = some r from hr] at hidle
    cases hidle

theorem LagOk.snapshot {s : Node} (h : LagOk s) (hidle : s.replaying = none) (offset cksm : UInt64) :
    LagOk (s.snapshot offset cksm) := by
  obtain ⟨wal, hwal, hfaith, hopt⟩ := h.faithful.step (.reset offset cksm)
  obtain rfl := Option.some.inj hwal
  exact
    { faithful := hfaith
      noWrap := UInt64.toNat_lt offset
      flag := h.flag
      busy := fun hne => absurd hidle hne
      synced := by
        intro hs
        cases hs
      loading := fun _ => ⟨rfl, Nat.zero_le _, [], rfl⟩
      replay := by
        intro r hr
        rw [show s.replaying = some r from hr] at hidle
        cases hidle }

theorem LagOk.loaded {s : Node} (h : LagOk s) (hs : s.state = .loadingSnapshot) : LagOk s.loaded := by
  obtain ⟨hbase, hroom, frames, hframes⟩ := h.loading hs
  have hidle : s.replaying = none := by
    by_contra hne
    rcases h.busy hne with hsync | ⟨hinv, -⟩
    · rw [hs] at hsync
      cases hsync
    · rw [hs] at hinv
      cases hinv
  have hpending : s.loaded.pending = frames.map CommandFrame.call := hframes
  exact
    { faithful := h.faithful
      noWrap := h.noWrap
      flag := h.flag
      busy := fun hne => absurd hidle hne
      synced := by
        intro _
        refine ⟨Nat.zero_le _, ?_, ⟨frames, hpending⟩, ?_⟩
        · change s.cachedOffset = s.base + (0 : ℕ).toUInt64
          rw [hbase]
          exact (UInt64.add_zero _).symm
        · rw [hpending, ← hframes, ← s.log_bytes]
          exact hroom
      loading := by
        intro hload
        cases hload
      replay := by
        intro r hr
        rw [show s.replaying = some r from hr] at hidle
        cases hidle }

theorem LagOk.drop {s : Node} (h : LagOk s) : LagOk s.drop where
  faithful := h.faithful
  noWrap := h.noWrap
  flag := h.flag
  busy := fun _ => Or.inr ⟨rfl, rfl⟩
  synced := by
    intro hs
    cases hs
  loading := by
    intro hload
    cases hload
  replay := by
    intro r _ hs
    cases hs

theorem LagOk.slaveof {s : Node} (h : LagOk s) (master : Option (Bytes × UInt32)) :
    LagOk (s.slaveof master) where
  faithful := h.faithful
  noWrap := h.noWrap
  flag := h.flag
  busy := by
    intro hne
    rcases h.busy hne with hs | ⟨hinv, hnone⟩
    · exact Or.inl hs
    · exact Or.inr ⟨hinv, by simp [Node.slaveof, hnone]⟩
  synced := fun hs => ⟨(h.synced hs).le, (h.synced hs).offset, (h.synced hs).commands,
    (h.synced hs).room⟩
  loading := h.loading
  replay := fun r hr hs => ⟨(h.replay r hr hs).inside, (h.replay r hr hs).next⟩

/-- The decoder takes a command off what it holds. -/
theorem deliver_frame {c : CommandFrame} {rest : Bytes} {held : Bytes} (hheld : held = c.bytes ++ rest)
    {msg : RedisCommandFrame} {b : Buffer}
    (hdec : decode (.wrap held 0 held.length) = .frame msg b) :
    (⟨msg.cmd, msg.args, msg.rawMsg.bytes b.mem⟩ : Call) = c.call := by
  have hreads : (Buffer.wrap held 0 held.length).Reads (c.bytes ++ rest) := by
    have hwrap := Buffer.reads_wrap held []
    rw [List.append_nil] at hwrap
    rwa [← hheld]
  have hframe := decode_frame c hreads
  rw [hdec] at hframe
  obtain ⟨rfl, rfl⟩ := Decoded.frame.inj hframe
  rw [Buffer.advanceReadIndex_mem, rawMsg_bytes hreads]
  rfl

/-- What comes of a command that the decoder hands on. -/
theorem LagOk.handle {s t : Node} (h : LagOk s) {c : CommandFrame} (hroom : Room s c.bytes.length)
    (hkeep : KeepsUnread s c.call) (happ : s.append c.call false = some t)
    (hcut : ¬t.Direct c.call.raw.length → CutOk t) :
    ∃ s', s.handleRedisCommand crc64 behind c.call = some s' ∧ LagOk s' ∧
      (¬t.Direct c.call.raw.length → t.Starts →
        ∃ call, s'.repl.called = t.repl.called ++ [call]) := by
  have ht := h.append hroom hkeep happ
  unfold Node.handleRedisCommand
  rw [happ, Option.bind_some]
  by_cases hdirect : t.Direct c.call.raw.length
  · rw [if_pos hdirect]
    exact ⟨_, rfl, h.direct ht hkeep happ hdirect, fun hnot => absurd hdirect hnot⟩
  · rw [if_neg hdirect]
    obtain ⟨s', hs', hok, hcalled⟩ := @LagOk.replayWAL crc64 behind t ht (hcut hdirect)
    exact ⟨s', hs', hok, fun _ => hcalled⟩

/-- **A safe delivery.** A command is taken off what the link holds. There is room for it, it overwrites
nothing that is still to be read, and where it is not executed at once the replay may begin. -/
theorem LagSafe.deliver {s : Node} (hsafe : LagSafe s .deliver) {link : Link}
    (hlink : s.link = some link) (hcmds : s.DecodesCommands) {msg : RedisCommandFrame} {b : Buffer}
    (hdec : decode (.wrap link.held 0 link.held.length) = .frame msg b) {held : Node}
    (hheld : held = { s with link := some { link with held := b.mem.drop b.readIdx } }) :
    ∃ c : CommandFrame, (⟨msg.cmd, msg.args, msg.rawMsg.bytes b.mem⟩ : Call) = c.call ∧
      Room held c.bytes.length ∧ KeepsUnread held c.call ∧
      ∀ t, held.append c.call false = some t → ¬t.Direct c.call.raw.length → CutOk t := by
  obtain ⟨hcut, hsafe⟩ := hsafe
  obtain ⟨c, rest, hbytes, hroom, hkeep⟩ := hsafe link hlink msg b hdec
  have hcall := deliver_frame hbytes hdec
  have hlen : (msg.rawMsg.bytes b.mem).length = c.call.raw.length := by rw [← hcall]
  subst hheld
  refine ⟨c, hcall, ⟨hroom.noWrap, hroom.synced, hroom.loading⟩, ?_, ?_⟩
  · intro r executed u hr hu
    rw [s.append_link] at hu
    obtain ⟨v, hv, rfl⟩ := Option.map_eq_some_iff.mp hu
    exact hkeep r executed v hr hv
  · intro t happ hdirect
    refine hcut t ?_
    change s.link.bind _ = _
    rw [hlink, Option.bind_some, if_pos hcmds, hdec]
    dsimp only
    rw [hcall, happ, Option.bind_some, hlen, if_neg hdirect]

/-- A command is taken off what the link holds: the invariant is kept, and a call of `ReplayWAL` that
does not return at once executes a command. -/
theorem LagOk.deliver {s : Node} (h : LagOk s) {link : Link} (hlink : s.link = some link)
    (hcmds : s.DecodesCommands) {msg : RedisCommandFrame} {b : Buffer}
    (hdec : decode (.wrap link.held 0 link.held.length) = .frame msg b)
    (hsafe : LagSafe s .deliver) {t : Node}
    (happ : Node.append { s with link := some { link with held := b.mem.drop b.readIdx } }
      ⟨msg.cmd, msg.args, msg.rawMsg.bytes b.mem⟩ false = some t) :
    ∃ s', s.step crc64 behind .deliver = some s' ∧ LagOk s' ∧
      (¬t.Direct (msg.rawMsg.bytes b.mem).length → t.Starts →
        ∃ call, s'.repl.called = t.repl.called ++ [call]) := by
  obtain ⟨c, hcall, hroom, hkeep, hcut⟩ := hsafe.deliver hlink hcmds hdec rfl
  have hstep : s.step crc64 behind .deliver
      = Node.handleRedisCommand crc64 behind
        { s with link := some { link with held := b.mem.drop b.readIdx } }
        ⟨msg.cmd, msg.args, msg.rawMsg.bytes b.mem⟩ := by
    change s.link.bind _ = _
    rw [hlink, Option.bind_some, if_pos hcmds]
    unfold Node.deliver
    rw [hdec]
  have hlen : (msg.rawMsg.bytes b.mem).length = c.call.raw.length := by rw [← hcall]
  rw [hcall] at happ hstep
  rw [hstep, hlen]
  exact (h.setLink hlink _).handle hroom hkeep happ (hcut t happ)

/-- **The step.** The invariant is kept by every step that is `LagSafe`. -/
theorem LagOk.step {s s' : Node} {a : Act} (h : LagOk s) (hsafe : LagSafe s a)
    (hstep : s.step crc64 behind a = some s') : LagOk s' := by
  obtain ⟨hcut, hsafe⟩ := hsafe
  cases a with
  | arrive chunk =>
    obtain ⟨link, hlink, hstep⟩ := Option.bind_eq_some_iff.mp hstep
    obtain ⟨-, hstep⟩ := Option.ite_none_right_eq_some.mp hstep
    cases hstep
    -- bytes that wait in the channel are not in the log
    exact h.setLink hlink _
  | deliver =>
    have hstep₀ := hstep
    obtain ⟨link, hlink, hstep⟩ := Option.bind_eq_some_iff.mp hstep
    obtain ⟨hcmds, hstep⟩ := Option.ite_none_right_eq_some.mp hstep
    unfold Node.deliver at hstep
    cases hdec : decode (.wrap link.held 0 link.held.length) with
    | none err b =>
      rw [hdec] at hstep
      cases hstep
      -- no command yet: what was decoded is dropped
      exact h.setLink hlink _
    | fault => simp [hdec] at hstep
    | frame msg b =>
      rw [hdec] at hstep
      -- the command is appended, and executed or left to `ReplayWAL`
      obtain ⟨t, happ, -⟩ := Option.bind_eq_some_iff.mp hstep
      obtain ⟨s'', hs'', hok, -⟩ := @LagOk.deliver crc64 behind s h link hlink hcmds msg b hdec
        ⟨hcut, hsafe⟩ t happ
      rw [hstep₀] at hs''
      cases hs''
      exact hok
  | resume =>
    obtain ⟨r, hr, hstep⟩ := Option.bind_eq_some_iff.mp hstep
    obtain ⟨t, ht, hok⟩ := @LagOk.resume crc64 behind s h r hr
    rw [ht] at hstep
    cases hstep
    exact hok
  | routine =>
    -- `ReplayWAL` begins only where the wrap point cuts no command
    have hcall : s.replayCall .routine = some s := by
      obtain ⟨hcond, -⟩ := Option.ite_none_right_eq_some.mp hstep
      exact if_pos hcond
    obtain ⟨-, hstep⟩ := Option.ite_none_right_eq_some.mp hstep
    obtain ⟨t, ht, hok, -⟩ := @LagOk.replayWAL crc64 behind s h (hcut s hcall)
    rw [ht] at hstep
    cases hstep
    exact hok
  | connect =>
    obtain ⟨⟨-, hidle, -⟩, hstep⟩ := Option.ite_none_right_eq_some.mp hstep
    cases hstep
    -- a link that is being made is neither synced nor loading
    exact h.setState hidle SlaveState.noConfusion SlaveState.noConfusion _
  | handshake state =>
    obtain ⟨⟨hlink, hcmds, hs, hl⟩, hstep⟩ := Option.ite_none_right_eq_some.mp hstep
    cases hstep
    exact h.setState (h.idle hlink fun hsync => hcmds (Or.inl hsync)) hs hl s.link
  | continued =>
    obtain ⟨⟨hlink, hs⟩, hstep⟩ := Option.ite_none_right_eq_some.mp hstep
    cases hstep
    -- everything behind the data offset is still there when the master goes on
    exact h.continued (h.idle hlink (by rw [hs]; exact SlaveState.noConfusion)) hsafe
  | snapshot offset cksm =>
    obtain ⟨⟨hlink, hs⟩, hstep⟩ := Option.ite_none_right_eq_some.mp hstep
    cases hstep
    exact h.snapshot (h.idle hlink (by rw [hs]; exact SlaveState.noConfusion)) offset cksm
  | loaded =>
    -- the data offset is the one of the snapshot now, and the log is behind it
    have hcall : s.replayCall .loaded = some s.loaded := by
      obtain ⟨hcond, -⟩ := Option.ite_none_right_eq_some.mp hstep
      exact if_pos hcond
    obtain ⟨hs, hstep⟩ := Option.ite_none_right_eq_some.mp hstep
    obtain ⟨t, ht, hok, -⟩ := @LagOk.replayWAL crc64 behind _ (h.loaded hs) (hcut _ hcall)
    rw [ht] at hstep
    cases hstep
    exact hok
  | drop =>
    obtain ⟨-, hstep⟩ := Option.ite_none_right_eq_some.mp hstep
    cases hstep
    exact h.drop
  | slaveof master =>
    cases hstep
    exact h.slaveof master
  | log call executed =>
    -- what this instance logs itself is a command, and the file has room for it
    obtain ⟨c, rfl, hroom, hkeep⟩ := hsafe
    exact h.append hroom hkeep hstep

/-- **Executing.** A call of `ReplayWAL` that does not return at once executes a command. -/
theorem LagOk.executes {s t : Node} {a : Act} (h : LagOk s) (hsafe : LagSafe s a)
    (hcall : s.replayCall a = some t) (hstarts : t.Starts) :
    ∃ s' call, s.step crc64 behind a = some s' ∧ s'.repl.called = t.repl.called ++ [call] := by
  cases a with
  | routine =>
    obtain ⟨hcond, heq⟩ := Option.ite_none_right_eq_some.mp hcall
    cases heq
    obtain ⟨s', hs', -, hcalled⟩ := @LagOk.replayWAL crc64 behind s h (hsafe.1 s hcall)
    obtain ⟨call, hcalled⟩ := hcalled hstarts
    exact ⟨s', call, (if_pos hcond).trans hs', hcalled⟩
  | loaded =>
    obtain ⟨hcond, heq⟩ := Option.ite_none_right_eq_some.mp hcall
    cases heq
    obtain ⟨s', hs', -, hcalled⟩ :=
      @LagOk.replayWAL crc64 behind _ (h.loaded hcond) (hsafe.1 _ hcall)
    obtain ⟨call, hcalled⟩ := hcalled hstarts
    exact ⟨s', call, (if_pos hcond).trans hs', hcalled⟩
  | deliver =>
    obtain ⟨link, hlink, hcall⟩ := Option.bind_eq_some_iff.mp hcall
    obtain ⟨hcmds, hcall⟩ := Option.ite_none_right_eq_some.mp hcall
    cases hdec : decode (.wrap link.held 0 link.held.length) with
    | none err b => simp [hdec] at hcall
    | fault => simp [hdec] at hcall
    | frame msg b =>
      rw [hdec] at hcall
      obtain ⟨u, happ, hcall⟩ := Option.bind_eq_some_iff.mp hcall
      obtain ⟨hdirect, heq⟩ := Option.ite_none_left_eq_some.mp hcall
      cases heq
      obtain ⟨s', hs', -, hcalled⟩ :=
        @LagOk.deliver crc64 behind s h link hlink hcmds msg b hdec hsafe _ happ
      obtain ⟨call, hcalled⟩ := hcalled hdirect hstarts
      exact ⟨s', call, hs', hcalled⟩
  | _ => cases hcall

/-! ### Every run -/

/-- An instance that has just been started for the first time. -/
def Node.init (wal : Swal) (master : Option (Bytes × UInt32)) : Node :=
  { repl := { wal := wal, replMeta := ⟨0, 0⟩, slave := ⟨.invalid, false⟩, called := [] }
    master := master, link := none, cachedOffset := 0, cachedCksm := 0, replaying := none
    base := 0, entries := [], dataIdx := 0, again := [] }

theorem LagOk.init {options : SwalOptions} (h0 : 0 < options.maxFileSize)
    {malloc : Option (MallocBlock options.ringCacheSize)} {wal : Swal}
    (hopen : swalOpen .fresh options malloc = .ok wal) (master : Option (Bytes × UInt32)) :
    LagOk (.init wal master) where
  faithful := Faithful.fresh (by simpa [UInt64.lt_iff_toNat_lt] using h0) hopen
  noWrap := Nat.two_pow_pos 64
  flag := rfl
  busy := fun hne => absurd rfl hne
  synced := by
    intro hs
    cases hs
  loading := by
    intro hload
    cases hload
  replay := by
    intro r hr
    cases hr

/-- The data offset of a synced slave is in the window, and every call of `ReplayWAL` that finds it
in front of the end of the log, and no other call under way, executes a command. -/
def KeepsUp (crc64 : UInt64 → Bytes → UInt64) (behind : Swal → Run → Bytes) (s : Node) (a : Act) :
    Prop :=
  (s.state = .synced → InWindow s.repl.wal s.repl.replMeta.dataOffset) ∧
  ∀ t, s.replayCall a = some t → t.Starts →
    ∃ s' call, s.step crc64 behind a = some s' ∧ s'.repl.called = t.repl.called ++ [call]

/-- The link comes up and a snapshot of offset `0` arrives. -/
def resyncActs : List Act :=
  [.connect, .handshake .waitingPsyncReply, .handshake .waitingSnapshot, .snapshot 0 0]

/-- Two requests, twenty-eight bytes, come while the snapshot is being loaded into a slave whose log
file has sixteen. -/
def behindActs : List Act :=
  resyncActs ++ [.arrive (pingRequest.bytes ++ pingRequest.bytes), .deliver, .deliver, .loaded]

/-- One request comes while the snapshot is being loaded, and is replayed then. -/
def catchUpActs : List Act := resyncActs ++ [.arrive pingRequest.bytes, .deliver, .loaded]

end Linked
end Comms
