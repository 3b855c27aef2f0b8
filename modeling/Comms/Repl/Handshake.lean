import Comms.Command.Args
import Comms.Lib.Run
import Comms.Repl.SlaveReplay
import Comms.Repl.SnapshotTransfer

/-!
# The handshake of a slave

A slave that has connected to its master sends `AUTH`, `INFO`, `REPLCONF` and `PSYNC` one after the
other, and `HandleRedisReply` takes the reply to each as the master sent it. This module follows one
slave over any replies and any number of connections, with what can go wrong in between: a write
may fail and close the channel, `Close()` may run `ChannelClosed` at once or leave it to the next
writable event, and `Cleanup` of the decoder hands on the replies that are still in its buffer
before `Slave::ChannelClosed` runs.

* `Slave.step` — what happens to the slave; a step may end in a `Fault`;
* `ReplySafe` — the shapes a reply must have for the code that parses it;
* `Slave.step_faultless_iff` — when a step ends in a fault;
* `handshake_faultless` — the run.

A handler that closes the channel in its middle is interrupted: `Mode.cleanup` keeps what it still
has to do (`After`), and `ChannelClosed` goes on with it. `AUTH` is the one state in which the
handler does not return after `Close()`: it goes on to `InfoMaster`, which writes to `m_client`.
-/

namespace Comms
namespace Handshake

open Dump (DecoderType)

/-! ### Versions -/

/-- `parser >> result[i]` on an `istringstream`: what is stored, and what is left if the stream is
still good. -/
def readInt (s : Bytes) : ℤ × Option Bytes :=
  let (value, n) := strtol s
  if n = 0 then (0, none)
  else if 2147483647 < value then (2147483647, none)
  else if value < -2147483648 then (-2147483648, none)
  else (value, some (s.drop n))

/-- `parse_version`, from index `idx` on. A stream that has failed stores nothing: what was on the
stack stays. -/
def parseVersion (stack : ℕ → ℤ) : ℕ → ℕ → Option Bytes → List ℤ
  | 0, _, _ => []
  | n + 1, idx, none => stack idx :: parseVersion stack n (idx + 1) none
  | n + 1, idx, some s =>
    let (value, rest) := readInt s
    -- `get()` skips the period, and fails at the end
    value :: parseVersion stack n (idx + 1)
      (rest.bind fun rest => if rest = [] then none else some (rest.drop 1))

/-- The loop of `compare_version`. -/
def compareParsed : List ℤ → List ℤ → ℤ
  | a :: as, b :: bs => if a ≠ b then a - b else compareParsed as bs
  | _, _ => 0

/-- `compare_version<3>`. -/
def compareVersion (stack : ℕ → ℤ) (a b : Bytes) : ℤ :=
  compareParsed (parseVersion stack 3 0 (some a)) (parseVersion stack 3 0 (some b))

/-! ### Texts -/

/-- `str.find(pat, start)`. -/
def find (str pat : Bytes) (start : ℕ) : Option ℕ :=
  ((List.range (str.length + 1 - start)).find? fun i => pat.isPrefixOf (str.drop (start + i))).map
    (start + ·)

/-- `split_string(str, " ")`: the words between the blanks, without empty ones. -/
def splitString (str : Bytes) : List Bytes := (str.splitOnP (· = 32)).filter (· ≠ [])

/-- `trim_string`. -/
def trimString (str : Bytes) : Bytes :=
  let isSet : UInt8 → Bool := fun c => c = 32 ∨ c = 9 ∨ c = 13 ∨ c = 10
  let front := str.dropWhile isSet
  if front = [] then [] else front.reverse.dropWhile isSet |>.reverse

/-- `"redis_version:"`. -/
def redisVerKey : Bytes := [114, 101, 100, 105, 115, 95, 118, 101, 114, 115, 105, 111, 110, 58]

/-- `"comms_version:"`. -/
def commsVerKey : Bytes := [99, 111, 109, 109, 115, 95, 118, 101, 114, 115, 105, 111, 110, 58]

/-- `"2.7.0"`. -/
def psyncVersion : Bytes := [50, 46, 55, 46, 48]

/-- `"fullresync"`; case does not matter. -/
def fullresyncWord : Bytes := [102, 117, 108, 108, 114, 101, 115, 121, 110, 99]

/-- `"continue"`. -/
def continueWord : Bytes := [99, 111, 110, 116, 105, 110, 117, 101]

/-! ### The slave -/

/-- The types of a `RedisReply` that can be decoded. -/
inductive ReplyType
  | nil | string | error | integer | status | array
deriving DecidableEq, Repr

/-- `RedisReply`, as far as the handshake looks at it. -/
structure Reply where
  type : ReplyType
  str : Bytes
deriving DecidableEq, Repr

/-- What the slave sends. The numbers are those of the replication service when it is sent. -/
inductive Request
  | auth
  | info
  | replconf
  | psync (withCksm : Bool)
  | sync
deriving DecidableEq, Repr

/-- What becomes of a write to an open channel. -/
inductive WriteResult
  | sent
  /-- The output buffer takes it. -/
  | buffered
  /-- The output buffer is full, or there is none. -/
  | refused
  /-- An I/O error, which closes the channel. -/
  | failed
deriving DecidableEq, Repr

/-- `SlaveStatus`, less the snapshot. -/
structure Status where
  serverIsRedis : Bool
  serverSupportPsync : Bool
  state : SlaveState
  cachedMasterRunid : Bytes
  cachedMasterReplOffset : ℤ
  cachedMasterReplCksm : ℕ
deriving DecidableEq, Repr

/-- `SlaveStatus::Clear`. -/
def Status.clear : Status := ⟨false, false, .invalid, [], 0, 0⟩

/-- The channel to the master: whether it has a file descriptor, `m_outputBuffer.Readable()` and
`m_close_after_write`. -/
structure Channel where
  fd : Bool
  outputReadable : Bool
  closeAfterWrite : Bool
deriving DecidableEq, Repr

/-- What a handler does behind its last write. -/
inductive Next
  | stay
  | setState (state : SlaveState)
  /-- `SLAVE_STATE_WAITING_SNAPSHOT`, and `SwitchToDumpFileDecoder`. -/
  | waitSnapshot
deriving DecidableEq, Repr

/-- What a handler does behind a call that may have closed the channel. -/
inductive After
  | next (next : Next)
  /-- `InfoMaster()`, with what becomes of its write. -/
  | infoMaster (write : WriteResult)
deriving DecidableEq, Repr

/-- What runs: the event loop, the loop of `CallDecode`, or `Cleanup` in the middle of a handler;
`loop` tells whether that handler was called by `CallDecode`. -/
inductive Mode
  | idle
  | decoding
  | cleanup (after : After) (loop : Bool)
deriving DecidableEq, Repr

/-- The slave. -/
structure Slave where
  /-- `m_client != NULL`. -/
  client : Bool
  channel : Channel
  mode : Mode
  decoderType : DecoderType
  status : Status
  sent : List Request
deriving DecidableEq, Repr

/-- What must not happen. -/
inductive Fault
  /-- `m_client->` with `m_client == NULL`. -/
  | nullClient
  /-- `ss[i]` past the words. -/
  | wordIndex
  /-- `substr(pos, n)` with `pos` past the end. -/
  | substr
deriving DecidableEq, Repr

/-- What happens to a slave. -/
inductive Act
  /-- `ConnectMaster`. -/
  | connectMaster
  /-- `ChannelConnected`, with what becomes of its write. -/
  | channelConnected (write : WriteResult)
  /-- A read, which starts the loop of `CallDecode`. -/
  | read
  /-- A reply that is decoded in this loop or by `Cleanup`. -/
  | reply (reply : Reply) (write : WriteResult)
  /-- The loop ends. -/
  | readDone
  /-- The connection is lost. -/
  | lost
  /-- `Close()` from the routine. -/
  | timeout
  /-- The channel is writable; `drained` tells whether all of the output buffer was written. -/
  | writable (drained : Bool)
  /-- `Cleanup` is over and `Slave::ChannelClosed` runs. -/
  | channelClosed
deriving DecidableEq, Repr

namespace Next

/-- What is left to do. -/
def apply (s : Slave) : Next → Slave
  | .stay => s
  | .setState state => { s with status := { s.status with state := state } }
  | .waitSnapshot =>
    { s with status := { s.status with state := .waitingSnapshot }, decoderType := .dump }

end Next

namespace Slave

/-- A slave that has not connected yet. -/
def init : Slave :=
  { client := false, channel := ⟨false, false, false⟩, mode := .idle, decoderType := .command
    status := .clear, sent := [] }

/-- `DoClose(false)` of an open channel, up to the callbacks. -/
def doClose (s : Slave) (after : After) : Slave :=
  { s with
    channel := { s.channel with fd := false }
    mode := .cleanup after (s.mode = .decoding) }

/-- `Write` of a request, and what the handler does behind it. -/
def write (s : Slave) (request : Request) (result : WriteResult) (next : Next) : Slave :=
  if s.channel.fd then
    match result with
    | .sent => next.apply { s with sent := s.sent ++ [request] }
    | .buffered =>
      next.apply { s with
        sent := s.sent ++ [request], channel := { s.channel with outputReadable := true } }
    | .refused => next.apply s
    | .failed => s.doClose (.next next)
  else next.apply s

/-- `InfoMaster`. -/
def infoMaster (s : Slave) (result : WriteResult) : Except Fault Slave :=
  if s.client then .ok (s.write .info result (.setState .waitingInfoReply)) else .error .nullClient

/-- A handler goes on. -/
def goOn (s : Slave) : After → Except Fault Slave
  | .next next => .ok (next.apply s)
  | .infoMaster result => s.infoMaster result

/-- `Channel::Close()`. Nothing more happens to a channel that is closed. -/
def close (s : Slave) (after : After) : Except Fault Slave :=
  if s.channel.fd then
    if s.channel.outputReadable then
      goOn { s with channel := { s.channel with closeAfterWrite := true } } after
    else .ok (s.doClose after)
  else s.goOn after

/-- `ConnectMaster`. -/
def connectMaster (s : Slave) : Slave :=
  { s with
    client := true, channel := ⟨true, false, false⟩, decoderType := .reply
    status := { s.status with state := .connecting } }

/-- `ChannelConnected`; `masterauth` tells whether the option is set. -/
def channelConnected (masterauth : Bool) (s : Slave) (result : WriteResult) : Except Fault Slave :=
  if masterauth then .ok (s.write .auth result (.setState .waitingAuthReply))
  else s.infoMaster result

/-- `Slave::ChannelClosed`, and the handler that was interrupted. -/
def channelClosed (s : Slave) (after : After) (loop : Bool) : Except Fault Slave :=
  goOn { s with
    client := false, status := .clear, mode := if loop then .decoding else .idle } after

/-- `OnWrite`. -/
def writable (s : Slave) (drained : Bool) : Except Fault Slave :=
  let s := { s with
    channel := { s.channel with outputReadable := s.channel.outputReadable && !drained } }
  if s.channel.closeAfterWrite then s.close (.next .stay) else .ok s

section Reply

variable (stack : ℕ → ℤ)

/-- The version in a reply to `INFO`. A `start` of `npos` wraps around to position `13`. -/
def redisVersion (str : Bytes) : Except Fault Bytes :=
  match find str redisVerKey 0 with
  | some start => .ok (trimString ((str.drop (start + 14)).takeWhile (· ≠ 10)))
  | none => if str.length < 13 then .error .substr else .ok (trimString (str.drop 13))

/-- What the reply to `INFO` tells about the master. -/
def setServer (s : Slave) (isRedis supportPsync : Bool) : Slave :=
  { s with status := { s.status with serverIsRedis := isRedis, serverSupportPsync := supportPsync } }

/-- The state `SLAVE_STATE_WAITING_INFO_REPLY`. -/
def handleInfoReply (s : Slave) (reply : Reply) (result : WriteResult) : Except Fault Slave :=
  if reply.type = .error then s.close (.next .stay)
  else if find reply.str commsVerKey 0 = none then
    match redisVersion reply.str with
    | .ok v =>
      .ok ((s.setServer true (decide (0 ≤ compareVersion stack v psyncVersion))).write
        .replconf result (.setState .waitingReplconfReply))
    | .error fault => .error fault
  else .ok ((s.setServer false true).write .replconf result (.setState .waitingReplconfReply))

/-- The state `SLAVE_STATE_WAITING_REPLCONF_REPLY`. -/
def handleReplconfReply (s : Slave) (reply : Reply) (result : WriteResult) : Except Fault Slave :=
  if reply.type = .error then s.close (.next .stay)
  else if s.status.serverSupportPsync then
    .ok (s.write (.psync !s.status.serverIsRedis) result (.setState .waitingPsyncReply))
  else .ok (s.write .sync result .waitSnapshot)

/-- The cached position of the master. -/
def setCached (s : Slave) (runid : Bytes) (offset : ℤ) : Slave :=
  { s with status := { s.status with cachedMasterRunid := runid, cachedMasterReplOffset := offset } }

def setCachedCksm (s : Slave) (cksm : ℕ) : Slave :=
  { s with status := { s.status with cachedMasterReplCksm := cksm } }

/-- The branch `FULLRESYNC`. -/
def handleFullresync (s : Slave) (ss : List Bytes) : Except Fault Slave :=
  match ss[1]?, ss[2]? with
  | some runid, some word =>
    match stringToInt64 word with
    | none => s.close (.next .stay)
    | some offset =>
      match ss[3]? with
      | none => .ok (Next.waitSnapshot.apply (s.setCached runid offset))
      | some word =>
        match stringToUInt64 word with
        | none => (s.setCached runid offset).close (.next .stay)
        | some cksm => .ok (Next.waitSnapshot.apply ((s.setCached runid offset).setCachedCksm cksm))
  | _, _ => .error .wordIndex

/-- The state `SLAVE_STATE_WAITING_PSYNC_REPLY`. -/
def handlePsyncReply (s : Slave) (reply : Reply) : Except Fault Slave :=
  if reply.type ≠ .status then s.close (.next .stay)
  else
    let ss := splitString reply.str
    match ss[0]? with
    | none => .error .wordIndex
    | some word =>
      if eqNoCase word fullresyncWord then s.handleFullresync ss
      else if eqNoCase word continueWord then
        .ok { s with decoderType := .command, status := { s.status with state := .synced } }
      else s.close (.next .stay)

/-- `HandleRedisReply`. `Slave::Close()` does nothing without a client. -/
def handleRedisReply (s : Slave) (reply : Reply) (result : WriteResult) : Except Fault Slave :=
  match s.status.state with
  | .waitingAuthReply =>
    if reply.type = .error then
      if s.client then s.close (.infoMaster result) else s.infoMaster result
    else s.infoMaster result
  | .waitingInfoReply => s.handleInfoReply stack reply result
  | .waitingReplconfReply => s.handleReplconfReply reply result
  | .waitingPsyncReply => s.handlePsyncReply reply
  | _ => if s.client then s.close (.next .stay) else .ok s

/-- Replies are being handed on. -/
def Decoding (s : Slave) : Prop :=
  s.decoderType = .reply ∧ s.mode ≠ .idle

instance (s : Slave) : Decidable s.Decoding := inferInstanceAs (Decidable (_ ∧ _))

/-- One step; `none` when it is not possible. -/
def step (masterauth : Bool) (s : Slave) : Act → Option (Except Fault Slave)
  | .connectMaster =>
    if s.mode = .idle ∧ s.client = false then some (.ok s.connectMaster) else none
  | .channelConnected result =>
    if s.mode = .idle ∧ s.channel.fd ∧ s.status.state = .connecting then
      some (s.channelConnected masterauth result)
    else none
  | .read => if s.mode = .idle ∧ s.channel.fd then some (.ok { s with mode := .decoding }) else none
  | .reply reply result => if s.Decoding then some (s.handleRedisReply stack reply result) else none
  | .readDone => if s.mode = .decoding then some (.ok { s with mode := .idle }) else none
  | .lost => if s.mode = .idle ∧ s.channel.fd then some (.ok (s.doClose (.next .stay))) else none
  | .timeout => if s.mode = .idle ∧ s.client then some (s.close (.next .stay)) else none
  | .writable drained => if s.mode = .idle ∧ s.channel.fd then some (s.writable drained) else none
  | .channelClosed =>
    match s.mode with
    | .cleanup after loop => some (s.channelClosed after loop)
    | _ => none

/-- A slave that has faulted does not go on. -/
def stepResult (masterauth : Bool) : Except Fault Slave → Act → Option (Except Fault Slave)
  | .ok s, a => s.step stack masterauth a
  | .error _, _ => none

end Reply

end Slave

/-! ### Replies -/

/-- The reply has the shape that its handler takes for granted. -/
def ReplySafe (state : SlaveState) (reply : Reply) : Prop :=
  match state with
  | .waitingInfoReply => reply.type ≠ .error → find reply.str commsVerKey 0 = none →
      find reply.str redisVerKey 0 = none → 13 ≤ reply.str.length
  | .waitingPsyncReply => reply.type = .status → splitString reply.str ≠ [] ∧
      (eqNoCase ((splitString reply.str).headD []) fullresyncWord → 3 ≤ (splitString reply.str).length)
  | _ => True

/-- The words of a reply to `PSYNC` that the slave can go on with. -/
def PsyncAccepted (ss : List Bytes) : Prop :=
  (eqNoCase (ss.headD []) fullresyncWord = true ∧ ((ss[2]?).bind stringToInt64).isSome ∧
    ∀ word ∈ ss[3]?, (stringToUInt64 word).isSome) ∨
  (eqNoCase (ss.headD []) fullresyncWord = false ∧ eqNoCase (ss.headD []) continueWord = true)

/-- A reply that the slave cannot go on with, in the state it comes in. -/
def Unacceptable (state : SlaveState) (reply : Reply) : Prop :=
  match state with
  | .waitingAuthReply | .waitingInfoReply | .waitingReplconfReply => reply.type = .error
  | .waitingPsyncReply => ¬ (reply.type = .status ∧ PsyncAccepted (splitString reply.str))
  | _ => True

instance (state : SlaveState) (reply : Reply) : Decidable (ReplySafe state reply) := by
  cases state <;> unfold ReplySafe <;> infer_instance

namespace Slave

variable {stack : ℕ → ℤ} {masterauth : Bool} {s s' : Slave}

/-- **When a step is safe.** The reply has the shape its handler takes for granted; and a slave whose
`AUTH` is refused has something left to write, so that `Close()` does not close at once. -/
def Safe (s : Slave) : Act → Prop
  | .reply reply _ => ReplySafe s.status.state reply ∧
      (s.status.state = .waitingAuthReply → reply.type = .error → s.channel.fd = true →
        s.channel.outputReadable = true)
  | _ => True

instance (s : Slave) (a : Act) : Decidable (s.Safe a) := by
  cases a <;> unfold Safe <;> infer_instance

/-- The channel is closed, or will be when its output is written. -/
def Leaving (s : Slave) : Prop := s.channel.fd = false ∨ s.channel.closeAfterWrite = true

/-- The handler that was interrupted goes on with `InfoMaster`. -/
def Doomed (s : Slave) : Prop := ∃ result loop, s.mode = .cleanup (.infoMaster result) loop

/-- What holds between the steps. -/
structure Ok (s : Slave) : Prop where
  attached : (∀ after loop, s.mode ≠ .cleanup after loop) → s.client = s.channel.fd
  cleanup : ∀ after loop, s.mode = .cleanup after loop → s.client = true ∧ s.channel.fd = false ∧
    ∃ next, after = .next next ∧ (loop = true → next ≠ .setState .waitingAuthReply)
  auth : s.mode ≠ .idle → s.status.state = .waitingAuthReply → s.client = true

theorem Ok.init : Slave.init.Ok where
  attached := fun _ => rfl
  cleanup := fun _ _ h => by cases h
  auth := fun h => absurd rfl h

/-! ### What the operations keep -/

@[simp] theorem channel_apply (next : Next) (s : Slave) : (next.apply s).channel = s.channel := by
  cases next <;> rfl

@[simp] theorem mode_apply (next : Next) (s : Slave) : (next.apply s).mode = s.mode := by
  cases next <;> rfl

@[simp] theorem client_apply (next : Next) (s : Slave) : (next.apply s).client = s.client := by
  cases next <;> rfl

/-- The status says nothing about the channel. -/
theorem Ok.congr (h : s.Ok) (hclient : s'.client = s.client) (hfd : s'.channel.fd = s.channel.fd)
    (hmode : s'.mode = s.mode)
    (hauth : s.mode ≠ .idle → s'.status.state = .waitingAuthReply → s.client = true) : s'.Ok where
  attached := by
    rw [hclient, hfd, hmode]
    exact h.attached
  cleanup := by
    rw [hclient, hfd, hmode]
    exact h.cleanup
  auth := by
    rw [hclient, hmode]
    exact hauth

theorem Ok.apply (h : s.Ok) {next : Next}
    (hnext : s.mode ≠ .idle → next ≠ .setState .waitingAuthReply) : (next.apply s).Ok := by
  refine h.congr (client_apply next s) (by rw [channel_apply]) (mode_apply next s) fun hmode hauth => ?_
  cases next with
  | stay => exact h.auth hmode hauth
  | setState state =>
    obtain rfl : state = .waitingAuthReply := hauth
    exact absurd rfl (hnext hmode)
  | waitSnapshot => cases hauth

/-- An open channel is that of the client. -/
theorem Ok.open_cases (h : s.Ok) (hfd : s.channel.fd = true) :
    s.client = true ∧ ∀ after loop, s.mode ≠ .cleanup after loop := by
  have hno : ∀ after loop, s.mode ≠ .cleanup after loop := by
    intro after loop hmode
    rw [(h.cleanup after loop hmode).2.1] at hfd
    cases hfd
  exact ⟨(h.attached hno).trans hfd, hno⟩

theorem Ok.doClose (h : s.Ok) (hfd : s.channel.fd = true) {next : Next}
    (hnext : s.mode ≠ .idle → next ≠ .setState .waitingAuthReply) : (s.doClose (.next next)).Ok where
  attached := fun hno => absurd rfl (hno _ _)
  cleanup := by
    intro after loop hmode
    obtain ⟨rfl, rfl⟩ := Mode.cleanup.inj hmode
    refine ⟨(h.open_cases hfd).1, rfl, next, rfl, fun hloop => hnext fun hidle => ?_⟩
    rw [hidle] at hloop
    cases hloop
  auth := fun _ _ => (h.open_cases hfd).1

theorem Ok.write (h : s.Ok) (request : Request) (result : WriteResult) {next : Next}
    (hnext : s.mode ≠ .idle → next ≠ .setState .waitingAuthReply) :
    (s.write request result next).Ok := by
  unfold Slave.write
  split
  · next hfd =>
    cases result with
    | sent =>
      have hsent : Ok { s with sent := s.sent ++ [request] } := h.congr rfl rfl rfl h.auth
      exact hsent.apply hnext
    | buffered =>
      have hsent : Ok { s with
          sent := s.sent ++ [request], channel := { s.channel with outputReadable := true } } :=
        h.congr rfl rfl rfl h.auth
      exact hsent.apply hnext
    | refused => exact h.apply hnext
    | failed => exact h.doClose hfd hnext
  · exact h.apply hnext

theorem Ok.infoMaster (h : s.Ok) (hclient : s.client = true) (result : WriteResult) :
    ∃ s', s.infoMaster result = .ok s' ∧ s'.Ok := by
  unfold Slave.infoMaster
  rw [if_pos hclient]
  exact ⟨_, rfl, h.write .info result fun _ => by simp⟩

/-- `Close()` at the end of a handler. -/
theorem Ok.close (h : s.Ok) : ∃ s', s.close (.next .stay) = .ok s' ∧ s'.Ok := by
  unfold Slave.close
  split
  · next hfd =>
    split
    · exact ⟨_, rfl, h.congr rfl rfl rfl h.auth⟩
    · exact ⟨_, rfl, h.doClose hfd fun _ => by simp⟩
  · exact ⟨_, rfl, h⟩

/-! ### Handling a reply -/

/-- How a handler ends: well when `P` holds of its reply, and with a fault when not. -/
inductive Ends (P : Prop) (r : Except Fault Slave) : Prop
  | fine (hP : P) (s' : Slave) (heq : r = .ok s') (hok : s'.Ok)
  | fault (hP : ¬ P) (fault : Fault) (heq : r = .error fault)

theorem Ends.iff {P Q : Prop} {r : Except Fault Slave} (h : Ends P r) (hPQ : P ↔ Q) : Ends Q r := by
  cases h with
  | fine hP s' heq hok => exact .fine (hPQ.mp hP) s' heq hok
  | fault hP fault heq => exact .fault (fun hQ => hP (hPQ.mpr hQ)) fault heq

theorem Ends.of_ok {P : Prop} {r : Except Fault Slave} (hP : P) (h : ∃ s', r = .ok s' ∧ s'.Ok) :
    Ends P r := by
  obtain ⟨s', heq, hok⟩ := h
  exact .fine hP s' heq hok

theorem Ok.not_doomed (h : s.Ok) : ¬ s.Doomed := by
  rintro ⟨result, loop, hmode⟩
  obtain ⟨-, -, next, hnext, -⟩ := h.cleanup _ _ hmode
  cases hnext

/-- Only a missing version in a short text is out of range. -/
theorem redisVersion_cases (str : Bytes) :
    ((find str redisVerKey 0 = none → 13 ≤ str.length) ∧ ∃ v, redisVersion str = .ok v) ∨
      (find str redisVerKey 0 = none ∧ str.length < 13 ∧ redisVersion str = .error .substr) := by
  unfold redisVersion
  cases find str redisVerKey 0 with
  | some start => exact .inl ⟨fun h => (by cases h), _, rfl⟩
  | none =>
    dsimp only
    by_cases hlt : str.length < 13
    · exact .inr ⟨rfl, hlt, if_pos hlt⟩
    · exact .inl ⟨fun _ => not_lt.mp hlt, _, if_neg hlt⟩

theorem Ok.handleInfoReply (h : s.Ok) (reply : Reply) (result : WriteResult) :
    Ends (ReplySafe .waitingInfoReply reply) (s.handleInfoReply stack reply result) := by
  change Ends (reply.type ≠ .error → find reply.str commsVerKey 0 = none →
    find reply.str redisVerKey 0 = none → 13 ≤ reply.str.length) _
  have hserver : ∀ isRedis supportPsync, (s.setServer isRedis supportPsync).Ok := fun _ _ =>
    h.congr rfl rfl rfl h.auth
  unfold Slave.handleInfoReply
  by_cases herr : reply.type = .error
  · rw [if_pos herr]
    exact .of_ok (fun hno => absurd herr hno) h.close
  rw [if_neg herr]
  by_cases hcomms : find reply.str commsVerKey 0 = none
  swap
  · rw [if_neg hcomms]
    exact .fine (fun _ hnone => absurd hnone hcomms) _ rfl
      ((hserver _ _).write _ result fun _ => by simp)
  rw [if_pos hcomms]
  rcases redisVersion_cases reply.str with ⟨hsize, v, hv⟩ | ⟨hnone, hlt, hv⟩
  · rw [hv]
    exact .fine (fun _ _ => hsize) _ rfl ((hserver _ _).write _ result fun _ => by simp)
  · rw [hv]
    exact .fault (fun hsafe => absurd (hsafe herr hcomms hnone) (not_le.mpr hlt)) _ rfl

theorem Ok.handleReplconfReply (h : s.Ok) (reply : Reply) (result : WriteResult) :
    ∃ s', s.handleReplconfReply reply result = .ok s' ∧ s'.Ok := by
  unfold Slave.handleReplconfReply
  split
  · exact h.close
  split
  · exact ⟨_, rfl, h.write _ result fun _ => by simp⟩
  · exact ⟨_, rfl, h.write _ result fun _ => by simp⟩

theorem Ok.handleFullresync (h : s.Ok) (ss : List Bytes) :
    Ends (3 ≤ ss.length) (s.handleFullresync ss) := by
  unfold Slave.handleFullresync
  by_cases hlen : 3 ≤ ss.length
  swap
  · rw [List.getElem?_eq_none (show ss.length ≤ 2 by omega)]
    cases ss[1]? <;> exact .fault hlen _ rfl
  refine .of_ok hlen ?_
  rw [List.getElem?_eq_getElem (show 1 < ss.length by omega),
    List.getElem?_eq_getElem (show 2 < ss.length by omega)]
  dsimp only
  cases stringToInt64 ss[2] with
  | none => exact h.close
  | some offset =>
    have hcached : (s.setCached ss[1] offset).Ok := h.congr rfl rfl rfl h.auth
    cases ss[3]? with
    | none => exact ⟨_, rfl, @Ok.apply _ hcached .waitSnapshot fun _ => by simp⟩
    | some word =>
      dsimp only
      cases stringToUInt64 word with
      | none => exact hcached.close
      | some cksm =>
        have hcksm : ((s.setCached ss[1] offset).setCachedCksm cksm).Ok :=
          hcached.congr rfl rfl rfl hcached.auth
        exact ⟨_, rfl, @Ok.apply _ hcksm .waitSnapshot fun _ => by simp⟩

theorem Ok.handlePsyncReply (h : s.Ok) (reply : Reply) :
    Ends (ReplySafe .waitingPsyncReply reply) (s.handlePsyncReply reply) := by
  change Ends (reply.type = .status → splitString reply.str ≠ [] ∧
    (eqNoCase ((splitString reply.str).headD []) fullresyncWord →
      3 ≤ (splitString reply.str).length)) _
  unfold Slave.handlePsyncReply
  by_cases htype : reply.type = .status
  swap
  · rw [if_pos htype]
    exact .of_ok (fun hs => absurd hs htype) h.close
  rw [if_neg (not_not.mpr htype), forall_prop_of_true htype]
  cases hss : splitString reply.str with
  | nil => exact .fault (fun hsafe => hsafe.1 rfl) _ rfl
  | cons word words =>
    dsimp only [List.getElem?_cons_zero, List.headD_cons]
    by_cases hfull : eqNoCase word fullresyncWord = true
    · rw [if_pos hfull, forall_prop_of_true hfull]
      exact (h.handleFullresync (word :: words)).iff
        ⟨fun hlen => ⟨List.cons_ne_nil _ _, hlen⟩, fun hsafe => hsafe.2⟩
    rw [if_neg hfull]
    refine .of_ok ⟨List.cons_ne_nil _ _, fun hs => absurd hs hfull⟩ ?_
    split
    · exact ⟨_, rfl, h.congr rfl rfl rfl fun _ hs => by cases hs⟩
    · exact h.close

/-- A refused `AUTH` that closes the channel at once leaves `InfoMaster` to be called without a
client; any other reply to `AUTH` is handled. -/
theorem Ok.handleAuthReply (h : s.Ok) (hmode : s.mode ≠ .idle)
    (hstate : s.status.state = .waitingAuthReply) (reply : Reply) (result : WriteResult) :
    ((reply.type = .error → s.channel.fd = true → s.channel.outputReadable = true) ∧
      ∃ s', s.handleRedisReply stack reply result = .ok s' ∧ s'.Ok) ∨
    (¬ (reply.type = .error → s.channel.fd = true → s.channel.outputReadable = true) ∧
      ∃ s', s.handleRedisReply stack reply result = .ok s' ∧ s'.Doomed) := by
  have hclient := h.auth hmode hstate
  have hinfo := h.infoMaster hclient result
  unfold Slave.handleRedisReply
  rw [hstate]
  dsimp only
  by_cases herr : reply.type = .error
  swap
  · rw [if_neg herr]
    exact .inl ⟨fun hs => absurd hs herr, hinfo⟩
  rw [if_pos herr, if_pos hclient, forall_prop_of_true herr]
  unfold Slave.close
  by_cases hfd : s.channel.fd = true
  swap
  · rw [if_neg hfd]
    exact .inl ⟨fun hs => absurd hs hfd, hinfo⟩
  rw [if_pos hfd, forall_prop_of_true hfd]
  by_cases hout : s.channel.outputReadable = true
  · rw [if_pos hout]
    have hlater : Ok { s with channel := { s.channel with closeAfterWrite := true } } :=
      h.congr rfl rfl rfl h.auth
    exact .inl ⟨hout, hlater.infoMaster hclient result⟩
  · rw [if_neg hout]
    exact .inr ⟨hout, _, rfl, result, decide (s.mode = .decoding), rfl⟩

/-- **A reply.** A safe one is handled; one that is not safe faults, now or when the close callbacks
have run. -/
theorem Ok.handleRedisReply (h : s.Ok) (hmode : s.mode ≠ .idle) (reply : Reply)
    (result : WriteResult) :
    (s.Safe (.reply reply result) ∧ ∃ s', s.handleRedisReply stack reply result = .ok s' ∧ s'.Ok) ∨
    (¬ s.Safe (.reply reply result) ∧
      ∀ s', s.handleRedisReply stack reply result = .ok s' → s'.Doomed) := by
  by_cases hauth : s.status.state = .waitingAuthReply
  · -- the reply to `AUTH` may be unsafe for what is still to be written
    have hsafe : s.Safe (.reply reply result) ↔
        (reply.type = .error → s.channel.fd = true → s.channel.outputReadable = true) := by
      unfold Safe
      rw [hauth]
      simp only [ReplySafe, true_and, forall_const]
    rw [hsafe]
    refine (h.handleAuthReply hmode hauth reply result).imp_right fun ⟨hno, t, heq, hd⟩ => ⟨hno, ?_⟩
    intro s' heq'
    obtain rfl := Except.ok.inj (heq.symm.trans heq')
    exact hd
  -- in the other states it depends on the reply alone
  have hends : Ends (ReplySafe s.status.state reply) (s.handleRedisReply stack reply result) := by
    have hdefault : ∃ s', (if s.client then s.close (.next .stay) else .ok s) = .ok s' ∧ s'.Ok := by
      split
      · exact h.close
      · exact ⟨s, rfl, h⟩
    unfold Slave.handleRedisReply
    cases hstate : s.status.state with
    | waitingAuthReply => exact absurd hstate hauth
    | waitingInfoReply => exact h.handleInfoReply reply result
    | waitingReplconfReply => exact .of_ok trivial (h.handleReplconfReply reply result)
    | waitingPsyncReply => exact h.handlePsyncReply reply
    | invalid => exact .of_ok trivial hdefault
    | connecting => exact .of_ok trivial hdefault
    | waitingSnapshot => exact .of_ok trivial hdefault
    | loadingSnapshot => exact .of_ok trivial hdefault
    | synced => exact .of_ok trivial hdefault
  have hsafe : s.Safe (.reply reply result) ↔ ReplySafe s.status.state reply :=
    and_iff_left fun hs => absurd hs hauth
  rw [hsafe]
  cases hends with
  | fine hP s' heq hok => exact .inl ⟨hP, s', heq, hok⟩
  | fault hP fault heq =>
    refine .inr ⟨hP, fun s' heq' => ?_⟩
    rw [heq] at heq'
    cases heq'

/-! ### The steps -/

/-- `Slave::ChannelClosed`, and what the interrupted handler still does. -/
theorem Ok.channelClosed (h : s.Ok) {after : After} {loop : Bool} (hmode : s.mode = .cleanup after loop) :
    ∃ s', s.channelClosed after loop = .ok s' ∧ s'.Ok := by
  obtain ⟨-, hfd, next, rfl, hnext⟩ := h.cleanup after loop hmode
  refine ⟨_, rfl, Ok.apply ⟨fun _ => hfd.symm, fun after' loop' hmode' => ?_, fun _ hs => (by cases hs)⟩ ?_⟩
  · change (if loop then Mode.decoding else .idle) = _ at hmode'
    split at hmode' <;> cases hmode'
  · intro hne
    refine hnext ?_
    by_contra hloop
    exact hne (if_neg hloop)

theorem Ok.channelConnected (h : s.Ok) (hmode : s.mode = .idle) (hfd : s.channel.fd = true)
    (result : WriteResult) : ∃ s', s.channelConnected masterauth result = .ok s' ∧ s'.Ok := by
  unfold Slave.channelConnected
  split
  · exact ⟨_, rfl, h.write _ result fun hne => absurd hmode hne⟩
  · exact h.infoMaster (h.open_cases hfd).1 result

theorem Ok.writable (h : s.Ok) (drained : Bool) : ∃ s', s.writable drained = .ok s' ∧ s'.Ok := by
  unfold Slave.writable
  dsimp only
  have hok : Ok { s with
      channel := { s.channel with outputReadable := s.channel.outputReadable && !drained } } :=
    h.congr rfl rfl rfl h.auth
  split
  · exact hok.close
  · exact ⟨_, rfl, hok⟩

/-- **One step.** A safe step does not fault, and keeps the invariant. -/
theorem Ok.step (h : s.Ok) {a : Act} (hsafe : s.Safe a) {r : Except Fault Slave}
    (hstep : s.step stack masterauth a = some r) : ∃ s', r = .ok s' ∧ s'.Ok := by
  cases a with
  | connectMaster =>
    dsimp only [Slave.step] at hstep
    split at hstep
    · next hg =>
      obtain rfl := Option.some.inj hstep
      -- client and channel are new, and the loop is not in a callback
      refine ⟨_, rfl, fun _ => rfl, fun after loop hmode => ?_, fun hne => absurd hg.1 hne⟩
      change s.mode = _ at hmode
      rw [hg.1] at hmode
      cases hmode
    · cases hstep
  | channelConnected result =>
    dsimp only [Slave.step] at hstep
    split at hstep
    · next hg =>
      obtain rfl := Option.some.inj hstep
      exact h.channelConnected hg.1 hg.2.1 result
    · cases hstep
  | read =>
    dsimp only [Slave.step] at hstep
    split at hstep
    · next hg =>
      obtain rfl := Option.some.inj hstep
      refine ⟨_, rfl, fun _ => h.attached ?_, fun after loop hmode => (by cases hmode),
        fun _ _ => (h.open_cases hg.2).1⟩
      exact (h.open_cases hg.2).2
    · cases hstep
  | reply reply result =>
    dsimp only [Slave.step] at hstep
    split at hstep
    · next hg =>
      obtain rfl := Option.some.inj hstep
      -- a safe reply is handled
      rcases h.handleRedisReply hg.2 reply result with ⟨-, hok⟩ | ⟨hno, -⟩
      · exact hok
      · exact absurd hsafe hno
    · cases hstep
  | readDone =>
    dsimp only [Slave.step] at hstep
    split at hstep
    · next hg =>
      obtain rfl := Option.some.inj hstep
      -- a loop that was in `Cleanup` does not end like this
      have hno : ∀ after loop, s.mode ≠ .cleanup after loop := by
        intro after loop hmode
        rw [hg] at hmode
        cases hmode
      exact ⟨_, rfl, fun _ => h.attached hno, fun after loop hmode => (by cases hmode),
        fun hne => absurd rfl hne⟩
    · cases hstep
  | lost =>
    dsimp only [Slave.step] at hstep
    split at hstep
    · next hg =>
      obtain rfl := Option.some.inj hstep
      exact ⟨_, rfl, h.doClose hg.2 fun _ => by simp⟩
    · cases hstep
  | timeout =>
    dsimp only [Slave.step] at hstep
    split at hstep
    · obtain rfl := Option.some.inj hstep
      exact h.close
    · cases hstep
  | writable drained =>
    dsimp only [Slave.step] at hstep
    split at hstep
    · obtain rfl := Option.some.inj hstep
      exact h.writable drained
    · cases hstep
  | channelClosed =>
    dsimp only [Slave.step] at hstep
    split at hstep
    · next after loop hmode =>
      obtain rfl := Option.some.inj hstep
      exact h.channelClosed hmode
    · cases hstep

/-! ### Closing for good -/

/-- A channel that is closed, or about to be, stays so. -/
structure Tends (c c' : Channel) : Prop where
  fd : c.fd = false → c'.fd = false
  closing : c.closeAfterWrite = true → c'.closeAfterWrite = true

theorem Tends.refl (c : Channel) : Tends c c := ⟨id, id⟩

theorem Tends.leaving (h : Tends s.channel s'.channel) (hs : s.Leaving) : s'.Leaving :=
  hs.imp h.fd h.closing

theorem tends_write (s : Slave) (request : Request) (result : WriteResult) (next : Next) :
    Tends s.channel (s.write request result next).channel := by
  unfold Slave.write
  split
  · next hfd =>
    cases result with
    | sent =>
      rw [channel_apply]
      exact Tends.refl _
    | buffered =>
      rw [channel_apply]
      exact ⟨id, id⟩
    | refused =>
      rw [channel_apply]
      exact Tends.refl _
    | failed => exact ⟨fun _ => rfl, id⟩
  · rw [channel_apply]
    exact Tends.refl _

theorem tends_write_setServer (s : Slave) (isRedis supportPsync : Bool) (request : Request)
    (result : WriteResult) (next : Next) :
    Tends s.channel ((s.setServer isRedis supportPsync).write request result next).channel :=
  tends_write (s.setServer isRedis supportPsync) request result next

theorem tends_goOn {after : After} (h : s.goOn after = .ok s') : Tends s.channel s'.channel := by
  cases after with
  | next next =>
    obtain rfl := Except.ok.inj h
    rw [channel_apply]
    exact Tends.refl _
  | infoMaster result =>
    change s.infoMaster result = _ at h
    unfold Slave.infoMaster at h
    split at h
    · obtain rfl := Except.ok.inj h
      exact tends_write s _ _ _
    · cases h

/-- `Close()` closes, at once or later, whatever follows. -/
theorem close_spec {after : After} (h : s.close after = .ok s') :
    Tends s.channel s'.channel ∧ s'.Leaving := by
  unfold Slave.close at h
  split at h
  · split at h
    · have ht := tends_goOn h
      exact ⟨⟨ht.fd, fun _ => ht.closing rfl⟩, ht.leaving (.inr rfl)⟩
    · obtain rfl := Except.ok.inj h
      exact ⟨⟨fun _ => rfl, id⟩, .inl rfl⟩
  · next hfd =>
    have ht := tends_goOn h
    exact ⟨ht, ht.leaving (.inl (by simpa using hfd))⟩

theorem tends_handleFullresync {ss : List Bytes} (h : s.handleFullresync ss = .ok s') :
    Tends s.channel s'.channel ∧
      (¬ (((ss[2]?).bind stringToInt64).isSome ∧ ∀ word ∈ ss[3]?, (stringToUInt64 word).isSome) →
        s'.Leaving) := by
  unfold Slave.handleFullresync at h
  split at h
  swap
  · cases h
  next runid word h1 h2 =>
  rw [h2, Option.bind_some]
  split at h
  · exact ⟨(close_spec h).1, fun _ => (close_spec h).2⟩
  next offset hoffset =>
  rw [hoffset]
  split at h
  · next h3 =>
    obtain rfl := Except.ok.inj h
    rw [channel_apply, h3]
    exact ⟨Tends.refl _, fun hno => absurd ⟨rfl, fun _ hw => by cases hw⟩ hno⟩
  next cksmWord h3 =>
  rw [h3]
  split at h
  · exact ⟨(close_spec h).1, fun _ => (close_spec h).2⟩
  next cksm hcksm =>
  obtain rfl := Except.ok.inj h
  rw [channel_apply]
  refine ⟨Tends.refl _, fun hno => absurd ⟨rfl, fun w hw => ?_⟩ hno⟩
  obtain rfl := Option.some.inj hw
  rw [hcksm]
  rfl

theorem tends_handlePsyncReply {reply : Reply} (h : s.handlePsyncReply reply = .ok s') :
    Tends s.channel s'.channel ∧ (Unacceptable .waitingPsyncReply reply → s'.Leaving) := by
  change _ ∧ (¬ (reply.type = .status ∧ PsyncAccepted (splitString reply.str)) → _)
  unfold Slave.handlePsyncReply at h
  split at h
  · exact ⟨(close_spec h).1, fun _ => (close_spec h).2⟩
  next htype =>
  rw [not_not] at htype
  rw [and_iff_right htype]
  cases hss : splitString reply.str with
  | nil =>
    rw [hss] at h
    cases h
  | cons word words =>
    rw [hss] at h
    dsimp only [List.getElem?_cons_zero] at h
    split at h
    · next hfull =>
      obtain ⟨ht, hl⟩ := tends_handleFullresync h
      exact ⟨ht, fun hno => hl fun hyes => hno (.inl ⟨hfull, hyes⟩)⟩
    next hfull =>
    split at h
    · next hcont =>
      obtain rfl := Except.ok.inj h
      exact ⟨Tends.refl _, fun hno => absurd (.inr ⟨by simpa using hfull, hcont⟩) hno⟩
    · exact ⟨(close_spec h).1, fun _ => (close_spec h).2⟩

/-- The default of the switch over the states closes the client, if there is one. -/
theorem Ok.closes_client (h : s.Ok)
    (heq : (if s.client then s.close (.next .stay) else .ok s) = .ok s') :
    Tends s.channel s'.channel ∧ s'.Leaving := by
  split at heq
  · exact close_spec heq
  · next hclient =>
    -- no client, and so no channel that is open
    obtain rfl := Except.ok.inj heq
    have hno : ∀ after loop, s.mode ≠ .cleanup after loop := fun after loop hc =>
      hclient (h.cleanup after loop hc).1
    refine ⟨Tends.refl _, .inl ?_⟩
    rw [← h.attached hno]
    simpa using hclient

/-- **Refusing a reply.** What the slave cannot go on with makes it close the channel. -/
theorem Ok.unacceptable (h : s.Ok) (hmode : s.mode ≠ .idle) {reply : Reply} {result : WriteResult}
    (hstep : s.handleRedisReply stack reply result = .ok s') :
    Tends s.channel s'.channel ∧ (Unacceptable s.status.state reply → s'.Leaving) := by
  unfold Slave.handleRedisReply at hstep
  cases hstate : s.status.state with
  | waitingAuthReply =>
    rw [hstate] at hstep
    dsimp only at hstep
    split at hstep
    · -- an error closes the client, which is there while a reply is awaited
      rw [if_pos (h.auth hmode hstate)] at hstep
      exact ⟨(close_spec hstep).1, fun _ => (close_spec hstep).2⟩
    · next hno => exact ⟨@tends_goOn s s' (.infoMaster result) hstep, fun herr => absurd herr hno⟩
  | waitingInfoReply =>
    rw [hstate] at hstep
    change s.handleInfoReply stack reply result = _ at hstep
    unfold Slave.handleInfoReply at hstep
    split at hstep
    · -- an error closes; every other reply is followed by the next request
      exact ⟨(close_spec hstep).1, fun _ => (close_spec hstep).2⟩
    next hno =>
    refine ⟨?_, fun herr => absurd herr hno⟩
    split at hstep
    · split at hstep
      · obtain rfl := Except.ok.inj hstep
        exact tends_write_setServer s _ _ _ _ _
      · cases hstep
    · obtain rfl := Except.ok.inj hstep
      exact tends_write_setServer s _ _ _ _ _
  | waitingReplconfReply =>
    rw [hstate] at hstep
    change s.handleReplconfReply reply result = _ at hstep
    unfold Slave.handleReplconfReply at hstep
    split at hstep
    · -- the same for `REPLCONF`
      exact ⟨(close_spec hstep).1, fun _ => (close_spec hstep).2⟩
    next hno =>
    refine ⟨?_, fun herr => absurd herr hno⟩
    split at hstep
    · obtain rfl := Except.ok.inj hstep
      exact tends_write _ _ _ _
    · obtain rfl := Except.ok.inj hstep
      exact tends_write _ _ _ _
  | waitingPsyncReply =>
    rw [hstate] at hstep
    exact tends_handlePsyncReply hstep
  | _ =>
    rw [hstate] at hstep
    exact ⟨(h.closes_client hstep).1, fun _ => (h.closes_client hstep).2⟩

/-- **Leaving.** A slave that is leaving does so until it connects again. -/
theorem Ok.leaving (h : s.Ok) {a : Act} (hl : s.Leaving) (ha : a ≠ .connectMaster)
    (hstep : s.step stack masterauth a = some (.ok s')) : s'.Leaving := by
  refine Tends.leaving ?_ hl
  cases a with
  | connectMaster => exact absurd rfl ha
  | channelConnected result =>
    dsimp only [Slave.step] at hstep
    split at hstep
    · have heq := Option.some.inj hstep
      unfold Slave.channelConnected at heq
      split at heq
      · obtain rfl := Except.ok.inj heq
        exact tends_write s _ _ _
      · exact @tends_goOn s s' (.infoMaster result) heq
    · cases hstep
  | read =>
    dsimp only [Slave.step] at hstep
    split at hstep
    · obtain rfl := Except.ok.inj (Option.some.inj hstep)
      exact Tends.refl _
    · cases hstep
  | reply reply result =>
    dsimp only [Slave.step] at hstep
    split at hstep
    · next hg => exact (h.unacceptable hg.2 (Option.some.inj hstep)).1
    · cases hstep
  | readDone =>
    dsimp only [Slave.step] at hstep
    split at hstep
    · obtain rfl := Except.ok.inj (Option.some.inj hstep)
      exact Tends.refl _
    · cases hstep
  | lost =>
    dsimp only [Slave.step] at hstep
    split at hstep
    · obtain rfl := Except.ok.inj (Option.some.inj hstep)
      exact ⟨fun _ => rfl, id⟩
    · cases hstep
  | timeout =>
    dsimp only [Slave.step] at hstep
    split at hstep
    · exact (close_spec (Option.some.inj hstep)).1
    · cases hstep
  | writable drained =>
    dsimp only [Slave.step] at hstep
    split at hstep
    · have heq := Option.some.inj hstep
      unfold Slave.writable at heq
      dsimp only at heq
      split at heq
      · have ht := (close_spec heq).1
        exact ⟨ht.fd, ht.closing⟩
      · obtain rfl := Except.ok.inj heq
        exact ⟨id, id⟩
    · cases hstep
  | channelClosed =>
    dsimp only [Slave.step] at hstep
    split at hstep
    · have heq := Option.some.inj hstep
      unfold Slave.channelClosed at heq
      have ht := tends_goOn heq
      exact ⟨ht.fd, ht.closing⟩
    · cases hstep

/-- A slave that is leaving is disconnected, or is as soon as its output has been written. -/
theorem Ok.disconnects (h : s.Ok) (hl : s.Leaving) (hmode : s.mode = .idle) :
    s.client = false ∨ ∃ s₁ s₂, s.step stack masterauth (.writable true) = some (.ok s₁) ∧
      s₁.step stack masterauth .channelClosed = some (.ok s₂) ∧ s₂.client = false := by
  have hno : ∀ after loop, s.mode ≠ .cleanup after loop := by
    intro after loop hc
    rw [hmode] at hc
    cases hc
  by_cases hfd : s.channel.fd = true
  swap
  · left
    rw [h.attached hno]
    simpa using hfd
  right
  have hclosing : s.channel.closeAfterWrite = true := hl.resolve_left (by rw [hfd]; simp)
  have hw : s.writable true = .ok (Slave.doClose { s with
      channel := { s.channel with outputReadable := false } } (.next .stay)) := by
    unfold Slave.writable Slave.close
    simp only [hclosing, hfd, Bool.not_true, Bool.and_false, if_true, Bool.false_eq_true, if_false]
  have hstep : s.step stack masterauth (.writable true) = some (s.writable true) :=
    if_pos ⟨hmode, hfd⟩
  rw [hstep, hw]
  exact ⟨_, _, rfl, rfl, rfl⟩

end Slave

/-! ### The run -/

section Run

variable (stack : ℕ → ℤ) (masterauth : Bool)

/-- A safe step of a slave that has not faulted. -/
def SafeStep : Except Fault Slave → Act → Prop
  | .ok s, a => s.Safe a
  | .error _, _ => False

instance (r : Except Fault Slave) (a : Act) : Decidable (SafeStep r a) := by
  cases r <;> unfold SafeStep <;> infer_instance

/-- A reply the slave cannot go on with makes it leave. -/
def RefusesStep : Except Fault Slave → Act → Prop
  | .ok s, .reply reply result => Unacceptable s.status.state reply → ∀ s',
      s.step stack masterauth (.reply reply result) = some (.ok s') → s'.Leaving
  | _, _ => True

/-- A slave that leaves does not stay: see `Slave.Ok.leaving` and `Slave.Ok.disconnects`. -/
def StaysLeaving : Except Fault Slave → Act → Prop
  | .ok s, a => s.Leaving → a ≠ .connectMaster → ∀ s',
      s.step stack masterauth a = some (.ok s') → s'.Leaving
  | .error _, _ => True

/-- The invariant of a run without faults. -/
def RunOk (r : Except Fault Slave) : Prop := ∃ s, r = .ok s ∧ s.Ok

theorem RunOk.step {r r' : Except Fault Slave} {a : Act} (h : RunOk r) (hsafe : SafeStep r a)
    (hstep : Slave.stepResult stack masterauth r a = some r') : RunOk r' := by
  obtain ⟨s, rfl, hok⟩ := h
  exact hok.step hsafe hstep

/-- **The handshake.** In every run of a slave whose steps are safe, whatever a master replies and
however connections are lost, no handler faults; a reply the slave cannot go on with makes it leave,
and a slave that leaves does so until it is disconnected; and in the state reached the next reply is
handled without a fault, then or when the close callbacks have run, exactly when it is safe. -/
theorem handshake_faultless {acts : List Act}
    (hsafe : Run.Along (Slave.stepResult stack masterauth) SafeStep (.ok .init) acts)
    {r : Except Fault Slave}
    (hrun : Run.steps (Slave.stepResult stack masterauth) (.ok .init) acts = some r) :
    ∃ s, r = .ok s ∧
      Run.Along (Slave.stepResult stack masterauth) (RefusesStep stack masterauth) (.ok .init) acts ∧
      Run.Along (Slave.stepResult stack masterauth) (StaysLeaving stack masterauth) (.ok .init) acts ∧
      (s.Leaving → s.mode = .idle → s.client = false ∨
        ∃ s₁ s₂, s.step stack masterauth (.writable true) = some (.ok s₁) ∧
          s₁.step stack masterauth .channelClosed = some (.ok s₂) ∧ s₂.client = false) ∧
      ∀ reply result, s.Decoding →
        ((∃ s', s.step stack masterauth (.reply reply result) = some (.ok s') ∧ ¬ s'.Doomed) ↔
          s.Safe (.reply reply result)) := by
  have hinit : RunOk (.ok Slave.init) := ⟨_, rfl, Slave.Ok.init⟩
  have hstep : ∀ r a r', RunOk r → SafeStep r a →
      Slave.stepResult stack masterauth r a = some r' → RunOk r' :=
    fun _ _ _ h ha hs => RunOk.step stack masterauth h ha hs
  obtain ⟨s, rfl, hok⟩ := Run.invariant hstep hinit hsafe hrun
  refine ⟨s, rfl, ?_, ?_, hok.disconnects, fun reply result hdec => ?_⟩
  · refine Run.along_of_invariant hstep (fun r a h _ => ?_) hinit hsafe
    obtain ⟨t, rfl, ht⟩ := h
    cases a with
    | reply reply result =>
      intro hun t' hs
      dsimp only [Slave.step] at hs
      split at hs
      · next hdec => exact (ht.unacceptable hdec.2 (Option.some.inj hs)).2 hun
      · cases hs
    | _ => trivial
  · refine Run.along_of_invariant hstep (fun r a h _ => ?_) hinit hsafe
    obtain ⟨t, rfl, ht⟩ := h
    exact fun hl ha t' hs => ht.leaving hl ha hs
  · have hstep' : s.step stack masterauth (.reply reply result)
        = some (s.handleRedisReply stack reply result) := if_pos hdec
    rw [hstep']
    rcases hok.handleRedisReply hdec.2 reply result with ⟨hs, s', heq, hok'⟩ | ⟨hs, hdoomed⟩
    · exact iff_of_true ⟨s', congrArg some heq, hok'.not_doomed⟩ hs
    · exact iff_of_false (fun ⟨s', heq, hno⟩ => hno (hdoomed s' (Option.some.inj heq))) hs

end Run

/-! ### Handshakes that fault -/

/-- The stack of a slave whose versions are all well formed is never looked at. -/
def zeroStack : ℕ → ℤ := fun _ => 0

/-- `OK`, as a status. -/
def okReply : Reply := ⟨.status, [79, 75]⟩

/-- The reply of a Comms master to `INFO`, cut to its first line. -/
def commsInfo : Reply := ⟨.string, commsVerKey ++ [49]⟩

/-- A connection whose first reply is decoded next. -/
def connected : List Act := [.connectMaster, .channelConnected .sent, .read]

/-- A master refuses `AUTH`, and the output buffer is empty; a master answers `INFO` with the empty
string; a master answers `PSYNC` with an empty status. -/
theorem handshake_faults :
    Run.steps (Slave.stepResult zeroStack true) (.ok .init)
        (connected ++ [.reply ⟨.error, [69, 82, 82]⟩ .sent, .channelClosed])
      = some (.error .nullClient) ∧
    Run.steps (Slave.stepResult zeroStack false) (.ok .init)
        (connected ++ [.reply ⟨.string, []⟩ .sent])
      = some (.error .substr) ∧
    Run.steps (Slave.stepResult zeroStack false) (.ok .init)
        (connected ++ [.reply commsInfo .sent, .reply okReply .sent, .reply ⟨.status, []⟩ .sent])
      = some (.error .wordIndex) :=
  ⟨rfl, rfl, rfl⟩

/-- `FULLRESYNC r 0`. -/
def fullresyncStatus : Reply :=
  ⟨.status, [70, 85, 76, 76, 82, 69, 83, 89, 78, 67, 32, 114, 32, 48]⟩

/-- A handshake with a password, in two reads. -/
def authHandshake : List Act :=
  connected ++ [.reply okReply .sent, .readDone, .read, .reply commsInfo .sent,
    .reply okReply .sent, .reply fullresyncStatus .sent]

theorem handshake_faultless_auth :
    ∃ r, Run.steps (Slave.stepResult zeroStack true) (.ok .init) authHandshake = some r ∧
      ∃ s, r = .ok s ∧
      Run.Along (Slave.stepResult zeroStack true) (RefusesStep zeroStack true) (.ok .init)
        authHandshake ∧
      Run.Along (Slave.stepResult zeroStack true) (StaysLeaving zeroStack true) (.ok .init)
        authHandshake ∧
      (s.Leaving → s.mode = .idle → s.client = false ∨
        ∃ s₁ s₂, s.step zeroStack true (.writable true) = some (.ok s₁) ∧
          s₁.step zeroStack true .channelClosed = some (.ok s₂) ∧ s₂.client = false) ∧
      ∀ reply result, s.Decoding →
        ((∃ s', s.step zeroStack true (.reply reply result) = some (.ok s') ∧ ¬ s'.Doomed) ↔
          s.Safe (.reply reply result)) :=
  ⟨_, rfl, @handshake_faultless zeroStack true authHandshake (by decide) _ rfl⟩

end Handshake
end Comms
