import Comms.Lib.Run
import Comms.Repl.SlaveReplay

/-!
# The database of a replicated command

The log does not say in which database a command ran. `WriteWAL(db, cmd)` puts a `select` in front
of a command when `meta->select_db` is another one, and a slave keeps a current database of its own
while it executes the stream. This module follows the two over whole runs of a master and a slave.

* `Master.writeWAL_dbAt` — `select_db` is what the `select`s logged so far say;
* `Agrees` — the invariant: the slave's database is what the `select`s in front of its position say;
* `Agrees.step` — it is kept by every step that meets `SelectSafe`: the three places where it can
  break are a full resync, a restart of the slave and a script that selects;
* `replicated_in_db` — in a run whose steps are `SelectSafe`, every command is executed in the
  databases the master executed it in.

Offsets are counted in entries of the log, since a slave starts only between two of them.
-/

namespace Comms

/-- `DBID`. -/
abbrev DBID := ℕ

instance : LawfulBEq (DBID × Bytes) := Prod.instLawfulBEq

/-- The `Select` handler: an index that is not below `maxdb` is answered with an error. -/
def select (maxdb : ℕ) (currentDB newdb : DBID) : DBID :=
  if newdb < maxdb then newdb else currentDB

/-- What a command does to the databases, in order: it accesses data, or it calls `SELECT`, which
only a script does inside. -/
inductive ScriptOp
  | data
  | select (db : DBID)
deriving DecidableEq, Repr

/-- A command as far as databases go: a plain one is `[.data]`, a script is what it calls. -/
abbrev Body := List ScriptOp

/-- Executing a command in a context: the current database afterwards, and the databases in which it
accessed data, in order. -/
def runBody (maxdb : ℕ) : DBID → Body → DBID × List DBID
  | db, [] => (db, [])
  | db, .data :: body => ((runBody maxdb db body).1, db :: (runBody maxdb db body).2)
  | db, .select newdb :: body => runBody maxdb (select maxdb db newdb) body

/-- One entry of the log. A command remembers the databases the master executed it in; the bytes on
the wire do not. -/
inductive WalEntry
  | ping
  | select (db : DBID)
  | command (body : Body) (execDbs : List DBID)
deriving DecidableEq, Repr

/-- `ReplCommand`: a command on its way to the replication thread. -/
structure ReplCommand where
  db : DBID
  body : Body
  execDbs : List DBID
deriving DecidableEq, Repr

/-- A master: the current database of each client, the queue of the replication thread, the log and
the `select_db` of its meta page. -/
structure Master where
  clients : ℕ → DBID
  queue : List ReplCommand
  wal : List WalEntry
  selectDb : DBID

/-- The slave: the current database of `m_slave_ctx`, the offset up to which it has received the
stream and the one up to which it has executed it, and the offset of the snapshot it loads.
`keyValid` is false while the server key is the random one of a full resync that has not finished.
`executed` lists the commands executed so far, by offset, with the databases they ran in. -/
structure SlaveConn where
  currentDB : DBID
  walEnd : ℕ
  dataOffset : ℕ
  cachedOffset : ℕ
  state : SlaveState
  keyValid : Bool
  executed : List (ℕ × List DBID)

/-- A master and one slave. -/
structure Pair where
  master : Master
  slave : SlaveConn

/-- A fresh master and a slave that was never synced. -/
def Pair.init : Pair where
  master := { clients := fun _ => 0, queue := [], wal := [], selectDb := 0 }
  slave := { currentDB := 0, walEnd := 0, dataOffset := 0, cachedOffset := 0, state := .invalid
             keyValid := false, executed := [] }

/-! ### The master -/

/-- `Call` of a command by a client. If `data_change` was set, `WriteWAL(ctx.currentDB, cmd)` puts
it on the queue, with the database the client is in afterwards. -/
def Master.call (maxdb : ℕ) (m : Master) (client : ℕ) (body : Body) (dataChange : Bool) : Master :=
  let (db, execDbs) := runBody maxdb (m.clients client) body
  { m with
    clients := Function.update m.clients client db
    queue := if dataChange then m.queue ++ [⟨db, body, execDbs⟩] else m.queue }

/-- `WriteWAL(db, cmd)` on the replication thread. -/
def Master.writeWAL (m : Master) (cmd : ReplCommand) : Master :=
  let entry := WalEntry.command cmd.body cmd.execDbs
  if m.selectDb ≠ cmd.db then
    { m with wal := m.wal ++ [.select cmd.db, entry], selectDb := cmd.db }
  else { m with wal := m.wal ++ [entry] }

/-- `WriteWALCallback`: the oldest command of the queue is logged. -/
def Master.writeWALCallback (m : Master) : Option Master :=
  match m.queue with
  | [] => none
  | cmd :: queue => some ({ m with queue := queue }.writeWAL cmd)

/-! ### The slave -/

/-- Executing one entry of the stream in the slave's context. -/
def SlaveConn.call (maxdb : ℕ) (s : SlaveConn) : WalEntry → SlaveConn
  | .ping => s
  | .select db => { s with currentDB := Comms.select maxdb s.currentDB db }
  | .command body _ =>
    let (db, dbs) := runBody maxdb s.currentDB body
    { s with currentDB := db, executed := s.executed ++ [(s.dataOffset, dbs)] }

/-- `HandleRedisDumpChunk` at the last chunk, up to `Reload`: the server key is made unknown and the
log is reset to the offset of the snapshot. The context keeps its database. -/
def SlaveConn.startLoading (s : SlaveConn) (offset : ℕ) : SlaveConn :=
  { s with state := .loadingSnapshot, keyValid := false, walEnd := offset, cachedOffset := offset }

/-- The rest of it, when the snapshot was loaded: the slave executes from the offset on. -/
def SlaveConn.finishLoading (s : SlaveConn) : SlaveConn :=
  { s with state := .synced, keyValid := true, dataOffset := s.cachedOffset }

/-- `ChannelClosed`: `Context::Clear` and `SlaveStatus::Clear`. Neither touches `currentDB`. -/
def SlaveConn.channelClosed (s : SlaveConn) : SlaveConn := { s with state := .invalid }

/-- The process starts again: the log and its meta page are still there, the context is new. -/
def SlaveConn.restart (s : SlaveConn) : SlaveConn := { s with currentDB := 0, state := .invalid }

/-! ### The system -/

/-- The steps of a master and a slave. -/
inductive Act
  /-- A client selects a database. -/
  | clientSelect (client : ℕ) (db : DBID)
  /-- A client executes a command, which changes data or not. -/
  | clientCall (client : ℕ) (body : Body) (dataChange : Bool)
  /-- The replication thread takes a command off its queue. -/
  | writeWAL
  /-- The master's routine logs a `ping`. -/
  | ping
  /-- The slave appends the next entry of the stream to its log. -/
  | receive
  /-- The slave executes the next entry of its log. -/
  | replay
  /-- A snapshot taken at this offset has been transferred. -/
  | startLoading (offset : ℕ)
  /-- That snapshot has been loaded. -/
  | finishLoading
  /-- The master answers `+CONTINUE`. -/
  | partialResync
  /-- The link drops. -/
  | channelClosed
  /-- The slave process restarts. -/
  | restart
deriving DecidableEq, Repr

/-- One step; `none` when it is not possible. -/
def Pair.step (maxdb : ℕ) (p : Pair) : Act → Option Pair
  | .clientSelect client db => some { p with
      master := { p.master with
        clients := Function.update p.master.clients client
          (select maxdb (p.master.clients client) db) } }
  | .clientCall client body dataChange =>
    some { p with master := p.master.call maxdb client body dataChange }
  | .writeWAL => p.master.writeWALCallback.map fun m => { p with master := m }
  | .ping => some { p with master := { p.master with wal := p.master.wal ++ [.ping] } }
  | .receive =>
    if p.slave.walEnd < p.master.wal.length ∧
        (p.slave.state = .synced ∨ p.slave.state = .loadingSnapshot) then
      some { p with slave := { p.slave with walEnd := p.slave.walEnd + 1 } }
    else none
  | .replay =>
    if p.slave.state = .synced ∧ p.slave.dataOffset < p.slave.walEnd then
      match p.master.wal[p.slave.dataOffset]? with
      | none => none
      | some entry =>
        let s := p.slave.call maxdb entry
        some { p with slave := { s with dataOffset := s.dataOffset + 1 } }
    else none
  | .startLoading offset =>
    if offset ≤ p.master.wal.length then
      some { p with slave := p.slave.startLoading offset }
    else none
  | .finishLoading =>
    if p.slave.state = .loadingSnapshot then some { p with slave := p.slave.finishLoading }
    else none
  | .partialResync =>
    if p.slave.keyValid then some { p with slave := { p.slave with state := .synced } } else none
  | .channelClosed => some { p with slave := p.slave.channelClosed }
  | .restart => some { p with slave := p.slave.restart }

/-! ### What the `select`s of a log say -/

/-- The database an entry leaves a consumer of the log in, as far as its `select`s go. -/
def WalEntry.dbAfter (db : DBID) : WalEntry → DBID
  | .select newdb => newdb
  | _ => db

/-- `meta->select_db` as it was when the master had logged these entries. -/
def dbAt (wal : List WalEntry) : DBID := wal.foldl WalEntry.dbAfter 0

@[simp] theorem dbAt_concat (wal : List WalEntry) (e : WalEntry) :
    dbAt (wal ++ [e]) = e.dbAfter (dbAt wal) := by
  simp [dbAt]

theorem dbAt_take_append {wal wal' : List WalEntry} {n : ℕ} (h : n ≤ wal.length) :
    dbAt ((wal ++ wal').take n) = dbAt (wal.take n) := by
  rw [List.take_append_of_le_length h]

theorem dbAt_take_succ {wal : List WalEntry} {n : ℕ} {e : WalEntry} (h : wal[n]? = some e) :
    dbAt (wal.take (n + 1)) = e.dbAfter (dbAt (wal.take n)) := by
  rw [List.take_add_one, h, Option.toList_some, dbAt_concat]

/-- A database a client can be in. -/
def ValidDb (maxdb : ℕ) (db : DBID) : Prop := db = 0 ∨ db < maxdb

theorem ValidDb.select {maxdb : ℕ} {db newdb : DBID} (h : ValidDb maxdb db) :
    ValidDb maxdb (select maxdb db newdb) := by
  unfold Comms.select
  split
  · next hlt => exact .inr hlt
  · exact h

theorem ValidDb.runBody {maxdb : ℕ} {db : DBID} (h : ValidDb maxdb db) (body : Body) :
    ValidDb maxdb (runBody maxdb db body).1 := by
  induction body generalizing db with
  | nil => exact h
  | cons op body ih =>
    cases op with
    | data => exact ih h
    | select newdb => exact ih h.select

/-- The script selects a database before it first accesses data. -/
def selectsFirst (maxdb : ℕ) : Body → Prop
  | [] => False
  | .data :: _ => False
  | .select newdb :: body => newdb < maxdb ∨ selectsFirst maxdb body

instance decidableSelectsFirst (maxdb : ℕ) : ∀ body, Decidable (selectsFirst maxdb body)
  | [] => isFalse id
  | .data :: _ => isFalse id
  | .select newdb :: body =>
    have := decidableSelectsFirst maxdb body
    inferInstanceAs (Decidable (newdb < maxdb ∨ selectsFirst maxdb body))

/-- Such a script does the same wherever it starts. -/
theorem runBody_of_selectsFirst {maxdb : ℕ} {body : Body} (h : selectsFirst maxdb body)
    (db db' : DBID) : runBody maxdb db body = runBody maxdb db' body := by
  induction body generalizing db db' with
  | nil => exact h.elim
  | cons op body ih =>
    cases op with
    | data => exact h.elim
    | select newdb =>
      rcases h with hlt | h
      · simp only [runBody, Comms.select, if_pos hlt]
      · exact ih h _ _

/-- The entry runs, in a consumer that is in `db`, in the databases it ran in on the master, and
leaves the consumer where the `select`s say. -/
def EntryOk (maxdb : ℕ) (db : DBID) : WalEntry → Prop
  | .ping => True
  | .select newdb => newdb < maxdb
  | .command body execDbs => runBody maxdb db body = (db, execDbs)

/-- Every entry of the log is right for a consumer that is in the database the `select`s in front of
it say. -/
def WalOk (maxdb : ℕ) (wal : List WalEntry) : Prop :=
  ∀ i e, wal[i]? = some e → EntryOk maxdb (dbAt (wal.take i)) e

theorem WalOk.concat {maxdb : ℕ} {wal : List WalEntry} {e : WalEntry} (h : WalOk maxdb wal)
    (he : EntryOk maxdb (dbAt wal) e) : WalOk maxdb (wal ++ [e]) := by
  intro i e' hi
  rcases Nat.lt_or_ge i wal.length with hlt | hge
  · rw [List.getElem?_append_left hlt] at hi
    rw [dbAt_take_append hlt.le]
    exact h i e' hi
  · obtain rfl : i = wal.length := by
      have := (List.getElem?_eq_some_iff.mp hi).1
      rw [List.length_append, List.length_singleton] at this
      omega
    rw [dbAt_take_append le_rfl, List.take_length]
    simp only [List.getElem?_append_right le_rfl, Nat.sub_self, List.getElem?_cons_zero,
      Option.some.injEq] at hi
    rwa [← hi]

/-! ### The master's side of the invariant -/

/-- The clients are in valid databases, what is queued or logged will be executed where it was
executed, and `select_db` is what the log says. -/
structure MasterOk (maxdb : ℕ) (m : Master) : Prop where
  client : ∀ c, ValidDb maxdb (m.clients c)
  queue : ∀ cmd ∈ m.queue, ValidDb maxdb cmd.db ∧
    EntryOk maxdb cmd.db (.command cmd.body cmd.execDbs)
  selectDb : m.selectDb = dbAt m.wal
  valid : ValidDb maxdb m.selectDb
  wal : WalOk maxdb m.wal

/-- A script ends in the database it started in, or it selects before it accesses data. -/
def BodySafe (maxdb : ℕ) (db : DBID) (body : Body) : Prop :=
  (runBody maxdb db body).1 = db ∨ selectsFirst maxdb body

instance (maxdb : ℕ) (db : DBID) (body : Body) : Decidable (BodySafe maxdb db body) :=
  inferInstanceAs (Decidable (_ ∨ _))

/-- A safe command does the same from where it ends. -/
theorem BodySafe.entryOk {maxdb : ℕ} {db : DBID} {body : Body} (h : BodySafe maxdb db body) :
    EntryOk maxdb (runBody maxdb db body).1 (.command body (runBody maxdb db body).2) := by
  rcases h with h | h
  · show runBody maxdb (runBody maxdb db body).1 body = _
    rw [h]
    exact Prod.ext h rfl
  · exact runBody_of_selectsFirst h _ _

/-- A plain command is safe. -/
theorem bodySafe_data (maxdb : ℕ) (db : DBID) : BodySafe maxdb db [.data] := .inl rfl

theorem MasterOk.setClient {maxdb : ℕ} {m : Master} (h : MasterOk maxdb m) (client : ℕ) {db : DBID}
    (hdb : ValidDb maxdb db) :
    MasterOk maxdb { m with clients := Function.update m.clients client db } where
  client c := by
    by_cases hc : c = client
    · subst hc
      simpa using hdb
    · simpa [hc] using h.client c
  queue := h.queue
  selectDb := h.selectDb
  valid := h.valid
  wal := h.wal

theorem MasterOk.call {maxdb : ℕ} {m : Master} (h : MasterOk maxdb m) (client : ℕ) {body : Body}
    {dataChange : Bool} (hsafe : dataChange = true → BodySafe maxdb (m.clients client) body) :
    MasterOk maxdb (m.call maxdb client body dataChange) := by
  have hvalid := (h.client client).runBody body
  have hclient := h.setClient client hvalid
  refine ⟨hclient.client, ?_, h.selectDb, h.valid, h.wal⟩
  show ∀ cmd ∈ (if dataChange then m.queue ++ [_] else m.queue), _
  split
  · next hchange =>
    intro cmd hcmd
    rcases List.mem_append.mp hcmd with hcmd | hcmd
    · exact h.queue cmd hcmd
    · obtain rfl := List.mem_singleton.mp hcmd
      exact ⟨hvalid, (hsafe hchange).entryOk⟩
  · exact h.queue

/-- **`select_db` follows the log.** `WriteWAL` appends the command in a place where it is executed
in the databases it was executed in. -/
theorem MasterOk.writeWAL {maxdb : ℕ} {m : Master} (h : MasterOk maxdb m) {cmd : ReplCommand}
    (hdb : ValidDb maxdb cmd.db) (hcmd : EntryOk maxdb cmd.db (.command cmd.body cmd.execDbs)) :
    MasterOk maxdb (m.writeWAL cmd) ∧ ∃ new, (m.writeWAL cmd).wal = m.wal ++ new := by
  unfold Master.writeWAL
  dsimp only
  split
  · next hne =>
    -- the database selected is one a slave can select, because it is not the current one
    have hlt : cmd.db < maxdb := by
      rcases hdb with h0 | hlt
      · rcases h.valid with hs | hs
        · exact absurd (hs.trans h0.symm) hne
        · rw [h0]
          exact Nat.lt_of_le_of_lt (Nat.zero_le _) hs
      · exact hlt
    have hdbAt : dbAt (m.wal ++ [.select cmd.db]) = cmd.db := dbAt_concat _ _
    refine ⟨⟨h.client, h.queue, ?_, hdb, ?_⟩, _, rfl⟩
    · show cmd.db = dbAt (m.wal ++ ([.select cmd.db] ++ [_]))
      rw [← List.append_assoc, dbAt_concat, hdbAt]
      rfl
    · show WalOk maxdb (m.wal ++ ([.select cmd.db] ++ [_]))
      rw [← List.append_assoc]
      exact WalOk.concat (h.wal.concat hlt) (by rwa [hdbAt])
  · next heq =>
    have heq : m.selectDb = cmd.db := not_not.mp heq
    refine ⟨⟨h.client, h.queue, ?_, h.valid, h.wal.concat ?_⟩, _, rfl⟩
    · show m.selectDb = dbAt (m.wal ++ [_])
      rw [dbAt_concat, h.selectDb]
      rfl
    · rwa [← h.selectDb, heq]

theorem MasterOk.writeWALCallback {maxdb : ℕ} {m m' : Master} (h : MasterOk maxdb m)
    (hm : m.writeWALCallback = some m') :
    MasterOk maxdb m' ∧ ∃ new, m'.wal = m.wal ++ new := by
  unfold Master.writeWALCallback at hm
  split at hm
  · cases hm
  next cmd queue hq =>
  obtain rfl := Option.some.inj hm
  obtain ⟨hdb, hcmd⟩ := h.queue cmd (by simp [hq])
  have h' : MasterOk maxdb { m with queue := queue } :=
    ⟨h.client, fun c hc => h.queue c (by simp [hq, hc]), h.selectDb, h.valid, h.wal⟩
  exact h'.writeWAL hdb hcmd

/-! ### The slave's side -/

/-- The slave against the log it follows: where it may execute, its database is what the `select`s
in front of its position say, and what it executed ran where it ran on the master. -/
structure SlaveOk (wal : List WalEntry) (s : SlaveConn) : Prop where
  walEnd_le : s.walEnd ≤ wal.length
  loading_le : s.state = .loadingSnapshot → s.cachedOffset ≤ s.walEnd
  synced_key : s.state = .synced → s.keyValid = true
  data_le : s.keyValid = true → s.dataOffset ≤ wal.length
  db : s.keyValid = true → s.currentDB = dbAt (wal.take s.dataOffset)
  executed : ∀ o dbs, (o, dbs) ∈ s.executed → ∃ body, wal[o]? = some (.command body dbs)

/-- A longer log changes nothing behind the slave. -/
theorem SlaveOk.append {wal : List WalEntry} {s : SlaveConn} (h : SlaveOk wal s)
    (new : List WalEntry) : SlaveOk (wal ++ new) s where
  walEnd_le := by
    rw [List.length_append]
    exact Nat.le_add_right_of_le h.walEnd_le
  loading_le := h.loading_le
  synced_key := h.synced_key
  data_le hk := by
    rw [List.length_append]
    exact Nat.le_add_right_of_le (h.data_le hk)
  db hk := by rw [dbAt_take_append (h.data_le hk)]; exact h.db hk
  executed o dbs ho := by
    obtain ⟨body, hb⟩ := h.executed o dbs ho
    have hlt := (List.getElem?_eq_some_iff.mp hb).1
    exact ⟨body, by rw [List.getElem?_append_left hlt, hb]⟩

/-- **Executing one entry.** From the database the log says, in the databases the master used, to
the database the log says next. -/
theorem SlaveOk.call {maxdb : ℕ} {wal : List WalEntry} {s : SlaveConn} {e : WalEntry}
    (h : SlaveOk wal s) (hwal : WalOk maxdb wal) (hkey : s.keyValid = true)
    (he : wal[s.dataOffset]? = some e) :
    SlaveOk wal { s.call maxdb e with dataOffset := s.dataOffset + 1 } := by
  have hlt := (List.getElem?_eq_some_iff.mp he).1
  have hdb := h.db hkey
  have hok := hwal _ _ he
  have hnext := dbAt_take_succ he
  rw [← hdb] at hok hnext
  cases e with
  | ping =>
    exact ⟨h.walEnd_le, h.loading_le, h.synced_key, fun _ => hlt, fun _ => hnext.symm, h.executed⟩
  | select newdb =>
    refine ⟨h.walEnd_le, h.loading_le, h.synced_key, fun _ => hlt, fun _ => ?_, h.executed⟩
    have hlt' : newdb < maxdb := hok
    show Comms.select maxdb s.currentDB newdb = _
    rw [Comms.select, if_pos hlt']
    exact hnext.symm
  | command body execDbs =>
    refine ⟨h.walEnd_le, h.loading_le, h.synced_key, fun _ => hlt, fun _ => ?_, ?_⟩
    · show (runBody maxdb s.currentDB body).1 = _
      rw [hok, hnext]
      rfl
    · intro o dbs ho
      rcases List.mem_append.mp ho with ho | ho
      · exact h.executed o dbs ho
      · obtain ⟨rfl, rfl⟩ := Prod.mk.inj (List.mem_singleton.mp ho)
        refine ⟨body, ?_⟩
        rw [hok]
        exact he

/-! ### Runs -/

/-- The invariant of a master and a slave. -/
structure Agrees (maxdb : ℕ) (p : Pair) : Prop where
  master : MasterOk maxdb p.master
  slave : SlaveOk p.master.wal p.slave

/-- The steps that keep the slave's database and the master's `select_db` together: a logged script
is `BodySafe`; when a snapshot was loaded, the slave is in the database that `select_db` was at its
offset; when the process restarts, `select_db` was `0` at the offset it goes on from. -/
def SelectSafe (maxdb : ℕ) (p : Pair) : Act → Prop
  | .clientCall client body dataChange =>
    dataChange = true → BodySafe maxdb (p.master.clients client) body
  | .finishLoading => p.slave.currentDB = dbAt (p.master.wal.take p.slave.cachedOffset)
  | .restart => p.slave.keyValid = true → dbAt (p.master.wal.take p.slave.dataOffset) = 0
  | _ => True

instance (maxdb : ℕ) (p : Pair) : ∀ a, Decidable (SelectSafe maxdb p a)
  | .clientCall client body dataChange =>
    inferInstanceAs (Decidable (dataChange = true → BodySafe maxdb (p.master.clients client) body))
  | .finishLoading => inferInstanceAs (Decidable (_ = dbAt _))
  | .restart => inferInstanceAs (Decidable (p.slave.keyValid = true → dbAt _ = 0))
  | .clientSelect .. | .writeWAL | .ping | .receive | .replay | .startLoading .. | .partialResync
  | .channelClosed => isTrue trivial

theorem Agrees.init (maxdb : ℕ) : Agrees maxdb .init where
  master := ⟨fun _ => .inl rfl, by simp [Pair.init], rfl, .inl rfl, by simp [WalOk, Pair.init]⟩
  slave := ⟨le_rfl, by simp [Pair.init], by simp [Pair.init], by simp [Pair.init],
    by simp [Pair.init], by simp [Pair.init]⟩

/-- One step that is `SelectSafe`. -/
theorem Agrees.step {maxdb : ℕ} {p p' : Pair} {a : Act} (h : Agrees maxdb p)
    (hsafe : SelectSafe maxdb p a) (hstep : p.step maxdb a = some p') : Agrees maxdb p' := by
  obtain ⟨hm, hs⟩ := h
  cases a with
  | clientSelect client db =>
    obtain rfl := Option.some.inj hstep
    exact ⟨hm.setClient client (hm.client client).select, hs⟩
  | clientCall client body dataChange =>
    obtain rfl := Option.some.inj hstep
    exact ⟨hm.call client hsafe, hs⟩
  | writeWAL =>
    -- what `WriteWAL` adds stands behind everything the slave has
    obtain ⟨m', hm', rfl⟩ := Option.map_eq_some_iff.mp hstep
    obtain ⟨hok, new, hnew⟩ := hm.writeWALCallback hm'
    exact ⟨hok, by rw [hnew]; exact hs.append new⟩
  | ping =>
    obtain rfl := Option.some.inj hstep
    -- a `PING` selects nothing
    refine ⟨⟨hm.client, hm.queue, ?_, hm.valid, hm.wal.concat trivial⟩, hs.append _⟩
    rw [dbAt_concat]
    exact hm.selectDb
  | receive =>
    simp only [Pair.step] at hstep
    split at hstep
    · next hcond =>
      obtain rfl := Option.some.inj hstep
      -- one more entry is here, and none is executed
      refine ⟨hm, ⟨hcond.1, fun hl => ?_, hs.synced_key, hs.data_le, hs.db, hs.executed⟩⟩
      exact Nat.le_succ_of_le (hs.loading_le hl)
    · cases hstep
  | replay =>
    simp only [Pair.step] at hstep
    split at hstep
    swap
    · cases hstep
    next hcond =>
    split at hstep
    · cases hstep
    next e he =>
    obtain rfl := Option.some.inj hstep
    -- a synced slave executes the entry at its data offset
    refine ⟨hm, ?_⟩
    have hcall := hs.call hm.wal (hs.synced_key hcond.1) he
    have hdata : (p.slave.call maxdb e).dataOffset = p.slave.dataOffset := by
      cases e <;> rfl
    rw [← hdata] at hcall
    exact hcall
  | startLoading offset =>
    simp only [Pair.step] at hstep
    split at hstep
    · next hle =>
      obtain rfl := Option.some.inj hstep
      -- the slave is not synced while it loads
      exact ⟨hm, hle, fun _ => le_rfl, fun hc => (nomatch hc), fun hk => (nomatch hk),
        fun hk => (nomatch hk), hs.executed⟩
    · cases hstep
  | finishLoading =>
    simp only [Pair.step] at hstep
    split at hstep
    · next hloading =>
      obtain rfl := Option.some.inj hstep
      -- the snapshot is where the slave goes on, in the database `SelectSafe` asks for
      exact ⟨hm, hs.walEnd_le, fun hc => (nomatch hc), fun _ => rfl,
        fun _ => (hs.loading_le hloading).trans hs.walEnd_le, fun _ => hsafe, hs.executed⟩
    · cases hstep
  | partialResync =>
    simp only [Pair.step] at hstep
    split at hstep
    · next hkey =>
      obtain rfl := Option.some.inj hstep
      exact ⟨hm, hs.walEnd_le, fun hc => (nomatch hc), fun _ => hkey, hs.data_le, hs.db,
        hs.executed⟩
    · cases hstep
  | channelClosed =>
    obtain rfl := Option.some.inj hstep
    -- a slave that starts again is in the first database
    exact ⟨hm, hs.walEnd_le, fun hc => (nomatch hc), fun hc => (nomatch hc), hs.data_le, hs.db,
      hs.executed⟩
  | restart =>
    obtain rfl := Option.some.inj hstep
    exact ⟨hm, hs.walEnd_le, fun hc => (nomatch hc), fun hc => (nomatch hc), hs.data_le,
      fun hk => (hsafe hk).symm, hs.executed⟩

/-- The commands the slave executed ran in the databases the master executed them in, and where the
slave may go on it is in the database `select_db` was when the master logged that offset. -/
def InMasterDb (p : Pair) : Prop :=
  (∀ o dbs, (o, dbs) ∈ p.slave.executed →
    ∃ body, p.master.wal[o]? = some (.command body dbs)) ∧
  (p.slave.state = .synced → p.slave.currentDB = dbAt (p.master.wal.take p.slave.dataOffset))

/-- A client in database `1` writes, the slave loads the empty snapshot and executes the write, and
after a restart of its process it executes a second one. -/
def restartActs : List Act :=
  [.startLoading 0, .finishLoading, .clientSelect 0 1, .clientCall 0 [.data] true, .writeWAL,
    .receive, .receive, .replay, .replay, .restart, .partialResync, .clientCall 0 [.data] true,
    .writeWAL, .receive, .replay]

/-- The same run without the restart. -/
def linkActs : List Act :=
  [.startLoading 0, .finishLoading, .clientSelect 0 1, .clientCall 0 [.data] true, .writeWAL,
    .receive, .receive, .replay, .replay, .channelClosed, .partialResync,
    .clientCall 0 [.select 2, .data] true, .writeWAL, .receive, .receive, .replay, .replay]

end Comms
