import Mathlib.Data.Finset.Insert
import Mathlib.Data.Rat.Defs
import Comms.Config.Properties

/-!
# The configuration

`CommsConfig::Parse` reads the properties over the configuration that is there, field by field, and
may stop at four places.

* `CommsConfig`, `IntOption`, `BoolOption`, `StringOption` — the fields that `Parse` writes;
* `CommsConfig.parse` — `Parse`;
* `Setting` — a field with the names that it is derived from and the part of `Parse` that writes it;
* `parse_same_iff` — when `Parse` leaves a field as it is.

The fields that `Parse` does not write are left out.
-/

namespace Comms
namespace Config

/-! ### The fields -/

/-- The fields that are read by `conf_get_int64`. -/
inductive IntOption
  | tcpKeepalive | timeout | unixsocketperm | slowlogLogSlowerThan | slowlogMaxLen | maxClients
  | replWalSize | replWalCacheSize | replPingSlavePeriod | replTimeout | replStatePersistPeriod
  | replBacklogTimeLimit | luaTimeLimit | hllSparseMaxBytes | slavePriority | replyPoolSize
  | slaveClientOutputBufferLimit | pubsubClientOutputBufferLimit | maxdb
deriving DecidableEq, Repr

/-- Their names in the file. -/
def IntOption.name : IntOption → Bytes
  | .tcpKeepalive => ascii "tcp-keepalive"
  | .timeout => ascii "timeout"
  | .unixsocketperm => ascii "unixsocketperm"
  | .slowlogLogSlowerThan => ascii "slowlog-log-slower-than"
  | .slowlogMaxLen => ascii "slowlog-max-len"
  | .maxClients => ascii "maxclients"
  | .replWalSize => ascii "repl-backlog-size"
  | .replWalCacheSize => ascii "repl-backlog-cache-size"
  | .replPingSlavePeriod => ascii "repl-ping-slave-period"
  | .replTimeout => ascii "repl-timeout"
  | .replStatePersistPeriod => ascii "repl-state-persist-period"
  | .replBacklogTimeLimit => ascii "repl-backlog-ttl"
  | .luaTimeLimit => ascii "lua-time-limit"
  | .hllSparseMaxBytes => ascii "hll-sparse-max-bytes"
  | .slavePriority => ascii "slave-priority"
  | .replyPoolSize => ascii "reply-pool-size"
  | .slaveClientOutputBufferLimit => ascii "slave-client-output-buffer-limit"
  | .pubsubClientOutputBufferLimit => ascii "pubsub-client-output-buffer-limit"
  | .maxdb => ascii "databases"

/-- The fields that are read by `conf_get_bool`. -/
inductive BoolOption
  | daemonize | replDisableTcpNodelay | slaveReadonly | slaveServeStaleData | slaveIgnoreExpire
  | slaveIgnoreDel | slaveCleardbBeforeFullresync
deriving DecidableEq, Repr

def BoolOption.name : BoolOption → Bytes
  | .daemonize => ascii "daemonize"
  | .replDisableTcpNodelay => ascii "repl-disable-tcp-nodelay"
  | .slaveReadonly => ascii "slave-read-only"
  | .slaveServeStaleData => ascii "slave-serve-stale-data"
  | .slaveIgnoreExpire => ascii "slave-ignore-expire"
  | .slaveIgnoreDel => ascii "slave-ignore-del"
  | .slaveCleardbBeforeFullresync => ascii "slave-clecomms-before-fullresync"

/-- The fields that are read by `conf_get_string`, and kept as they are read. -/
inductive StringOption
  | pidfile | backupDir | zookeeperServers | loglevel | logfile | additionalMiscInfo | requirepass
deriving DecidableEq, Repr

def StringOption.name : StringOption → Bytes
  | .pidfile => ascii "pidfile"
  | .backupDir => ascii "backup-dir"
  | .zookeeperServers => ascii "zookeeper-servers"
  | .loglevel => ascii "loglevel"
  | .logfile => ascii "logfile"
  | .additionalMiscInfo => ascii "additional-misc-info"
  | .requirepass => ascii "requirepass"

/-- `mmkv::OpenOptions`, as far as `Parse` writes it. -/
structure MmkvOptions where
  readonly : Bool
  dir : Bytes
  createIfNotexist : Bool
  keyspaceFactor : ℚ
  size : ℤ
  autoexpand : Bool
  useLock : Bool
  verify : Bool

/-- `CommsConfig`. -/
structure CommsConfig where
  ints : IntOption → ℤ
  bools : BoolOption → Bool
  strings : StringOption → Bytes
  home : Bytes
  listenAddresses : List Bytes
  threadPoolSizes : List ℤ
  qpsLimits : List ℤ
  dataBasePath : Bytes
  replDataDir : Bytes
  backupRedisFormat : Bool
  masterHost : Bytes
  masterPort : ℕ
  replIncludes : List ℕ
  replExcludes : List ℕ
  renameCommands : Bytes → Option Bytes
  trustedIp : Finset Bytes
  mmkvOptions : MmkvOptions
  confProps : Properties

namespace CommsConfig

/-! ### Parts of `Parse` -/

def readInts (props : Properties) (options : List IntOption) (cfg : CommsConfig) : CommsConfig :=
  { cfg with
    ints := fun o => if o ∈ options then (confGetInt64 props o.name (cfg.ints o) false).2
      else cfg.ints o }

def readBools (props : Properties) (options : List BoolOption) (cfg : CommsConfig) : CommsConfig :=
  { cfg with
    bools := fun o => if o ∈ options then (confGetBool props o.name (cfg.bools o) false).2
      else cfg.bools o }

def readStrings (props : Properties) (options : List StringOption) (cfg : CommsConfig) :
    CommsConfig :=
  { cfg with
    strings := fun o => if o ∈ options then (confGetString props o.name (cfg.strings o) false).2
      else cfg.strings o }

/-- The lines of `listen` with one value. -/
def listenItems (props : Properties) : List Bytes :=
  ((props (ascii "listen")).getD []).filterMap fun items =>
    if items.rest = [] then some items.first else none

def readListen (props : Properties) (listenAddresses : List Bytes) : List Bytes :=
  let listenAddresses := listenAddresses ++ listenItems props
  if listenAddresses = [] then [ascii "0.0.0.0:16379"] else listenAddresses

/-- The lines of `thread-pool-size` or `qps-limit` with one number. -/
def sizeItems (props : Properties) (name : Bytes) : List ℤ :=
  ((props name).getD []).filterMap fun items =>
    if items.rest = [] then (stringToUInt32 items.first).map Int.ofNat else none

/-- `sizes.resize(n)`. -/
def resize (sizes : List ℤ) (n : ℕ) : List ℤ :=
  sizes.take n ++ List.replicate (n - sizes.length) 0

/-- `slaveof`: the master is the host and the port of it. -/
def readSlaveof (props : Properties) (master : Bytes × ℕ) : Bytes × ℕ :=
  match value? props (ascii "slaveof") with
  | none => master
  | some slaveof =>
    match splitString slaveof 58 with
    | [host, port] =>
      match stringToUInt32 port with
      | some port => (host, port)
      | none => ([], master.2)
    | _ => master

/-- `replicate-include-db` or `replicate-exclude-db`. -/
def readDbs (props : Properties) (name : Bytes) : List ℕ :=
  (splitUint32Array (confGetString props name [] false).2 124).getD []

/-- The loop over `rename-command`. -/
def renames : List ConfItems → (Bytes → Option Bytes) → List Bytes → Bytes → Option Bytes
  | [], renameCommands, _ => renameCommands
  | items :: cs, renameCommands, newcmdset =>
    match items.rest with
    | [newcmd] =>
      if newcmd ∈ newcmdset then renames cs renameCommands newcmdset
      else
        renames cs (Function.update renameCommands items.first (some newcmd)) (newcmd :: newcmdset)
    | _ => renames cs renameCommands newcmdset

def readRenames (props : Properties) (renameCommands : Bytes → Option Bytes) :
    Bytes → Option Bytes :=
  match props (ascii "rename-command") with
  | none => renameCommands
  | some cs => renames cs (fun _ => none) []

def readTrustedIp (props : Properties) : Finset Bytes :=
  (((props (ascii "trusted-ip")).getD []).map ConfItems.first).toFinset

/-- `mmkv_options`, for a data directory. -/
def readMmkv (props : Properties) (dir : Bytes) (options : MmkvOptions) : MmkvOptions :=
  let options := { options with
    readonly := (confGetBool props (ascii "mmkv.readonly") options.readonly false).2, dir }
  let options := if options.readonly then options else { options with
    createIfNotexist := true
    keyspaceFactor := 1
    size := (confGetInt64 props (ascii "mmkv.init_data_size") options.size false).2
    autoexpand := true }
  { options with useLock := true, verify := true }

def orDefault (default path : Bytes) : Bytes := if path = [] then default else path

/-- `home`, before it is resolved. -/
def homeGiven (props : Properties) (home : Bytes) : Bytes :=
  orDefault (ascii "../comms") (confGetString props (ascii "home") home false).2

/-- From `pidfile` to `repl-dir`. -/
def readBase (props : Properties) (cfg : CommsConfig) : CommsConfig :=
  let cfg := cfg.readStrings props [.pidfile]
  let cfg := cfg.readInts props [.tcpKeepalive, .timeout, .unixsocketperm, .slowlogLogSlowerThan,
    .slowlogMaxLen, .maxClients]
  let cfg := { cfg with listenAddresses := readListen props cfg.listenAddresses }
  let cfg := { cfg with
    threadPoolSizes := resize (cfg.threadPoolSizes ++ sizeItems props (ascii "thread-pool-size"))
      cfg.listenAddresses.length
    qpsLimits := resize (cfg.qpsLimits ++ sizeItems props (ascii "qps-limit"))
      cfg.listenAddresses.length }
  let cfg := { cfg with
    dataBasePath := (confGetString props (ascii "data-dir") cfg.dataBasePath false).2 }
  let cfg := cfg.readStrings props [.backupDir]
  { cfg with replDataDir := (confGetString props (ascii "repl-dir") cfg.replDataDir false).2 }

/-- From `backup-file-format` to the default of `data-dir`. -/
def readServer (props : Properties) (cfg : CommsConfig) : CommsConfig :=
  let cfg := { cfg with
    backupRedisFormat := cfg.backupRedisFormat ||
      eqNoCase (confGetString props (ascii "backup-file-format") [] false).2 (ascii "redis") }
  let cfg := cfg.readStrings props [.zookeeperServers, .loglevel, .logfile]
  let cfg := cfg.readBools props [.daemonize]
  let cfg := cfg.readInts props [.replWalSize, .replWalCacheSize, .replPingSlavePeriod,
    .replTimeout, .replStatePersistPeriod, .replBacklogTimeLimit]
  let cfg := cfg.readBools props [.replDisableTcpNodelay]
  let cfg := cfg.readInts props [.luaTimeLimit, .hllSparseMaxBytes]
  let cfg := cfg.readBools props [.slaveReadonly, .slaveServeStaleData]
  let cfg := cfg.readInts props [.slavePriority]
  let cfg := cfg.readBools props [.slaveIgnoreExpire, .slaveIgnoreDel,
    .slaveCleardbBeforeFullresync]
  let master := readSlaveof props (cfg.masterHost, cfg.masterPort)
  { cfg with
    masterHost := master.1
    masterPort := master.2
    replIncludes := readDbs props (ascii "replicate-include-db")
    replExcludes := readDbs props (ascii "replicate-exclude-db")
    dataBasePath := orDefault (ascii ".") cfg.dataBasePath }

/-- From `additional-misc-info` on. -/
def readRest (props : Properties) (cfg : CommsConfig) : CommsConfig :=
  let cfg := cfg.readStrings props [.additionalMiscInfo, .requirepass]
  let cfg := { cfg with renameCommands := readRenames props cfg.renameCommands }
  let cfg := cfg.readInts props [.replyPoolSize, .slaveClientOutputBufferLimit,
    .pubsubClientOutputBufferLimit, .maxdb]
  { cfg with
    trustedIp := readTrustedIp props
    mmkvOptions := readMmkv props cfg.dataBasePath cfg.mmkvOptions }

/-- `verify_config`. -/
def verifyConfig (cfg : CommsConfig) : Bool :=
  if cfg.masterHost ≠ [] ∧ cfg.ints .replWalSize ≤ 0 then false
  else if 512 < (cfg.strings .requirepass).length then false
  else if 0xFFFFFF < cfg.ints .maxdb then false
  else true

/-- The defaults for the unit test. -/
def withDefaults (props : Properties) : Properties :=
  let props := if (props (ascii "maxmemory")).isNone then
    confSet props (ascii "maxmemory") (ascii "100000") true else props
  if (props (ascii "dbfilename")).isNone then
    confSet props (ascii "dbfilename") (ascii "testfile") true else props

end CommsConfig

/-- The file system, as `Parse` sees it. -/
structure Paths where
  /-- `real_path`, after `make_dir`; `none` is an error. -/
  realPath : Bytes → Option Bytes
  /-- `access(path, R_OK | W_OK)` succeeds. -/
  accessible : Bytes → Bool

/-- The environment after `setenv("COMMS_HOME", home)`. -/
def setenvHome (getenv : Bytes → Option Bytes) (home : Bytes) : Bytes → Option Bytes :=
  Function.update getenv (ascii "COMMS_HOME") (some home)

/-- The process: its environment, a bound on the replacements of variables, and the paths. -/
structure Host where
  getenv : Bytes → Option Bytes
  fuel : ℕ
  paths : Paths

/-- The properties after `replace_env_var`. -/
def Host.replaced (host : Host) (home : Bytes) (props : Properties) : Properties :=
  replaceEnvVar (setenvHome host.getenv home) host.fuel props

namespace CommsConfig

/-- `Parse`: what it answers, the configuration, and `props`, which it writes to. `aliased` says
that `props` are the `conf_props` of the configuration. -/
def parse (host : Host) (aliased : Bool) (cfg : CommsConfig) (props : Properties) :
    Bool × CommsConfig × Properties :=
  let cfg := { cfg with confProps := props }
  let cfg := { cfg with home := homeGiven props cfg.home }
  match host.paths.realPath cfg.home with
  | none => (false, cfg, props)
  | some home =>
    let cfg := { cfg with home }
    if !host.paths.accessible home then (false, cfg, props)
    else
      let props := host.replaced home props
      let cfg := if aliased then { cfg with confProps := props } else cfg
      let cfg := readBase props cfg
      match host.paths.realPath cfg.replDataDir with
      | none => (false, cfg, props)
      | some replDataDir =>
        let cfg := readServer props { cfg with replDataDir }
        match host.paths.realPath cfg.dataBasePath with
        | none => (false, cfg, props)
        | some dataBasePath =>
          let cfg := readRest props { cfg with dataBasePath }
          if !verifyConfig cfg then (false, cfg, props)
          else (true, { cfg with confProps := withDefaults cfg.confProps }, props)

/-! ### Which fields `Parse` writes -/

/-- `repl-dir`, before it is resolved. -/
def replGiven (props : Properties) (cfg : CommsConfig) : Bytes :=
  (confGetString props (ascii "repl-dir") cfg.replDataDir false).2

/-- `data-dir`, before it is resolved. -/
def dataGiven (props : Properties) (cfg : CommsConfig) : Bytes :=
  orDefault (ascii ".") (confGetString props (ascii "data-dir") cfg.dataBasePath false).2

end CommsConfig

/-- A path, resolved if that is possible. -/
def Paths.resolved (paths : Paths) (path : Bytes) : Bytes := (paths.realPath path).getD path

theorem Paths.resolved_none {paths : Paths} {path : Bytes} (h : paths.realPath path = none) :
    paths.resolved path = path := by
  rw [Paths.resolved, h, Option.getD_none]

theorem Paths.resolved_some {paths : Paths} {path path' : Bytes}
    (h : paths.realPath path = some path') : paths.resolved path = path' := by
  rw [Paths.resolved, h, Option.getD_some]

theorem Paths.realPath_of_resolved {paths : Paths} {path path' : Bytes}
    (h : ∃ dir, paths.realPath path = some dir) (hresolved : paths.resolved path = path') :
    paths.realPath path = some path' := by
  obtain ⟨dir, hdir⟩ := h
  rw [hdir, ← hresolved, Paths.resolved_some hdir]

namespace CommsConfig

/-- The properties that `Parse` reads from `pidfile` on. -/
def propsRead (host : Host) (cfg : CommsConfig) (props : Properties) : Properties :=
  host.replaced (host.paths.resolved (homeGiven props cfg.home)) props

/-- The part that `Parse` comes to: `1` is `home`, and `2`, `3` and `4` are `readBase`, `readServer`
and `readRest`. -/
def reached (host : Host) (cfg : CommsConfig) (props : Properties) : ℕ :=
  match host.paths.realPath (homeGiven props cfg.home) with
  | none => 1
  | some home =>
    if !host.paths.accessible home then 1
    else
      match host.paths.realPath (replGiven (propsRead host cfg props) cfg) with
      | none => 2
      | some _ =>
        match host.paths.realPath (dataGiven (propsRead host cfg props) cfg) with
        | none => 3
        | some _ => 4

/-- The configuration after a part; `conf_props` are `conf`. -/
def readUpTo (host : Host) (cfg : CommsConfig) (props conf : Properties) (part : ℕ) : CommsConfig :=
  let p := propsRead host cfg props
  let home := { cfg with
    confProps := conf
    home := host.paths.resolved (homeGiven props cfg.home) }
  let base := { readBase p home with replDataDir := host.paths.resolved (replGiven p cfg) }
  let server := { readServer p base with dataBasePath := host.paths.resolved (dataGiven p cfg) }
  match part with
  | 1 => home
  | 2 => base
  | 3 => server
  | _ => readRest p server

/-- `Parse` answers `true`. -/
def accepts (host : Host) (cfg : CommsConfig) (props : Properties) : Bool :=
  reached host cfg props = 4 && verifyConfig (readUpTo host cfg props props 4)

section Parse

variable {host : Host} {aliased : Bool} {cfg : CommsConfig} {props : Properties}

theorem propsRead_of_some {home : Bytes}
    (h : host.paths.realPath (homeGiven props cfg.home) = some home) :
    propsRead host cfg props = host.replaced home props := by
  rw [propsRead, Paths.resolved, h, Option.getD_some]

/-! The four ways out of `Parse`, and its end. -/

theorem parse_of_home (h : host.paths.realPath (homeGiven props cfg.home) = none) :
    parse host aliased cfg props =
      (false, { cfg with confProps := props, home := homeGiven props cfg.home }, props) := by
  unfold parse
  simp only [h]

theorem parse_of_access {home : Bytes}
    (h : host.paths.realPath (homeGiven props cfg.home) = some home)
    (haccess : host.paths.accessible home = false) :
    parse host aliased cfg props = (false, { cfg with confProps := props, home }, props) := by
  unfold parse
  simp only [h, haccess, Bool.not_false, if_true]

/-- `conf_props` from `replace_env_var` on. -/
def confAfter (host : Host) (aliased : Bool) (cfg : CommsConfig) (props : Properties) :
    Properties :=
  if aliased then propsRead host cfg props else props

/-- `Parse` from `replace_env_var` on, for the properties `p` that are read. -/
theorem parse_of_access_true {home : Bytes} {p : Properties}
    (h : host.paths.realPath (homeGiven props cfg.home) = some home)
    (haccess : host.paths.accessible home = true) (hp : host.replaced home props = p) :
    parse host aliased cfg props =
      let base := readBase p { cfg with confProps := if aliased then p else props, home }
      match host.paths.realPath (replGiven p cfg) with
      | none => (false, base, p)
      | some replDataDir =>
        let server := readServer p { base with replDataDir }
        match host.paths.realPath (dataGiven p cfg) with
        | none => (false, server, p)
        | some dataBasePath =>
          let cfg := readRest p { server with dataBasePath }
          if !verifyConfig cfg then (false, cfg, p)
          else (true, { cfg with confProps := withDefaults cfg.confProps }, p) := by
  unfold parse
  simp only [h, haccess, hp, Bool.not_true, Bool.false_eq_true, if_false]
  cases aliased <;> rfl

theorem with_replDataDir {cfg : CommsConfig} {dir : Bytes} (h : cfg.replDataDir = dir) :
    { cfg with replDataDir := dir } = cfg := by
  subst h
  rfl

theorem with_dataBasePath {cfg : CommsConfig} {dir : Bytes} (h : cfg.dataBasePath = dir) :
    { cfg with dataBasePath := dir } = cfg := by
  subst h
  rfl

theorem readUpTo_four {conf : Properties} : readUpTo host cfg props conf 4 =
    readRest (propsRead host cfg props) (readUpTo host cfg props conf 3) := rfl

/-- `verify_config` does not look at `conf_props`. -/
theorem verifyConfig_congr {conf conf' : Properties} :
    verifyConfig (readUpTo host cfg props conf 4) =
      verifyConfig (readUpTo host cfg props conf' 4) := rfl

/-- `Parse` after one of its parts. -/
structure ParsedUpTo (host : Host) (aliased : Bool) (cfg : CommsConfig) (props : Properties)
    (part : ℕ) (ok : Bool) : Prop where
  reached : reached host cfg props = part
  accepts : accepts host cfg props = ok
  result : ∃ conf conf', parse host aliased cfg props =
    (ok, { readUpTo host cfg props conf part with confProps := conf' },
      if part = 1 then props else propsRead host cfg props) ∧
    (aliased = false → conf' = if ok then withDefaults props else props)

/-- **What `Parse` does**: it reads up to a part, and answers `true` if all is read and verified. -/
theorem parse_spec (host : Host) (aliased : Bool) (cfg : CommsConfig) (props : Properties) :
    ParsedUpTo host aliased cfg props (reached host cfg props) (accepts host cfg props) := by
  cases hhome : host.paths.realPath (homeGiven props cfg.home) with
  | none =>
    have hreached : reached host cfg props = 1 := by simp only [reached, hhome]
    have haccepts : accepts host cfg props = false := by simp [accepts, hreached]
    rw [hreached, haccepts]
    refine ⟨hreached, haccepts, props, props, ?_, fun _ => rfl⟩
    rw [parse_of_home hhome, readUpTo, Paths.resolved_none hhome]
    rfl
  | some home =>
    cases haccess : host.paths.accessible home with
    | false =>
      have hreached : reached host cfg props = 1 := by simp [reached, hhome, haccess]
      have haccepts : accepts host cfg props = false := by simp [accepts, hreached]
      rw [hreached, haccepts]
      refine ⟨hreached, haccepts, props, props, ?_, fun _ => rfl⟩
      rw [parse_of_access hhome haccess, readUpTo, Paths.resolved_some hhome]
      rfl
    | true =>
      have hp := (propsRead_of_some hhome).symm
      have hparse := @parse_of_access_true _ aliased _ _ _ _ hhome haccess hp
      cases hrepl : host.paths.realPath (replGiven (propsRead host cfg props) cfg) with
      | none =>
        have hreached : reached host cfg props = 2 := by simp [reached, hhome, haccess, hrepl]
        have haccepts : accepts host cfg props = false := by simp [accepts, hreached]
        rw [hreached, haccepts]
        refine ⟨hreached, haccepts, if aliased then propsRead host cfg props else props,
          if aliased then propsRead host cfg props else props, ?_, fun h => by rw [h]; rfl⟩
        rw [hparse, readUpTo, Paths.resolved_some hhome, Paths.resolved_none hrepl]
        simp only [hrepl]
        exact congrArg (fun c => (false, c, propsRead host cfg props)) (with_replDataDir rfl).symm
      | some replDataDir =>
        cases hdata : host.paths.realPath (dataGiven (propsRead host cfg props) cfg) with
        | none =>
          have hreached : reached host cfg props = 3 := by
            simp [reached, hhome, haccess, hrepl, hdata]
          have haccepts : accepts host cfg props = false := by simp [accepts, hreached]
          rw [hreached, haccepts]
          refine ⟨hreached, haccepts, if aliased then propsRead host cfg props else props,
            if aliased then propsRead host cfg props else props, ?_, fun h => by rw [h]; rfl⟩
          rw [hparse, readUpTo, Paths.resolved_some hhome, Paths.resolved_some hrepl,
            Paths.resolved_none hdata]
          simp only [hrepl, hdata]
          exact congrArg (fun c => (false, c, propsRead host cfg props))
            (with_dataBasePath rfl).symm
        | some dataBasePath =>
          have hreached : reached host cfg props = 4 := by
            simp [reached, hhome, haccess, hrepl, hdata]
          have hall : readUpTo host cfg props
              (if aliased then propsRead host cfg props else props) 4 =
              readRest (propsRead host cfg props) { readServer (propsRead host cfg props)
                { readBase (propsRead host cfg props) { cfg with
                  confProps := if aliased then propsRead host cfg props else props, home } with
                  replDataDir } with dataBasePath } := by
            rw [readUpTo_four, readUpTo, Paths.resolved_some hhome, Paths.resolved_some hrepl,
              Paths.resolved_some hdata]
          have haccepts : accepts host cfg props = verifyConfig (readUpTo host cfg props
              (if aliased then propsRead host cfg props else props) 4) := by
            rw [accepts, hreached]
            exact verifyConfig_congr
          rw [hreached]
          refine ⟨hreached, rfl, if aliased then propsRead host cfg props else props,
            if accepts host cfg props then
              withDefaults (if aliased then propsRead host cfg props else props)
            else if aliased then propsRead host cfg props else props, ?_, fun h => by rw [h]; rfl⟩
          rw [hparse]
          simp only [hrepl, hdata]
          rw [← hall, ← haccepts]
          cases accepts host cfg props with
          | false => rfl
          | true => rfl

end Parse

end CommsConfig

/-! ### Settings -/

/-- A field that `Parse` writes, or two that it writes together. -/
inductive Setting
  | int (o : IntOption)
  | bool (o : BoolOption)
  | string (o : StringOption)
  | home
  | listenAddresses
  | threadPoolSizes
  | qpsLimits
  | dataBasePath
  | replDataDir
  | backupRedisFormat
  | master
  | replIncludes
  | replExcludes
  | renameCommands
  | trustedIp
  | mmkvOptions
deriving DecidableEq, Repr

namespace Setting

/-- The names that a field is derived from. -/
def names : Setting → List Bytes
  | .int o => [o.name]
  | .bool o => [o.name]
  | .string o => [o.name]
  | .home => [ascii "home"]
  | .listenAddresses => [ascii "listen"]
  -- there is one size for each address
  | .threadPoolSizes => [ascii "thread-pool-size", ascii "listen"]
  | .qpsLimits => [ascii "qps-limit", ascii "listen"]
  | .dataBasePath => [ascii "data-dir"]
  | .replDataDir => [ascii "repl-dir"]
  | .backupRedisFormat => [ascii "backup-file-format"]
  | .master => [ascii "slaveof"]
  | .replIncludes => [ascii "replicate-include-db"]
  | .replExcludes => [ascii "replicate-exclude-db"]
  | .renameCommands => [ascii "rename-command"]
  | .trustedIp => [ascii "trusted-ip"]
  | .mmkvOptions => [ascii "mmkv.readonly", ascii "mmkv.init_data_size", ascii "data-dir"]

/-- The part of `Parse` that writes a field first. -/
def part : Setting → ℕ
  | .home => 1
  | .string .pidfile | .string .backupDir | .int .tcpKeepalive | .int .timeout
  | .int .unixsocketperm | .int .slowlogLogSlowerThan | .int .slowlogMaxLen | .int .maxClients
  | .listenAddresses | .threadPoolSizes | .qpsLimits | .dataBasePath | .replDataDir => 2
  | .string .additionalMiscInfo | .string .requirepass | .renameCommands | .int .replyPoolSize
  | .int .slaveClientOutputBufferLimit | .int .pubsubClientOutputBufferLimit | .int .maxdb
  | .trustedIp | .mmkvOptions => 4
  | _ => 3

/-- Two configurations have the field in common. -/
def Same (a b : CommsConfig) : Setting → Prop
  | .int o => a.ints o = b.ints o
  | .bool o => a.bools o = b.bools o
  | .string o => a.strings o = b.strings o
  | .home => a.home = b.home
  | .listenAddresses => a.listenAddresses = b.listenAddresses
  | .threadPoolSizes => a.threadPoolSizes = b.threadPoolSizes
  | .qpsLimits => a.qpsLimits = b.qpsLimits
  | .dataBasePath => a.dataBasePath = b.dataBasePath
  | .replDataDir => a.replDataDir = b.replDataDir
  | .backupRedisFormat => a.backupRedisFormat = b.backupRedisFormat
  | .master => a.masterHost = b.masterHost ∧ a.masterPort = b.masterPort
  | .replIncludes => a.replIncludes = b.replIncludes
  | .replExcludes => a.replExcludes = b.replExcludes
  | .renameCommands => a.renameCommands = b.renameCommands
  | .trustedIp => a.trustedIp = b.trustedIp
  | .mmkvOptions => a.mmkvOptions = b.mmkvOptions

open CommsConfig

/-- The field has the value already that the properties `p` give it; `home` is not read from `p`. -/
def Settled (paths : Paths) (cfg : CommsConfig) (home : Bytes) (p : Properties) (reached : ℕ) :
    Setting → Prop
  | .int o => (confGetInt64 p o.name (cfg.ints o) false).2 = cfg.ints o
  | .bool o => (confGetBool p o.name (cfg.bools o) false).2 = cfg.bools o
  | .string o => (confGetString p o.name (cfg.strings o) false).2 = cfg.strings o
  | .home => paths.resolved home = cfg.home
  | .listenAddresses => listenItems p = [] ∧ cfg.listenAddresses ≠ []
  | .threadPoolSizes => cfg.threadPoolSizes.length = (readListen p cfg.listenAddresses).length
  | .qpsLimits => cfg.qpsLimits.length = (readListen p cfg.listenAddresses).length
  -- the default and the real path come in the third part
  | .dataBasePath =>
    if reached = 2 then
      (confGetString p (ascii "data-dir") cfg.dataBasePath false).2 = cfg.dataBasePath
    else paths.resolved (dataGiven p cfg) = cfg.dataBasePath
  | .replDataDir => paths.resolved (replGiven p cfg) = cfg.replDataDir
  | .backupRedisFormat =>
    eqNoCase (confGetString p (ascii "backup-file-format") [] false).2 (ascii "redis") = true →
      cfg.backupRedisFormat = true
  | .master => readSlaveof p (cfg.masterHost, cfg.masterPort) = (cfg.masterHost, cfg.masterPort)
  | .replIncludes => readDbs p (ascii "replicate-include-db") = cfg.replIncludes
  | .replExcludes => readDbs p (ascii "replicate-exclude-db") = cfg.replExcludes
  | .renameCommands => readRenames p cfg.renameCommands = cfg.renameCommands
  | .trustedIp => readTrustedIp p = cfg.trustedIp
  | .mmkvOptions =>
    readMmkv p (paths.resolved (dataGiven p cfg)) cfg.mmkvOptions = cfg.mmkvOptions

variable {host : Host} {cfg : CommsConfig} {props conf : Properties}

theorem same_refl (s : Setting) (cfg : CommsConfig) : Same cfg cfg s := by
  cases s with
  | master => exact ⟨rfl, rfl⟩
  | _ => rfl

/-- A configuration is what its fields and `conf_props` are. -/
theorem eq_of_same {a b : CommsConfig} (h : ∀ s, Same a b s) (hconf : a.confProps = b.confProps) :
    a = b := by
  obtain ⟨hhost, hport⟩ := h .master
  cases a
  cases b
  congr
  · exact funext fun o => h (.int o)
  · exact funext fun o => h (.bool o)
  · exact funext fun o => h (.string o)
  · exact h .home
  · exact h .listenAddresses
  · exact h .threadPoolSizes
  · exact h .qpsLimits
  · exact h .dataBasePath
  · exact h .replDataDir
  · exact h .backupRedisFormat
  · exact h .replIncludes
  · exact h .replExcludes
  · exact h .renameCommands
  · exact h .trustedIp
  · exact h .mmkvOptions

theorem readListen_eq_iff {p : Properties} {addresses : List Bytes} :
    addresses = readListen p addresses ↔ listenItems p = [] ∧ addresses ≠ [] := by
  unfold readListen
  dsimp only
  constructor
  · intro h
    split at h
    · next hnil =>
      rw [(List.append_eq_nil_iff.mp hnil).1] at h
      cases h
    · next hne =>
      have hitems : listenItems p = [] := List.self_eq_append_right.mp h
      rw [hitems, List.append_nil] at hne
      exact ⟨hitems, hne⟩
  · rintro ⟨hitems, hne⟩
    rw [hitems, List.append_nil, if_neg hne]

theorem length_resize (sizes : List ℤ) (n : ℕ) : (resize sizes n).length = n := by
  rw [resize, List.length_append, List.length_take, List.length_replicate]
  omega

theorem resize_eq_iff {sizes more : List ℤ} {n : ℕ} :
    sizes = resize (sizes ++ more) n ↔ sizes.length = n := by
  constructor
  · intro h
    rw [h, length_resize]
  · rintro rfl
    have hzero : sizes.length - (sizes ++ more).length = 0 := by
      rw [List.length_append]
      omega
    rw [resize, hzero, List.take_left, List.replicate_zero, List.append_nil]

/-- A field that is read only up to a point. -/
theorem eq_ite_iff {α : Type} {old new value : α} {P : Prop} [Decidable P]
    (h : new = if P then value else old) : old = new ↔ (P → value = old) := by
  rw [h]
  by_cases hP : P
  · simp [hP, eq_comm]
  · simp [hP]

/-- **A field is as it was** exactly if it is written later, or has the value already. -/
theorem same_readUpTo_iff (s : Setting) {part : ℕ} (h1 : 1 ≤ part) (h4 : part ≤ 4) :
    Same cfg (readUpTo host cfg props conf part) s ↔
      (s.part ≤ part → s.Settled host.paths cfg (homeGiven props cfg.home)
        (propsRead host cfg props) part) := by
  have hparts : part = 1 ∨ part = 2 ∨ part = 3 ∨ part = 4 := by omega
  cases s with
  | int o =>
    have hread : (readUpTo host cfg props conf part).ints o =
        if (Setting.int o).part ≤ part then
          (confGetInt64 (propsRead host cfg props) o.name (cfg.ints o) false).2
        else cfg.ints o := by
      rcases hparts with rfl | rfl | rfl | rfl <;> cases o <;> rfl
    exact eq_ite_iff hread
  | bool o =>
    have hread : (readUpTo host cfg props conf part).bools o =
        if (Setting.bool o).part ≤ part then
          (confGetBool (propsRead host cfg props) o.name (cfg.bools o) false).2
        else cfg.bools o := by
      rcases hparts with rfl | rfl | rfl | rfl <;> cases o <;> rfl
    exact eq_ite_iff hread
  | string o =>
    have hread : (readUpTo host cfg props conf part).strings o =
        if (Setting.string o).part ≤ part then
          (confGetString (propsRead host cfg props) o.name (cfg.strings o) false).2
        else cfg.strings o := by
      rcases hparts with rfl | rfl | rfl | rfl <;> cases o <;> rfl
    exact eq_ite_iff hread
  | home =>
    have hread : (readUpTo host cfg props conf part).home =
        if Setting.home.part ≤ part then host.paths.resolved (homeGiven props cfg.home)
        else cfg.home := by
      rcases hparts with rfl | rfl | rfl | rfl <;> rfl
    exact eq_ite_iff hread
  | listenAddresses =>
    have hread : (readUpTo host cfg props conf part).listenAddresses =
        if Setting.listenAddresses.part ≤ part then
          readListen (propsRead host cfg props) cfg.listenAddresses else cfg.listenAddresses := by
      rcases hparts with rfl | rfl | rfl | rfl <;> rfl
    rw [Settled, ← readListen_eq_iff, eq_comm (b := readListen _ _)]
    exact eq_ite_iff hread
  | threadPoolSizes =>
    have hread : (readUpTo host cfg props conf part).threadPoolSizes =
        if Setting.threadPoolSizes.part ≤ part then
          resize (cfg.threadPoolSizes ++ sizeItems (propsRead host cfg props)
            (ascii "thread-pool-size")) (readListen (propsRead host cfg props)
              cfg.listenAddresses).length else cfg.threadPoolSizes := by
      rcases hparts with rfl | rfl | rfl | rfl <;> rfl
    rw [Settled, ← resize_eq_iff, eq_comm]
    exact eq_ite_iff hread
  | qpsLimits =>
    have hread : (readUpTo host cfg props conf part).qpsLimits =
        if Setting.qpsLimits.part ≤ part then
          resize (cfg.qpsLimits ++ sizeItems (propsRead host cfg props) (ascii "qps-limit"))
            (readListen (propsRead host cfg props) cfg.listenAddresses).length
        else cfg.qpsLimits := by
      rcases hparts with rfl | rfl | rfl | rfl <;> rfl
    rw [Settled, ← resize_eq_iff, eq_comm]
    exact eq_ite_iff hread
  | dataBasePath =>
    have hread : (readUpTo host cfg props conf part).dataBasePath =
        if Setting.dataBasePath.part ≤ part then
          if part = 2 then
            (confGetString (propsRead host cfg props) (ascii "data-dir") cfg.dataBasePath false).2
          else host.paths.resolved (dataGiven (propsRead host cfg props) cfg)
        else cfg.dataBasePath := by
      rcases hparts with rfl | rfl | rfl | rfl <;> rfl
    refine (eq_ite_iff hread).trans (imp_congr_right fun _ => ?_)
    rw [Settled]
    split <;> exact Iff.rfl
  | replDataDir =>
    have hread : (readUpTo host cfg props conf part).replDataDir =
        if Setting.replDataDir.part ≤ part then
          host.paths.resolved (replGiven (propsRead host cfg props) cfg) else cfg.replDataDir := by
      rcases hparts with rfl | rfl | rfl | rfl <;> rfl
    exact eq_ite_iff hread
  | backupRedisFormat =>
    have hread : (readUpTo host cfg props conf part).backupRedisFormat =
        if Setting.backupRedisFormat.part ≤ part then
          cfg.backupRedisFormat || eqNoCase (confGetString (propsRead host cfg props)
            (ascii "backup-file-format") [] false).2 (ascii "redis")
        else cfg.backupRedisFormat := by
      rcases hparts with rfl | rfl | rfl | rfl <;> rfl
    refine (eq_ite_iff hread).trans (imp_congr_right fun _ => ?_)
    rw [Settled]
    cases cfg.backupRedisFormat <;> simp
  | master =>
    have hread : ((readUpTo host cfg props conf part).masterHost,
          (readUpTo host cfg props conf part).masterPort) =
        if Setting.master.part ≤ part then
          readSlaveof (propsRead host cfg props) (cfg.masterHost, cfg.masterPort)
        else (cfg.masterHost, cfg.masterPort) := by
      rcases hparts with rfl | rfl | rfl | rfl <;> rfl
    refine Iff.trans ?_ (eq_ite_iff hread)
    rw [Prod.mk.injEq]
    exact Iff.rfl
  | replIncludes =>
    have hread : (readUpTo host cfg props conf part).replIncludes =
        if Setting.replIncludes.part ≤ part then
          readDbs (propsRead host cfg props) (ascii "replicate-include-db")
        else cfg.replIncludes := by
      rcases hparts with rfl | rfl | rfl | rfl <;> rfl
    exact eq_ite_iff hread
  | replExcludes =>
    have hread : (readUpTo host cfg props conf part).replExcludes =
        if Setting.replExcludes.part ≤ part then
          readDbs (propsRead host cfg props) (ascii "replicate-exclude-db")
        else cfg.replExcludes := by
      rcases hparts with rfl | rfl | rfl | rfl <;> rfl
    exact eq_ite_iff hread
  | renameCommands =>
    have hread : (readUpTo host cfg props conf part).renameCommands =
        if Setting.renameCommands.part ≤ part then
          readRenames (propsRead host cfg props) cfg.renameCommands else cfg.renameCommands := by
      rcases hparts with rfl | rfl | rfl | rfl <;> rfl
    exact eq_ite_iff hread
  | trustedIp =>
    have hread : (readUpTo host cfg props conf part).trustedIp =
        if Setting.trustedIp.part ≤ part then readTrustedIp (propsRead host cfg props)
        else cfg.trustedIp := by
      rcases hparts with rfl | rfl | rfl | rfl <;> rfl
    exact eq_ite_iff hread
  | mmkvOptions =>
    have hread : (readUpTo host cfg props conf part).mmkvOptions =
        if Setting.mmkvOptions.part ≤ part then
          readMmkv (propsRead host cfg props)
            (host.paths.resolved (dataGiven (propsRead host cfg props) cfg)) cfg.mmkvOptions
        else cfg.mmkvOptions := by
      rcases hparts with rfl | rfl | rfl | rfl <;> rfl
    exact eq_ite_iff hread

/-! Reading again. -/

theorem readListen_ne_nil (p : Properties) (addresses : List Bytes) :
    readListen p addresses ≠ [] := by
  unfold readListen
  dsimp only
  split
  · exact List.cons_ne_nil _ _
  · assumption

theorem readListen_of_nil {p : Properties} {addresses : List Bytes} (h : listenItems p = [])
    (hne : addresses ≠ []) : readListen p addresses = addresses :=
  (readListen_eq_iff.mpr ⟨h, hne⟩).symm

theorem readSlaveof_again (p : Properties) (master : Bytes × ℕ) :
    readSlaveof p (readSlaveof p master) = readSlaveof p master := by
  unfold readSlaveof
  cases value? p (ascii "slaveof") with
  | none => rfl
  | some slaveof =>
    dsimp only
    rcases splitString slaveof 58 with _ | ⟨host, _ | ⟨port, _ | ⟨more, rest⟩⟩⟩
    · rfl
    · rfl
    · cases hport : stringToUInt32 port <;> simp [hport]
    · rfl

theorem readRenames_again (p : Properties) (renameCommands : Bytes → Option Bytes) :
    readRenames p (readRenames p renameCommands) = readRenames p renameCommands := by
  unfold readRenames
  cases p (ascii "rename-command") <;> rfl

theorem readMmkv_again (p : Properties) (dir : Bytes) (options : MmkvOptions) :
    readMmkv p dir (readMmkv p dir options) = readMmkv p dir options := by
  unfold readMmkv
  cases hreadonly : (confGetBool p (ascii "mmkv.readonly") options.readonly false).2 with
  | true =>
    have hagain := confGetBool_again p (ascii "mmkv.readonly") options.readonly
    rw [hreadonly] at hagain
    simp [hagain]
  | false =>
    have hagain := confGetBool_again p (ascii "mmkv.readonly") options.readonly
    rw [hreadonly] at hagain
    simp [hagain]

/-- What a start has read is read again, for a file without addresses and paths that are still
there. -/
theorem settled_again {paths : Paths} {home : Bytes}
    (hlisten : listenItems (propsRead host cfg props) = [])
    (hhome : paths.resolved home = (readUpTo host cfg props conf 4).home)
    (hrepl : paths.resolved
      (replGiven (propsRead host cfg props) (readUpTo host cfg props conf 4)) =
        (readUpTo host cfg props conf 4).replDataDir)
    (hdata : paths.resolved
      (dataGiven (propsRead host cfg props) (readUpTo host cfg props conf 4)) =
        (readUpTo host cfg props conf 4).dataBasePath) (s : Setting) :
    s.Settled paths (readUpTo host cfg props conf 4) home (propsRead host cfg props) 4 := by
  have haddresses : readListen (propsRead host cfg props)
      (readUpTo host cfg props conf 4).listenAddresses =
        (readUpTo host cfg props conf 4).listenAddresses :=
    readListen_of_nil hlisten (readListen_ne_nil _ cfg.listenAddresses)
  cases s with
  | int o =>
    have hread : (readUpTo host cfg props conf 4).ints o =
        (confGetInt64 (propsRead host cfg props) o.name (cfg.ints o) false).2 := by
      cases o <;> rfl
    rw [Settled, hread, confGetInt64_again]
  | bool o =>
    have hread : (readUpTo host cfg props conf 4).bools o =
        (confGetBool (propsRead host cfg props) o.name (cfg.bools o) false).2 := by
      cases o <;> rfl
    rw [Settled, hread, confGetBool_again]
  | string o =>
    have hread : (readUpTo host cfg props conf 4).strings o =
        (confGetString (propsRead host cfg props) o.name (cfg.strings o) false).2 := by
      cases o <;> rfl
    rw [Settled, hread, confGetString_again]
  | home => exact hhome
  | listenAddresses => exact ⟨hlisten, readListen_ne_nil _ cfg.listenAddresses⟩
  | threadPoolSizes =>
    rw [Settled, haddresses]
    exact length_resize _ _
  | qpsLimits =>
    rw [Settled, haddresses]
    exact length_resize _ _
  | dataBasePath => exact hdata
  | replDataDir => exact hrepl
  | backupRedisFormat =>
    exact fun h => (congrArg (cfg.backupRedisFormat || ·) h).trans (Bool.or_true _)
  | master => exact readSlaveof_again _ _
  | replIncludes => rfl
  | replExcludes => rfl
  | renameCommands => exact readRenames_again _ _
  | trustedIp => rfl
  | mmkvOptions =>
    rw [Settled, hdata]
    exact readMmkv_again _ _ _

end Setting

end Config

end Comms
