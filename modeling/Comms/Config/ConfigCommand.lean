import Comms.Config.CommsConfig

/-!
# CONFIG

`CONFIG SET`, `ADD` and `DEL` change `conf_props` and parse it again; `RELOAD` parses the file
again. Both parse over the configuration that is in force.

* `config` — the command;
* `EditKeeps`, `ReloadKeeps`, `StartsAgain` — what it should leave alone;
* `config_iff` — when it does.
-/

namespace Comms
namespace Config

open CommsConfig

/-! ### The command -/

/-- What `CONFIG` answers; `other` is the reply to `GET` or `RESETSTAT`. -/
inductive ConfigReply
  | ok
  | error (text : String)
  | other
deriving DecidableEq, Repr

/-- `CONFIG SET`, `ADD` or `DEL`. -/
inductive Edit
  | set (name value : Bytes)
  | add (name value : Bytes)
  | del (name value : Bytes)
deriving DecidableEq, Repr

namespace Edit

def name : Edit → Bytes
  | .set name _ | .add name _ | .del name _ => name

/-- What becomes of `conf_props`. -/
def apply (conf : Properties) : Edit → Properties
  | .set name value => confSet conf name value true
  | .add name value => confSet conf name value false
  | .del name value => confDel conf name value

/-- `CONFIG SET name value`, and so on. -/
def of? : List Bytes → Option Edit
  | [arg0, name, value] =>
    if arg0.map toLower = ascii "set" then some (.set name value)
    else if arg0.map toLower = ascii "add" then some (.add name value)
    else if arg0.map toLower = ascii "del" then some (.del name value)
    else none
  | _ => none

end Edit

/-- The configuration with the properties that `Parse` is given. -/
def edited (cfg : CommsConfig) (e : Edit) : CommsConfig :=
  { cfg with confProps := e.apply cfg.confProps }

/-- What `Parse` does to them. -/
def parseEdited (host : Host) (cfg : CommsConfig) (e : Edit) : Bool × CommsConfig × Properties :=
  parse host true (edited cfg e) (edited cfg e).confProps

/-- `CONFIG RELOAD`; `file` is what `parse_conf_file` makes of the file, if there is one. -/
def configReload (host : Host) (cfg : CommsConfig) (file : Option Properties) :
    ConfigReply × CommsConfig :=
  match file with
  | none => (.error "Failed to reload config", cfg)
  | some props =>
    match parse host false cfg props with
    | (true, cfg, props) => (.ok, { cfg with confProps := props })
    | (false, cfg, _) => (.error "Failed to reload config", cfg)

/-- `Config`. -/
def config (host : Host) (file : Option Properties) (cfg : CommsConfig) (args : List Bytes) :
    ConfigReply × CommsConfig :=
  let arg0 := (args.headD []).map toLower
  let arg (i : ℕ) := args.getD i []
  if arg0 = ascii "resetstat" then
    (if args.length ≠ 1 then .error "Wrong number of arguments for CONFIG RESETSTAT" else .other,
      cfg)
  else if arg0 = ascii "get" then
    (if args.length ≠ 2 then .error "Wrong number of arguments for CONFIG GET" else .other, cfg)
  else if arg0 = ascii "set" then
    if args.length ≠ 3 then (.error "Wrong number of arguments for CONFIG SET", cfg)
    else (.ok, (parseEdited host cfg (.set (arg 1) (arg 2))).2.1)
  else if arg0 = ascii "add" then
    if args.length ≠ 3 then (.error "Wrong number of arguments for CONFIG ADD", cfg)
    else (.ok, (parseEdited host cfg (.add (arg 1) (arg 2))).2.1)
  else if arg0 = ascii "del" then
    if args.length ≠ 3 then (.error "Wrong number of arguments for CONFIG DEL", cfg)
    else (.ok, (parseEdited host cfg (.del (arg 1) (arg 2))).2.1)
  else if arg0 = ascii "reload" then configReload host cfg file
  else (.error "CONFIG subcommand must be one of GET, SET, RESETSTAT, ADD, DEL", cfg)

/-- `CONFIG RELOAD`. -/
def Reloads (args : List Bytes) : Prop := (args.headD []).map toLower = ascii "reload"

instance (args : List Bytes) : Decidable (Reloads args) := inferInstanceAs (Decidable (_ = _))

theorem config_of_edit {host : Host} {file : Option Properties} {cfg : CommsConfig}
    {args : List Bytes} {e : Edit} (h : Edit.of? args = some e) :
    config host file cfg args = (.ok, (parseEdited host cfg e).2.1) := by
  obtain ⟨arg0, name, value, rfl⟩ : ∃ arg0 name value, args = [arg0, name, value] := by
    unfold Edit.of? at h
    split at h
    · exact ⟨_, _, _, rfl⟩
    · cases h
  dsimp only [Edit.of?] at h
  split at h
  · next hset =>
    obtain rfl := Option.some.inj h
    unfold config
    simp only [List.headD_cons, hset]
    rfl
  · split at h
    · next hadd =>
      obtain rfl := Option.some.inj h
      unfold config
      simp only [List.headD_cons, hadd]
      rfl
    · split at h
      · next hdel =>
        obtain rfl := Option.some.inj h
        unfold config
        simp only [List.headD_cons, hdel]
        rfl
      · cases h

theorem configReload_eq (host : Host) (cfg : CommsConfig) (props : Properties) :
    configReload host cfg (some props) =
      if (parse host false cfg props).1 then
        (.ok, { (parse host false cfg props).2.1 with
          confProps := (parse host false cfg props).2.2 })
      else (.error "Failed to reload config", (parse host false cfg props).2.1) := by
  unfold configReload
  dsimp only
  generalize parse host false cfg props = r
  obtain ⟨ok, cfg', props'⟩ := r
  cases ok <;> rfl

theorem config_of_reload {host : Host} {file : Option Properties} {cfg : CommsConfig}
    {args : List Bytes} (h : Reloads args) :
    config host file cfg args = configReload host cfg file := by
  unfold config
  rw [Reloads] at h
  simp only [h]
  rfl

/-! ### What it should leave alone -/

/-- `CONFIG SET`, `ADD` and `DEL` change no field that is not derived from the name; and where
`Parse` fails the reply is an error, and the configuration the one before. -/
def EditKeeps (host : Host) (file : Option Properties) (cfg : CommsConfig) (args : List Bytes) :
    Prop :=
  ∀ e, Edit.of? args = some e →
    ((parseEdited host cfg e).1 = true →
      ∀ s : Setting, e.name ∉ s.names → s.Same cfg (config host file cfg args).2) ∧
    ((parseEdited host cfg e).1 = false →
      (∃ text, (config host file cfg args).1 = .error text) ∧ (config host file cfg args).2 = cfg)

/-- The same for a `CONFIG RELOAD` for which `Parse` fails. -/
def ReloadKeeps (host : Host) (cfg : CommsConfig) (props : Properties) : Prop :=
  (parse host false cfg props).1 = false → ∀ args, Reloads args →
    (∃ text, (config host (some props) cfg args).1 = .error text) ∧
      (config host (some props) cfg args).2 = cfg

/-- A start followed by a `CONFIG RELOAD` of the same properties, where the paths may have become
others, gives the configuration of the start. -/
def StartsAgain (host : Host) (paths : Paths) (cfg : CommsConfig) (props : Properties) : Prop :=
  (parse host false cfg props).1 = true → ∀ args, Reloads args →
    config { host with paths } (some props) (parse host false cfg props).2.1 args =
      (.ok, (parse host false cfg props).2.1)

/-! ### When it does -/

/-- `Parse` does not stop: the paths are there, and what is verified is in order. -/
structure Acceptable (host : Host) (cfg : CommsConfig) (props : Properties) : Prop where
  home : ∃ home, host.paths.realPath (homeGiven props cfg.home) = some home ∧
    host.paths.accessible home = true
  replDir : ∃ dir, host.paths.realPath (replGiven (propsRead host cfg props) cfg) = some dir
  dataDir : ∃ dir, host.paths.realPath (dataGiven (propsRead host cfg props) cfg) = some dir
  master : (readSlaveof (propsRead host cfg props) (cfg.masterHost, cfg.masterPort)).1 = [] ∨
    0 < (confGetInt64 (propsRead host cfg props) IntOption.replWalSize.name
      (cfg.ints .replWalSize) false).2
  password : (confGetString (propsRead host cfg props) StringOption.requirepass.name
    (cfg.strings .requirepass) false).2.length ≤ 512
  databases : (confGetInt64 (propsRead host cfg props) IntOption.maxdb.name
    (cfg.ints .maxdb) false).2 ≤ 0xFFFFFF

/-- A field has the value that the properties give it, up to a part of `Parse`. -/
def Settles (host : Host) (cfg : CommsConfig) (props : Properties) (part : ℕ) (s : Setting) :
    Prop :=
  s.Settled host.paths cfg (homeGiven props cfg.home) (propsRead host cfg props) part

/-- The path that was found is found again. -/
def StillThere (before after : Paths) (given : Bytes → Bytes) (current : Bytes) : Prop :=
  ∀ path, before.realPath (given current) = some path → after.realPath (given path) = some path

section Keeps

variable {host : Host} {cfg : CommsConfig} {props : Properties}

theorem reached_eq_four_iff : reached host cfg props = 4 ↔
    (∃ home, host.paths.realPath (homeGiven props cfg.home) = some home ∧
      host.paths.accessible home = true) ∧
    (∃ dir, host.paths.realPath (replGiven (propsRead host cfg props) cfg) = some dir) ∧
    ∃ dir, host.paths.realPath (dataGiven (propsRead host cfg props) cfg) = some dir := by
  unfold reached
  cases host.paths.realPath (homeGiven props cfg.home) with
  | none => simp
  | some home =>
    cases haccess : host.paths.accessible home with
    | false => simp [haccess]
    | true =>
      cases host.paths.realPath (replGiven (propsRead host cfg props) cfg) with
      | none => simp [haccess]
      | some dir =>
        cases host.paths.realPath (dataGiven (propsRead host cfg props) cfg) with
        | none => simp [haccess]
        | some dir => simp [haccess]

theorem verifyConfig_iff (cfg : CommsConfig) : verifyConfig cfg = true ↔
    (cfg.masterHost = [] ∨ 0 < cfg.ints .replWalSize) ∧
      (cfg.strings .requirepass).length ≤ 512 ∧ cfg.ints .maxdb ≤ 0xFFFFFF := by
  unfold verifyConfig
  by_cases hmaster : cfg.masterHost ≠ [] ∧ cfg.ints .replWalSize ≤ 0
  · rw [if_pos hmaster]
    refine iff_of_false Bool.false_ne_true fun h => ?_
    rcases h.1 with hnil | hpos
    · exact hmaster.1 hnil
    · exact absurd hpos (Int.not_lt.mpr hmaster.2)
  · have hmaster' : cfg.masterHost = [] ∨ 0 < cfg.ints .replWalSize := by
      by_cases hnil : cfg.masterHost = []
      · exact .inl hnil
      · exact .inr (Int.not_le.mp fun hle => hmaster ⟨hnil, hle⟩)
    rw [if_neg hmaster, and_iff_right hmaster']
    split
    · simp
      omega
    · split
      · simp
        omega
      · simp
        omega

theorem accepts_iff : accepts host cfg props = true ↔ Acceptable host cfg props := by
  have hverify := verifyConfig_iff (readUpTo host cfg props props 4)
  rw [accepts, Bool.and_eq_true, decide_eq_true_iff, reached_eq_four_iff, hverify]
  constructor
  · rintro ⟨⟨hhome, hrepl, hdata⟩, hmaster, hpassword, hdatabases⟩
    exact ⟨hhome, hrepl, hdata, hmaster, hpassword, hdatabases⟩
  · intro h
    exact ⟨⟨h.home, h.replDir, h.dataDir⟩, h.master, h.password, h.databases⟩

theorem reached_pos : 1 ≤ reached host cfg props ∧ reached host cfg props ≤ 4 := by
  unfold reached
  split
  · omega
  · split
    · omega
    · split
      · omega
      · split <;> omega

/-- **The fields that `Parse` leaves as they are.** -/
theorem same_parse_iff (aliased : Bool) (s : Setting) :
    s.Same cfg (parse host aliased cfg props).2.1 ↔
      (s.part ≤ reached host cfg props → Settles host cfg props (reached host cfg props) s) := by
  obtain ⟨-, -, conf, conf', hparse, -⟩ := parse_spec host aliased cfg props
  rw [hparse, Settles, ← @Setting.same_readUpTo_iff _ _ _ conf s _ reached_pos.1 reached_pos.2]
  cases s <;> exact Iff.rfl

theorem reached_of_accepts (h : accepts host cfg props = true) : reached host cfg props = 4 := by
  rw [accepts, Bool.and_eq_true, decide_eq_true_iff] at h
  exact h.1

theorem same_parse_of_accepts (aliased : Bool) (h : accepts host cfg props = true) (s : Setting) :
    s.Same cfg (parse host aliased cfg props).2.1 ↔ Settles host cfg props 4 s := by
  have hpart : s.part ≤ 4 := by
    unfold Setting.part
    split <;> omega
  rw [same_parse_iff, reached_of_accepts h]
  exact ⟨fun h => h hpart, fun h _ => h⟩

theorem parse_ok_eq (aliased : Bool) :
    (parse host aliased cfg props).1 = accepts host cfg props := by
  obtain ⟨-, -, conf, conf', hparse, -⟩ := parse_spec host aliased cfg props
  rw [hparse]

theorem editKeeps_iff {file : Option Properties} {args : List Bytes} :
    EditKeeps host file cfg args ↔ ∀ e, Edit.of? args = some e →
      Acceptable host (edited cfg e) (e.apply cfg.confProps) ∧
        ∀ s : Setting, e.name ∉ s.names →
          Settles host (edited cfg e) (e.apply cfg.confProps) 4 s := by
  refine forall₂_congr fun e he => ?_
  have hsame : ∀ s : Setting, s.Same cfg (parseEdited host cfg e).2.1 ↔
      s.Same (edited cfg e) (parseEdited host cfg e).2.1 := fun s => by cases s <;> exact Iff.rfl
  rw [config_of_edit he, ← accepts_iff, parseEdited, parse_ok_eq]
  cases haccepts : accepts host (edited cfg e) (edited cfg e).confProps with
  | false =>
    refine iff_of_false ?_ fun h => ?_
    · rintro ⟨-, hkeeps⟩
      obtain ⟨text, htext⟩ := (hkeeps rfl).1
      cases htext
    · exact Bool.false_ne_true (haccepts.symm.trans h.1)
  | true =>
    have hsettles : ∀ s : Setting, s.Same cfg (parseEdited host cfg e).2.1 ↔
        Settles host (edited cfg e) (e.apply cfg.confProps) 4 s := fun s =>
      (hsame s).trans (same_parse_of_accepts true haccepts s)
    constructor
    · rintro ⟨hframe, -⟩
      exact ⟨haccepts, fun s hs => (hsettles s).mp (hframe rfl s hs)⟩
    · rintro ⟨-, hframe⟩
      exact ⟨fun _ s hs => (hsettles s).mpr (hframe s hs), nofun⟩

theorem reloadKeeps_iff : ReloadKeeps host cfg props ↔
    (¬ Acceptable host cfg props → cfg.confProps = props ∧
      ∀ s : Setting, s.part ≤ reached host cfg props →
        Settles host cfg props (reached host cfg props) s) := by
  unfold ReloadKeeps
  rw [parse_ok_eq, ← accepts_iff, Bool.not_eq_true]
  refine imp_congr_right fun hfails => ?_
  have hreload : configReload host cfg (some props) =
      (.error "Failed to reload config", (parse host false cfg props).2.1) := by
    rw [configReload_eq, parse_ok_eq, hfails, if_neg Bool.false_ne_true]
  have hconf : (parse host false cfg props).2.1.confProps = props := by
    obtain ⟨-, -, conf, conf', hparse, hconf'⟩ := parse_spec host false cfg props
    have hconf' := hconf' rfl
    rw [hfails] at hconf'
    rw [hparse]
    exact hconf'
  constructor
  · intro h
    have hsame : (parse host false cfg props).2.1 = cfg := by
      have hkeeps := (h [ascii "reload"] (by decide)).2
      rwa [config_of_reload (by decide), hreload] at hkeeps
    refine ⟨(congrArg CommsConfig.confProps hsame).symm.trans hconf, fun s => ?_⟩
    rw [← same_parse_iff false s, hsame]
    exact s.same_refl cfg
  · rintro ⟨hprops, hsettles⟩ args hargs
    rw [config_of_reload hargs, hreload]
    refine ⟨⟨_, rfl⟩, (Setting.eq_of_same (fun s => ?_) ?_).symm⟩
    · exact (same_parse_iff false s).mpr (hsettles s)
    · exact hprops.trans hconf.symm

/-- What a start leaves, apart from `conf_props`. -/
theorem parse_start_eq (h : accepts host cfg props = true) :
    ∃ conf, (parse host false cfg props).2.1 =
      { readUpTo host cfg props conf 4 with confProps := withDefaults props } := by
  obtain ⟨-, -, conf, conf', hparse, hconf'⟩ := parse_spec host false cfg props
  have hconf' := hconf' rfl
  rw [h] at hconf'
  refine ⟨conf, ?_⟩
  rw [hparse, hconf', reached_of_accepts h]
  rfl

/-- The properties after `Parse` has gone through. -/
theorem parse_props_eq (aliased : Bool) (h : accepts host cfg props = true) :
    (parse host aliased cfg props).2.2 = propsRead host cfg props := by
  obtain ⟨-, -, conf, conf', hparse, -⟩ := parse_spec host aliased cfg props
  rw [hparse]
  refine if_neg ?_
  rw [reached_of_accepts h]
  decide

/-- **Reloading leaves everything as it is** exactly if the properties are accepted, settle all
fields and are those of the configuration when their variables have been replaced. -/
theorem reload_same_iff : (∀ args, Reloads args → config host (some props) cfg args = (.ok, cfg)) ↔
    Acceptable host cfg props ∧ (∀ s, Settles host cfg props 4 s) ∧
      propsRead host cfg props = cfg.confProps := by
  rw [← accepts_iff]
  cases haccepts : accepts host cfg props with
  | false =>
    refine iff_of_false (fun h => ?_) fun h => Bool.false_ne_true h.1
    have hreload := h [ascii "reload"] (by decide)
    rw [config_of_reload (by decide), configReload_eq, parse_ok_eq, haccepts,
      if_neg Bool.false_ne_true] at hreload
    cases (Prod.mk.inj hreload).1
  | true =>
    have hsame := same_parse_of_accepts false haccepts
    have hreload : configReload host cfg (some props) =
        (.ok, { (parse host false cfg props).2.1 with confProps := propsRead host cfg props }) := by
      rw [configReload_eq, parse_ok_eq, haccepts, if_pos rfl, parse_props_eq false haccepts]
    rw [and_iff_right rfl]
    constructor
    · intro h
      have hresult := h [ascii "reload"] (by decide)
      rw [config_of_reload (by decide), hreload] at hresult
      have hcfg := (Prod.mk.inj hresult).2
      refine ⟨fun s => (hsame s).mp ?_, congrArg CommsConfig.confProps hcfg⟩
      have hs := s.same_refl cfg
      nth_rewrite 2 [← hcfg] at hs
      cases s <;> exact hs
    · rintro ⟨hsettles, hprops⟩ args hargs
      rw [config_of_reload hargs, hreload, hprops]
      refine congrArg (Prod.mk _) (Eq.symm (Setting.eq_of_same (a := cfg) (fun s => ?_) ?_))
      · have hs := (hsame s).mpr (hsettles s)
        cases s <;> exact hs
      · rfl

theorem startsAgain_iff {paths : Paths} : StartsAgain host paths cfg props ↔
    (Acceptable host cfg props →
      listenItems (propsRead host cfg props) = [] ∧
      StillThere host.paths paths (homeGiven props) cfg.home ∧
      (∀ home, host.paths.realPath (homeGiven props cfg.home) = some home →
        paths.accessible home = true) ∧
      StillThere host.paths paths
        (fun dir => (confGetString (propsRead host cfg props) (ascii "repl-dir") dir false).2)
        cfg.replDataDir ∧
      StillThere host.paths paths (fun dir => orDefault (ascii ".")
        (confGetString (propsRead host cfg props) (ascii "data-dir") dir false).2)
        cfg.dataBasePath ∧
      propsRead host cfg props = withDefaults props) := by
  unfold StartsAgain
  rw [parse_ok_eq, ← accepts_iff]
  refine imp_congr_right fun haccepts => ?_
  obtain ⟨conf, hstart⟩ := parse_start_eq haccepts
  rw [hstart, reload_same_iff]
  have hacceptable := accepts_iff.mp haccepts
  obtain ⟨home, hhome, -⟩ := hacceptable.home
  obtain ⟨replDir, hrepl⟩ := hacceptable.replDir
  obtain ⟨dataDir, hdata⟩ := hacceptable.dataDir
  have hhome₁ : (readUpTo host cfg props conf 4).home = home := Paths.resolved_some hhome
  have hrepl₁ : (readUpTo host cfg props conf 4).replDataDir = replDir := Paths.resolved_some hrepl
  have hdata₁ : (readUpTo host cfg props conf 4).dataBasePath = dataDir := Paths.resolved_some hdata
  -- the variables are replaced in the same way, once `home` is the same
  have hprops₂ : paths.realPath (homeGiven props home) = some home →
      propsRead { host with paths } { readUpTo host cfg props conf 4 with
        confProps := withDefaults props } props = propsRead host cfg props := by
    intro hfound
    rw [propsRead_of_some hhome]
    exact propsRead_of_some (hhome₁.symm ▸ hfound)
  constructor
  · rintro ⟨hagain, hsettles, hsame⟩
    obtain ⟨home', hhome', haccess'⟩ := hagain.home
    have hsettled : paths.resolved (homeGiven props (readUpTo host cfg props conf 4).home) =
        (readUpTo host cfg props conf 4).home := hsettles .home
    rw [hhome₁] at hhome' hsettled
    obtain rfl : home' = home := by rwa [Paths.resolved_some hhome'] at hsettled
    have hp := hprops₂ hhome'
    have hlisten : listenItems (propsRead { host with paths } { readUpTo host cfg props conf 4 with
        confProps := withDefaults props } props) = [] := (hsettles .listenAddresses).1
    have hrepl₂ := Paths.realPath_of_resolved hagain.replDir (hsettles .replDataDir)
    have hdata₂ := Paths.realPath_of_resolved hagain.dataDir (hsettles .dataBasePath)
    rw [hp] at hlisten hrepl₂ hdata₂ hsame
    refine ⟨hlisten, fun path hpath => ?_, fun path hpath => ?_, fun path hpath => ?_,
      fun path hpath => ?_, hsame⟩
    · obtain rfl := Option.some.inj (hhome.symm.trans hpath)
      exact hhome'
    · obtain rfl := Option.some.inj (hhome.symm.trans hpath)
      exact haccess'
    · obtain rfl := Option.some.inj (hrepl.symm.trans hpath)
      rw [← hrepl₁]
      exact hrepl₂
    · obtain rfl := Option.some.inj (hdata.symm.trans hpath)
      rw [← hdata₁]
      exact hdata₂
  · rintro ⟨hlisten, hhome₂, haccess₂, hrepl₂, hdata₂, hsame⟩
    have hhome₂ := hhome₂ home hhome
    have hrepl₂ := hrepl₂ replDir hrepl
    have hdata₂ := hdata₂ dataDir hdata
    rw [← hrepl₁] at hrepl₂
    rw [← hdata₁] at hdata₂
    have hp := hprops₂ hhome₂
    refine ⟨⟨⟨home, ?_, haccess₂ home hhome⟩, ?_, ?_, ?_, ?_, ?_⟩, fun s => ?_, hp.trans hsame⟩
    · change paths.realPath (homeGiven props (readUpTo host cfg props conf 4).home) = some home
      rw [hhome₁]
      exact hhome₂
    · rw [hp]
      exact ⟨_, hrepl₂⟩
    · rw [hp]
      exact ⟨_, hdata₂⟩
    · rw [hp]
      have hmaster := hacceptable.master
      rw [← Setting.readSlaveof_again, ← confGetInt64_again] at hmaster
      exact hmaster
    · rw [hp]
      have hpassword := hacceptable.password
      rw [← confGetString_again] at hpassword
      exact hpassword
    · rw [hp]
      have hdatabases := hacceptable.databases
      rw [← confGetInt64_again] at hdatabases
      exact hdatabases
    · have hagain : s.Settled paths (readUpTo host cfg props conf 4)
          (homeGiven props (readUpTo host cfg props conf 4).home) (propsRead host cfg props) 4 := by
        refine Setting.settled_again hlisten ?_ (Paths.resolved_some hrepl₂)
          (Paths.resolved_some hdata₂) s
        rw [hhome₁]
        exact Paths.resolved_some hhome₂
      rw [Settles, hp]
      cases s <;> exact hagain

end Keeps

/-- A process in which every path is there and nothing is in the environment. -/
def plainHost : Host := ⟨fun _ => none, 0, fun path => some path, fun _ => true⟩

/-- A configuration before anything has been read. -/
def plainConfig : CommsConfig where
  ints _ := 1
  bools _ := false
  strings _ := []
  home := []
  listenAddresses := []
  threadPoolSizes := []
  qpsLimits := []
  dataBasePath := []
  replDataDir := ascii "./repl"
  backupRedisFormat := false
  masterHost := []
  masterPort := 0
  replIncludes := []
  replExcludes := []
  renameCommands _ := none
  trustedIp := ∅
  mmkvOptions := ⟨false, [], false, 1, 0, false, false, false⟩
  confProps _ := none

/-- A file with the line `listen :6379`. -/
def listenFile : Properties := fun name =>
  if name = ascii "listen" then some [⟨ascii ":6379", []⟩] else none

end Config

end Comms
