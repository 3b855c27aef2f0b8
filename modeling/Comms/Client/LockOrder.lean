import Comms.Client.LockBlocks

/-!
# The order of the locks

Which locks a thread takes while it holds others, and what this needs. `m_pubsub_ctx_lock` is below the
locks of keys and clients, and above those of scripts and transactions. Among these three there is no
order: `SCRIPT FLUSH` takes `m_scripts_lock` and then `g_lua_mutex`, a script that is new has them the
other way around; `EXEC` may run a script, and the event loop may execute `EXEC` in the middle of one.

* `Orderly` — what must not be noted, in one thread or in several;
* `LockRule` — what a thread takes with what it holds, by what it notes;
* `Runs` — the blocks of a function keep to the rule, one lemma for each function;
* `locks_ordered` — no lock is taken twice, and no threads wait in a cycle.
-/

namespace Comms
namespace LockOrder

open Locks (Mode Section Rule ObeysAll)

variable {C : Type}

/-! ### Incidents -/

/-- What would make a thread wait for itself has not been noted. -/
structure Calm (log : List Incident) : Prop where
  noticeFails : .noticeFails ∉ log
  scriptInScript : .scriptInScript ∉ log

/-- **What threads may do.** No thread takes a lock twice, and no two or three of them take the locks of
scripts and transactions the one around the other. -/
structure Orderly {T : Type} (log : T → List Incident) : Prop where
  calm : ∀ t, Calm (log t)
  /-- `SCRIPT FLUSH` and a script that uses the table, unless `EXEC` keeps them apart. -/
  flush : ∀ t u, t ≠ u → ∀ a b, .flush a ∈ log t → .scriptsInScript b ∈ log u → a = true ∧ b = true
  /-- `EXEC` in a script, and `g_lua_mutex` in `EXEC`. -/
  exec : ∀ t u, t ≠ u → .execInScript ∈ log t → .luaInExec ∉ log u
  /-- `EXEC` in a script, the table in `EXEC`, and `SCRIPT FLUSH`. -/
  three : ∀ t u v, t ≠ u → u ≠ v → v ≠ t → .execInScript ∈ log t → .scriptsInExec ∈ log u →
    .flush false ∉ log v

/-! ### The rule -/

/-- The locks of scripts and transactions. -/
def core : Set Lock := {.lua, .scripts, .transc}

/-- `RWLock`s are the others. -/
def Lock.IsMutex (l : Lock) : Prop := l ∈ core ∨ l = .clients

/-- A lock is taken while another one is held; `inExec` is whether `g_transc_mutex` is held. -/
def Nests (log : List Incident) (inExec : Bool) : Lock → Lock → Prop
  | .lua, .scripts => .scriptsInScript inExec ∈ log
  | .lua, .transc => .execInScript ∈ log
  | .scripts, .lua => .flush inExec ∈ log
  | .transc, .lua => .luaInExec ∈ log
  | .transc, .scripts => .scriptsInExec ∈ log
  | .lua, .pubsubCtx | .transc, .pubsubCtx => True
  | .lua, l | .transc, l | .pubsubCtx, l => l = .watchedKeys ∨ l = .blockCtx ∨ l = .clients
  | _, _ => False

/-- What a thread takes with what it holds. -/
structure LockRule (log : List Incident) (held : List (Lock × Mode)) (l : Lock) (mode : Mode) :
    Prop where
  notHeld : l ∉ held.map Prod.fst
  mutex : l.IsMutex → mode = .exclusive
  nests : ∀ h ∈ held.map Prod.fst, Nests log (decide (.transc ∈ held.map Prod.fst)) h l

/-! ### Functions and their blocks -/

variable {held : List (Lock × Mode)} {s t u : LoopThread C} {l : Lock} {mode : Mode}

/-- What is held while a function runs: what the thread is in, and `m_pubsub_ctx_lock` at most. -/
structure Fits (held : List (Lock × Mode)) (s : LoopThread C) : Prop where
  transc : .transc ∈ held.map Prod.fst ↔ s.inExec = true
  lua : .lua ∈ held.map Prod.fst ↔ s.inScript = true
  others : ∀ l ∈ held.map Prod.fst, l = .transc ∨ l = .lua ∨ l = .pubsubCtx
  exec : (s.ctx .exec).inTransc = false

/-- What a function leaves as it was. -/
structure Kept (s t : LoopThread C) : Prop where
  inExec : t.inExec = s.inExec
  inScript : t.inScript = s.inScript
  localCtx : s.inExec = true → s.localCtx = .exec → t.localCtx = .exec
  exec : (s.ctx .exec).inTransc = false → (t.ctx .exec).inTransc = false

theorem Kept.refl (s : LoopThread C) : Kept s s := ⟨rfl, rfl, fun _ h => h, id⟩

theorem Kept.trans (h : Kept s t) (h' : Kept t u) : Kept s u :=
  ⟨h'.inExec.trans h.inExec, h'.inScript.trans h.inScript,
    fun hin hlocal => h'.localCtx (h.inExec.trans hin) (h.localCtx hin hlocal),
    fun hexec => h'.exec (h.exec hexec)⟩

theorem Fits.kept (h : Fits held s) (hk : Kept s t) : Fits held t :=
  ⟨h.transc.trans (by rw [hk.inExec]), h.lua.trans (by rw [hk.inScript]), h.others, hk.exec h.exec⟩

/-- The blocks so far are of no account. -/
theorem Fits.clear (h : Fits held s) : Fits held { s with trace := [] } :=
  ⟨h.transc, h.lua, h.others, h.exec⟩

/-- The blocks of a function keep to the rule, unless something is noted that must not be. -/
structure Runs (pre : Prop) (held : List (Lock × Mode)) (s t : LoopThread C) : Prop where
  log : s.log ⊆ t.log
  blocks : pre → ∀ {log}, Calm log → t.log ⊆ log → Fits held s →
    Kept s t ∧ ∃ new, t.trace = s.trace ++ new ∧ ObeysAll (LockRule log) held new

namespace Runs

variable {pre pre' : Prop}

theorem refl (s : LoopThread C) : Runs pre held s s :=
  ⟨List.Subset.refl _, fun _ _ _ _ _ => ⟨.refl s, [], (List.append_nil _).symm, trivial⟩⟩

theorem trans (h : Runs pre held s t) (h' : Runs pre' held t u) (hpre : pre → Kept s t → pre') :
    Runs pre held s u := by
  refine ⟨List.Subset.trans h.log h'.log, fun hp log hcalm hlog hfits => ?_⟩
  obtain ⟨hkept, new, hnew, hobeys⟩ := h.blocks hp hcalm (List.Subset.trans h'.log hlog) hfits
  obtain ⟨hkept', new', hnew', hobeys'⟩ :=
    h'.blocks (hpre hp hkept) hcalm hlog (hfits.kept hkept)
  refine ⟨hkept.trans hkept', new ++ new', ?_, Locks.obeysAll_append.mpr ⟨hobeys, hobeys'⟩⟩
  rw [hnew', hnew, List.append_assoc]

/-- The second function may come in any state. -/
theorem andThen (h : Runs pre held s t) (h' : Runs True held t u) : Runs pre held s u :=
  h.trans h' fun _ _ => trivial

theorem mono (h : Runs pre' held s t) (hpre : pre → pre') : Runs pre held s t :=
  ⟨h.log, fun hp => h.blocks (hpre hp)⟩

/-- A step without a lock. -/
theorem of_kept (h : pre → Kept s t) (hlog : s.log ⊆ t.log) (htrace : t.trace = s.trace) :
    Runs pre held s t :=
  ⟨hlog, fun hp _ _ _ _ => ⟨h hp, [], by rw [htrace, List.append_nil], trivial⟩⟩

/-- A block. -/
theorem hold {f : LoopThread C → LoopThread C} (hlog : s.log ⊆ (f { s with trace := [] }).log)
    (hbody : pre → ∀ {log}, Calm log → (f { s with trace := [] }).log ⊆ log → Fits held s →
      LockRule log held l mode ∧ Kept s (f { s with trace := [] }) ∧
        ObeysAll (LockRule log) ((l, mode) :: held) (f { s with trace := [] }).trace) :
    Runs pre held s (s.hold l mode f) := by
  refine ⟨hlog, fun hp log hcalm hsub hfits => ?_⟩
  obtain ⟨hrule, hkept, hobeys⟩ := hbody hp hcalm hsub hfits
  exact ⟨⟨hkept.inExec, hkept.inScript, hkept.localCtx, hkept.exec⟩, _, rfl, ⟨hrule, hobeys⟩, trivial⟩

/-- A block with nothing in it. -/
theorem hold_id (hrule : ∀ {log}, Calm log → s.log ⊆ log → Fits held s → LockRule log held l mode) :
    Runs pre held s (s.hold l mode id) :=
  hold (List.Subset.refl _) fun _ _ hcalm hsub hfits =>
    ⟨hrule hcalm hsub hfits, ⟨rfl, rfl, fun _ h => h, id⟩, trivial⟩

theorem foldl {α : Type} {f : LoopThread C → α → LoopThread C} (h : ∀ s x, Runs True held s (f s x))
    (xs : List α) : Runs pre held s (xs.foldl f s) := by
  induction xs generalizing s pre with
  | nil => exact .refl s
  | cons x xs ih => exact .andThen ((h s x).mono fun _ => trivial) ih

theorem iterate {f : LoopThread C → LoopThread C} (h : ∀ s, Runs True held s (f s)) (n : ℕ) :
    Runs pre held s (f^[n] s) := by
  induction n generalizing s pre with
  | zero => exact .refl s
  | succ n ih => exact .andThen ((h s).mono fun _ => trivial) ih

end Runs

/-! ### What is noted -/

variable {log : List Incident} {pre : Prop} {incidents : List (Bool × Incident)}

theorem subset_note : s.log ⊆ (s.note incidents).log := List.subset_append_left ..

theorem mem_note {b : Bool} {incident : Incident} (hb : b = true)
    (hmem : (b, incident) ∈ incidents) : incident ∈ (s.note incidents).log :=
  List.mem_append_right _ (List.mem_map.mpr ⟨_, List.mem_filter.mpr ⟨hmem, hb⟩, rfl⟩)

@[simp] theorem note_inExec : (s.note incidents).inExec = s.inExec := rfl
@[simp] theorem note_inScript : (s.note incidents).inScript = s.inScript := rfl

theorem note_runs : Runs pre held s (s.note incidents) :=
  .of_kept (fun _ => ⟨rfl, rfl, fun _ h => h, id⟩) subset_note rfl

/-! ### What may be taken -/

/-- The locks of keys and clients are above all others. -/
theorem Fits.leaf (h : Fits held s) (hl : l = .watchedKeys ∨ l = .blockCtx ∨ l = .clients)
    (hmode : l = .clients → mode = .exclusive) : LockRule log held l mode where
  notHeld := fun hmem => by
    rcases hl with rfl | rfl | rfl <;> rcases h.others _ hmem with h | h | h <;> cases h
  mutex := fun hmutex => by
    rcases hl with rfl | rfl | rfl
    · simp [Lock.IsMutex, core] at hmutex
    · simp [Lock.IsMutex, core] at hmutex
    · exact hmode rfl
  nests := fun h' hmem => by
    rcases h.others h' hmem with rfl | rfl | rfl <;> rcases hl with rfl | rfl | rfl <;> simp [Nests]

/-- `m_pubsub_ctx_lock` is taken if it is not held. -/
theorem Fits.pubsub (h : Fits held s) (hfree : .pubsubCtx ∉ held.map Prod.fst) :
    LockRule log held .pubsubCtx mode where
  notHeld := hfree
  mutex := fun hmutex => by simp [Lock.IsMutex, core] at hmutex
  nests := fun h' hmem => by
    rcases h.others h' hmem with rfl | rfl | rfl
    · trivial
    · trivial
    · exact absurd hmem hfree

/-! ### Contexts -/

section Contexts

variable [DecidableEq C] {p : Place C}

/-- A change of a context that leaves transactions alone. -/
theorem kept_modify {f : LockContext → LockContext} (h : ∀ x, (f x).inTransc = x.inTransc) :
    Kept s (s.modify p f) := by
  refine ⟨rfl, rfl, fun _ hlocal => hlocal, fun hexec => ?_⟩
  change (Function.update s.ctx p (f (s.ctx p)) .exec).inTransc = false
  by_cases hp : .exec = p
  · rw [← hp, Function.update_self, h]
    exact hexec
  · rwa [Function.update_of_ne hp]

theorem modify_runs {f : LockContext → LockContext} (h : ∀ x, (f x).inTransc = x.inTransc) :
    Runs pre held s (s.modify p f) :=
  .of_kept (fun _ => kept_modify h) (List.Subset.refl _) rfl

/-- Such a change, and a function behind it. -/
theorem modify_andThen {f : LockContext → LockContext} (h' : Runs True held (s.modify p f) t)
    (h : ∀ x, (f x).inTransc = x.inTransc) : Runs pre held s t :=
  .andThen (modify_runs h) h'

/-- The same in a block, for the locks of keys. -/
theorem hold_modify_runs {f : LockContext → LockContext} (h : ∀ x, (f x).inTransc = x.inTransc)
    (hl : l = .watchedKeys ∨ l = .blockCtx) :
    Runs pre held s (s.hold l mode (LoopThread.modify p f)) := by
  refine .hold (List.Subset.refl _) fun _ log _ _ hfits => ⟨?_, ?_, trivial⟩
  · refine hfits.leaf (hl.imp_right .inl) fun hclients => ?_
    rcases hl with rfl | rfl <;> cases hclients
  · have hkept := kept_modify (s := { s with trace := [] }) (p := p) h
    exact ⟨hkept.inExec, hkept.inScript, hkept.localCtx, hkept.exec⟩

omit [DecidableEq C] in
theorem leaf_runs (hl : l = .watchedKeys ∨ l = .blockCtx ∨ l = .clients)
    (hmode : l = .clients → mode = .exclusive) : Runs pre held s (s.hold l mode id) :=
  .hold_id fun _ _ hfits => hfits.leaf hl hmode

omit [DecidableEq C] in
theorem pubsub_runs (hfree : .pubsubCtx ∉ held.map Prod.fst) :
    Runs pre held s (s.hold .pubsubCtx mode id) :=
  .hold_id fun _ _ hfits => hfits.pubsub hfree

theorem unwatchKeys_runs : Runs pre held s (s.unwatchKeys p) := by
  unfold LoopThread.unwatchKeys
  split
  next => exact hold_modify_runs (fun _ => rfl) (.inl rfl)
  next => exact .refl s

theorem clearBlockKeys_runs : Runs pre held s (s.clearBlockKeys p) := by
  unfold LoopThread.clearBlockKeys
  split
  next => exact hold_modify_runs (fun _ => rfl) (.inr rfl)
  next => exact .refl s

/-- Nothing to unsubscribe from, if `m_pubsub_ctx_lock` is held. -/
def Quiet (held : List (Lock × Mode)) (x : LockContext) : Prop :=
  .pubsubCtx ∈ held.map Prod.fst → x.count = 0

theorem Quiet.names {x : LockContext} (h : Quiet held x) (hheld : .pubsubCtx ∈ held.map Prod.fst)
    (kind : PubSub.Kind) : (x.names kind).toList = [] := by
  have hcount := h hheld
  unfold LockContext.count at hcount
  have hzero : (x.names kind).size = 0 := by
    cases kind <;> omega
  exact List.length_eq_zero_iff.mp hzero

theorem unsubscribeQuietly_runs {kind : PubSub.Kind} {name : Bytes}
    (hfree : .pubsubCtx ∉ held.map Prod.fst) : Runs pre held s (s.unsubscribeQuietly kind p name) :=
  modify_andThen (pubsub_runs hfree) fun _ => rfl

theorem unsubscribeAllQuietly_runs (kind : PubSub.Kind) (hquiet : Quiet held (s.ctx p)) :
    Runs pre held s (s.unsubscribeAllQuietly kind p) := by
  unfold LoopThread.unsubscribeAllQuietly
  by_cases hheld : .pubsubCtx ∈ held.map Prod.fst
  · rw [hquiet.names hheld kind]
    exact .refl s
  · exact .foldl (fun s name => unsubscribeQuietly_runs hheld) _

theorem unsubscribeAllQuietly_quiet (kind : PubSub.Kind) (hquiet : Quiet held (s.ctx p)) :
    Quiet held ((s.unsubscribeAllQuietly kind p).ctx p) := by
  intro hheld
  unfold LoopThread.unsubscribeAllQuietly
  rw [hquiet.names hheld kind]
  exact hquiet hheld

theorem unwatchKeys_quiet (hquiet : Quiet held (s.ctx p)) :
    Quiet held ((s.unwatchKeys p).ctx p) := by
  unfold LoopThread.unwatchKeys
  split
  next =>
    intro hheld
    change ((Function.update s.ctx p { s.ctx p with watching := false }) p).count = 0
    rw [Function.update_self]
    exact hquiet hheld
  next => exact hquiet

theorem freeClientContext_runs (hquiet : Quiet held (s.ctx p)) :
    Runs pre held s (s.freeClientContext p) := by
  have hwatch := unwatchKeys_quiet (s := s) (p := p) hquiet
  have hchannels := unsubscribeAllQuietly_quiet .channel hwatch
  have hkeys : Runs pre held s (s.unwatchKeys p) := unwatchKeys_runs
  have hnames := (hkeys.andThen (unsubscribeAllQuietly_runs .channel hwatch)).andThen
    (unsubscribeAllQuietly_runs .pattern hchannels)
  exact (hnames.andThen (clearBlockKeys_runs (p := p))).andThen (leaf_runs (.inr (.inr rfl)) fun _ => rfl)

theorem doClose_runs (hquiet : Quiet held (s.ctx p)) : Runs pre held s (s.doClose p) := by
  unfold LoopThread.doClose
  split
  next => exact .refl s
  next =>
    refine modify_andThen (freeClientContext_runs fun hheld => ?_) fun _ => rfl
    change ((Function.update s.ctx p _) p).count = 0
    rw [Function.update_self]
    exact hquiet hheld

/-- A reply with `m_pubsub_ctx_lock` held must not close a channel with names. -/
theorem write_runs (hquiet : (s.ctx p).breaks = true → p.hasClient = true → Quiet held (s.ctx p)) :
    Runs pre held s (s.write p) := by
  unfold LoopThread.write
  split
  next hclient =>
    split
    next hbreaks => exact doClose_runs (hquiet hbreaks hclient)
    next => exact modify_runs fun _ => rfl
  next => exact .refl s

/-- A reply with the lock free. -/
theorem write_runs_free (hfree : .pubsubCtx ∉ held.map Prod.fst) : Runs pre held s (s.write p) :=
  write_runs fun _ _ hheld => absurd hheld hfree

theorem doClose_runs_free (hfree : .pubsubCtx ∉ held.map Prod.fst) : Runs pre held s (s.doClose p) :=
  doClose_runs fun hheld => absurd hheld hfree

/-! ### Subscriptions -/

omit [DecidableEq C] in
/-- With `m_pubsub_ctx_lock`. -/
theorem Fits.withPubsub (h : Fits held s) : Fits ((.pubsubCtx, mode) :: held) s where
  transc := by simpa using h.transc
  lua := by simpa using h.lua
  others := fun l hl => by
    rcases List.mem_cons.mp hl with rfl | hl
    · exact .inr (.inr rfl)
    · exact h.others l hl
  exec := h.exec

theorem subscribeChannel_runs {kind : PubSub.Kind} {name : Bytes}
    (hfree : .pubsubCtx ∉ held.map Prod.fst) :
    Runs pre held s (s.subscribeChannel kind p name) :=
  modify_andThen (.andThen (pubsub_runs hfree) (write_runs_free hfree)) fun _ => rfl

/-- If the socket of a notice is dead and names are left, this is noted. -/
theorem notice_runs : Runs pre ((.pubsubCtx, mode) :: held) s (s.notice p) := by
  have hlog (u : LoopThread C) : u.log ⊆ (u.write p).log :=
    (@write_runs_free _ [] u True _ p List.not_mem_nil).log
  refine ⟨List.Subset.trans subset_note (hlog _), fun hp log hcalm hsub hfits => ?_⟩
  refine (Runs.andThen note_runs (write_runs fun hbreaks hclient _ => ?_)).blocks hp hcalm hsub hfits
  change (s.ctx p).breaks = true at hbreaks
  change (s.ctx p).count = 0
  by_contra hcount
  refine hcalm.noticeFails (hsub (hlog _ (mem_note ?_ (List.mem_singleton_self _))))
  rw [hclient, hbreaks]
  exact bne_iff_ne.mpr hcount

/-- The notice is written with the lock held. -/
theorem hold_notice_runs (hfree : .pubsubCtx ∉ held.map Prod.fst) :
    Runs pre held s (s.hold .pubsubCtx .exclusive (LoopThread.notice p)) := by
  have hbody : Runs pre ((.pubsubCtx, .exclusive) :: held) { s with trace := [] }
      (LoopThread.notice p { s with trace := [] }) := notice_runs
  refine .hold hbody.log fun hp log hcalm hsub hfits => ?_
  obtain ⟨hkept, new, hnew, hobeys⟩ := hbody.blocks hp hcalm hsub hfits.clear.withPubsub
  refine ⟨hfits.pubsub hfree, ⟨hkept.inExec, hkept.inScript, hkept.localCtx, hkept.exec⟩, ?_⟩
  rw [hnew]
  exact hobeys

theorem unsubscribeChannel_runs {kind : PubSub.Kind} {name : Bytes}
    (hfree : .pubsubCtx ∉ held.map Prod.fst) :
    Runs pre held s (s.unsubscribeChannel kind p name) :=
  modify_andThen (hold_notice_runs hfree) fun _ => rfl

theorem unSubscribe_runs {kind : PubSub.Kind} {args : List Bytes} {found : Bool}
    (hfree : .pubsubCtx ∉ held.map Prod.fst) : Runs pre held s (s.unSubscribe kind p args found) := by
  have heach (s : LoopThread C) (names : List Bytes) : Runs pre held s
      (names.foldl (fun s name => s.unsubscribeChannel kind p name) s) :=
    .foldl (fun s name => unsubscribeChannel_runs hfree) names
  unfold LoopThread.unSubscribe
  split
  next =>
    unfold LoopThread.unsubscribeAll
    split
    next => exact .refl s
    next =>
      dsimp only
      split
      next => exact heach s _
      next => exact .andThen (heach s _) (write_runs_free hfree)
  next => exact heach s args

/-! ### Keys -/

omit [DecidableEq C] in
theorem touchAll_runs (touches : List Touch) : Runs pre held s (s.touchAll touches) :=
  .foldl (fun s x => by
    cases x with
    | changed => exact leaf_runs (.inl rfl) fun h => by cases h
    | wakes => exact leaf_runs (.inr (.inl rfl)) fun h => by cases h) touches

theorem blockOn_runs (keys : ℕ) : Runs pre held s (s.blockOn p keys) := by
  have heach (s : LoopThread C) : Runs True held s ((LoopThread.addBlockKey p)^[keys] s) :=
    .iterate (f := LoopThread.addBlockKey p)
      (fun s => by exact hold_modify_runs (fun _ => rfl) (.inr rfl)) keys
  unfold LoopThread.blockOn
  dsimp only
  split
  next => exact modify_andThen (heach _) fun _ => rfl
  next => exact (heach s).mono fun _ => trivial

/-- `ClearTransc` ends a transaction. -/
theorem clearTransc_runs : Runs pre held s (s.clearTransc p) := by
  refine .of_kept (fun _ => ⟨rfl, rfl, fun _ h => h, fun hexec => ?_⟩) (List.Subset.refl _) rfl
  change (Function.update s.ctx p { s.ctx p with watching := false, inTransc := false } .exec).inTransc = false
  by_cases hp : .exec = p
  · rw [← hp, Function.update_self]
  · rwa [Function.update_of_ne hp]

theorem endTransc_runs : Runs pre held s ((s.unwatchKeys p).clearTransc p) :=
  .andThen unwatchKeys_runs clearTransc_runs

end Contexts

/-! ### Scripts -/

theorem Fits.inExec (h : Fits held s) : decide (.transc ∈ held.map Prod.fst) = s.inExec := by
  rw [Bool.eq_iff_iff, decide_eq_true_iff]
  exact h.transc

/-- What is held when `m_scripts_lock` is taken has been noted. -/
theorem Fits.scripts (h : Fits held s) (hfree : .pubsubCtx ∉ held.map Prod.fst)
    (hscript : s.inScript = true → .scriptsInScript s.inExec ∈ log)
    (hexec : s.inExec = true → .scriptsInExec ∈ log) : LockRule log held .scripts .exclusive where
  notHeld := fun hmem => by rcases h.others _ hmem with h | h | h <;> cases h
  mutex := fun _ => rfl
  nests := fun l hl => by
    rw [h.inExec]
    rcases h.others l hl with rfl | rfl | rfl
    · exact hexec (h.transc.mp hl)
    · exact hscript (h.lua.mp hl)
    · exact absurd hl hfree

theorem useScripts_runs (hfree : .pubsubCtx ∉ held.map Prod.fst) : Runs pre held s s.useScripts := by
  refine .andThen note_runs (.hold_id fun _ hsub hfits => ?_)
  exact hfits.scripts hfree (fun h => hsub (mem_note h (by simp))) fun h => hsub (mem_note h (by simp))

/-- `g_lua_mutex`, with `m_scripts_lock` or without. -/
theorem Fits.luaRule (h : Fits held s) (hfree : .pubsubCtx ∉ held.map Prod.fst)
    (hscript : s.inScript = false) (hexec : s.inExec = true → .luaInExec ∈ log) :
    LockRule log held .lua .exclusive where
  notHeld := fun hmem => by
    rw [h.lua.mp hmem] at hscript
    cases hscript
  mutex := fun _ => rfl
  nests := fun l hl => by
    rcases h.others l hl with rfl | rfl | rfl
    · exact hexec (h.transc.mp hl)
    · rw [h.lua.mp hl] at hscript
      cases hscript
    · exact absurd hl hfree

/-- The same with `m_scripts_lock`. -/
theorem Fits.luaRule_scripts (h : Fits held s) (hfree : .pubsubCtx ∉ held.map Prod.fst)
    (hscript : s.inScript = false) (hexec : s.inExec = true → .luaInExec ∈ log)
    (hflush : .flush s.inExec ∈ log) :
    LockRule log ((.scripts, .exclusive) :: held) .lua .exclusive where
  notHeld := fun hmem => by
    rcases List.mem_cons.mp hmem with heq | hmem
    · cases heq
    · exact (h.luaRule hfree hscript hexec).notHeld hmem
  mutex := fun _ => rfl
  nests := fun l hl => by
    have hdec : decide (.transc ∈ ((.scripts, Mode.exclusive) :: held).map Prod.fst) = s.inExec := by
      rw [← h.inExec]
      simp
    rw [hdec]
    rcases List.mem_cons.mp hl with rfl | hl
    · exact hflush
    · have hnests := (h.luaRule hfree hscript hexec).nests l hl
      rwa [h.inExec] at hnests

theorem flushScripts_runs (hfree : .pubsubCtx ∉ held.map Prod.fst) :
    Runs pre held s s.flushScripts := by
  unfold LoopThread.flushScripts
  set incidents := [(s.inScript, .scriptInScript), (true, .flush s.inExec), (s.inExec, .luaInExec),
    (s.inExec, Incident.scriptsInExec)] with hincidents
  refine .andThen note_runs (.hold (List.Subset.refl _) fun _ log hcalm hsub hfits => ?_)
  have hnote (b : Bool) (incident : Incident) (hb : b = true) (hmem : (b, incident) ∈ incidents) :
      incident ∈ log := hsub (mem_note hb hmem)
  have hscript : s.inScript = false := by
    rw [Bool.eq_false_iff]
    exact fun h => hcalm.scriptInScript (hnote _ _ h (by simp [hincidents]))
  have hlua := @Fits.luaRule_scripts _ _ _ log hfits hfree hscript
    (fun h => hnote _ _ h (by simp [hincidents])) (hnote _ _ rfl (by simp [hincidents]))
  refine ⟨hfits.scripts hfree (fun h => ?_) fun h => hnote _ _ h (by simp [hincidents]), ?_, ?_⟩
  · rw [show s.inScript = true from h] at hscript
    cases hscript
  · exact ⟨rfl, rfl, fun _ h => h, id⟩
  · exact ⟨⟨hlua, trivial⟩, trivial⟩

theorem useScripts_same : s.useScripts.inExec = s.inExec ∧ s.useScripts.inScript = s.inScript ∧
    s.useScripts.localCtx = s.localCtx := ⟨rfl, rfl, rfl⟩

section Run

variable {run : LoopThread C → LoopThread C} {p : Place C}

/-- The script works in the context of `EXEC` if this runs it. -/
def ScriptPlace (s : LoopThread C) : Prop := s.inExec = true → s.localCtx = .exec

theorem callFunction_runs {isSHA1Func : Bool} {lookup : Lookup}
    (hfree : .pubsubCtx ∉ held.map Prod.fst)
    (hrun : ∀ t : LoopThread C, Runs (ScriptPlace t) held t (run t)) :
    Runs (ScriptPlace s) held s (s.callFunction isSHA1Func lookup run) := by
  -- `GetScript`, for a hash
  have hget : Runs (ScriptPlace s) held s (if isSHA1Func then s.useScripts else s) := by
    split
    next => exact useScripts_runs hfree
    next => exact .refl s
  cases lookup with
  | badHash => exact .refl s
  | defined => exact hrun s
  | unknown => exact hget
  | broken => exact hget
  | created =>
    refine (hget.andThen (useScripts_runs hfree)).trans (hrun _) fun hplace _ => ?_
    cases isSHA1Func <;> exact hplace

/-- The function is called with `g_lua_mutex`. -/
theorem hold_lua_runs {isSHA1Func : Bool} {lookup : Lookup} (hfree : .pubsubCtx ∉ held.map Prod.fst)
    (hrun : ∀ {held} (t : LoopThread C), .pubsubCtx ∉ held.map Prod.fst →
      Runs (ScriptPlace t) held t (run t)) :
    Runs (ScriptPlace s) held s
      ((s.note [(s.inScript, .scriptInScript), (s.inExec, .luaInExec)]).hold .lua .exclusive fun s =>
        { LoopThread.callFunction isSHA1Func lookup run { s with inScript := true } with
          inScript := s.inScript }) := by
  set incidents := [(s.inScript, Incident.scriptInScript), (s.inExec, .luaInExec)] with hincidents
  set w : LoopThread C := { s.note incidents with trace := [], inScript := true } with hw
  have hfree' : .pubsubCtx ∉ ((.lua, Mode.exclusive) :: held).map Prod.fst := by simpa using hfree
  have hcall : Runs (ScriptPlace w) _ w (w.callFunction isSHA1Func lookup run) :=
    callFunction_runs hfree' fun t => hrun t hfree'
  refine @Runs.trans _ _ _ _ _ _ (ScriptPlace w) note_runs (.hold hcall.log fun hplace log hcalm hsub hfits => ?_)
    fun hplace _ => hplace
  have hnote (b : Bool) (incident : Incident) (hb : b = true) (hmem : (b, incident) ∈ incidents) :
      incident ∈ log := hsub (hcall.log (mem_note hb hmem))
  have hscript : s.inScript = false := by
    rw [Bool.eq_false_iff]
    exact fun h => hcalm.scriptInScript (hnote _ _ h (by simp [hincidents]))
  have hrule := @Fits.luaRule _ _ _ log hfits hfree hscript fun h => hnote _ _ h (by simp [hincidents])
  have hfits' : Fits ((.lua, Mode.exclusive) :: held) w := by
    have htransc : .transc ∈ ((.lua, Mode.exclusive) :: held).map Prod.fst ↔ s.inExec = true := by
      simpa using hfits.transc
    refine ⟨htransc, by simp [hw], fun l hl => ?_, hfits.exec⟩
    rcases List.mem_cons.mp hl with rfl | hl
    · exact .inr (.inl rfl)
    · exact hfits.others l hl
  obtain ⟨hkept, new, hnew, hobeys⟩ := hcall.blocks hplace hcalm hsub hfits'
  refine ⟨hrule, ⟨hkept.inExec, rfl, hkept.localCtx, hkept.exec⟩, ?_⟩
  change ObeysAll (LockRule log) _ (w.callFunction isSHA1Func lookup run).trace
  rw [hnew]
  exact hobeys

theorem luaEval_runs {isSHA1Func : Bool} {lookup : Lookup} (hfree : .pubsubCtx ∉ held.map Prod.fst)
    (hrun : ∀ {held} (t : LoopThread C), .pubsubCtx ∉ held.map Prod.fst →
      Runs (ScriptPlace t) held t (run t)) :
    Runs (s.inExec = true → p = .exec) held s (s.luaEval p isSHA1Func lookup run) := by
  set u : LoopThread C := { s with localCtx := p } with hu
  have hlocal : Runs (s.inExec = true → p = .exec) held s u :=
    .of_kept (fun hplace => ⟨rfl, rfl, fun hin _ => hplace hin, id⟩) (List.Subset.refl _) rfl
  unfold LoopThread.luaEval
  dsimp only
  split
  next => exact hlocal
  next =>
    cases isSHA1Func with
    | true => exact hlocal.trans (hold_lua_runs hfree hrun) fun hplace _ => hplace
    | false =>
      exact (hlocal.andThen (useScripts_runs hfree)).trans (hold_lua_runs hfree hrun)
        fun hplace _ => hplace

end Run

/-! ### Transactions -/

section Run

variable {run : LoopThread C → LoopThread C} {p : Place C}

/-- `g_transc_mutex` is taken outside of `EXEC`. -/
theorem Fits.transcRule (h : Fits held s) (hfree : .pubsubCtx ∉ held.map Prod.fst)
    (hexec : s.inExec = false) (hscript : s.inScript = true → .execInScript ∈ log) :
    LockRule log held .transc .exclusive where
  notHeld := fun hmem => by
    rw [h.transc.mp hmem] at hexec
    cases hexec
  mutex := fun _ => rfl
  nests := fun l hl => by
    rcases h.others l hl with rfl | rfl | rfl
    · rw [h.transc.mp hl] at hexec
      cases hexec
    · exact hscript (h.lua.mp hl)
    · exact absurd hl hfree

theorem exec_runs [DecidableEq C] {aborted : Bool} (hfree : .pubsubCtx ∉ held.map Prod.fst)
    (hrun : ∀ {held} (t : LoopThread C), .pubsubCtx ∉ held.map Prod.fst → Runs True held t (run t)) :
    Runs (s.inExec = true → p = .exec) held s (s.exec p aborted run) := by
  unfold LoopThread.exec
  split
  next hin =>
    split
    next => exact endTransc_runs
    next =>
      set w : LoopThread C :=
        { { s.note [(s.inScript, .execInScript)] with trace := [] }.modify .exec (fun _ => .init) with
          inExec := true } with hw
      have hfree' : .pubsubCtx ∉ ((.transc, Mode.exclusive) :: held).map Prod.fst := by simpa using hfree
      have hbody : Runs True _ w (((run w).unwatchKeys p).clearTransc p) :=
        .andThen (hrun w hfree') endTransc_runs
      refine @Runs.trans _ _ _ _ _ _ (s.inExec = true → p = .exec) note_runs
        (.hold hbody.log fun hplace log hcalm hsub hfits => ?_) fun hplace _ => hplace
      have hexec : s.inExec = false := by
        rw [Bool.eq_false_iff]
        intro h
        have hnone := hfits.exec
        rw [← hplace h] at hnone
        rw [show (s.ctx p).inTransc = false from hnone] at hin
        cases hin
      have hrule := @Fits.transcRule _ _ _ log hfits hfree hexec fun h =>
        hsub (hbody.log (mem_note h (List.mem_singleton_self _)))
      have hfits' : Fits ((.transc, Mode.exclusive) :: held) w := by
        have hlua : .lua ∈ ((.transc, Mode.exclusive) :: held).map Prod.fst ↔ s.inScript = true := by
          simpa using hfits.lua
        refine ⟨by simp [hw], hlua, fun l hl => ?_, ?_⟩
        · rcases List.mem_cons.mp hl with rfl | hl
          · exact .inl rfl
          · exact hfits.others l hl
        · change (Function.update s.ctx .exec LockContext.init .exec).inTransc = false
          rw [Function.update_self]
          rfl
      obtain ⟨hkept, new, hnew, hobeys⟩ := hbody.blocks trivial hcalm hsub hfits'
      refine ⟨hrule, ⟨rfl, hkept.inScript, fun h => ?_, fun _ => hkept.exec hfits'.exec⟩, ?_⟩
      · rw [show s.inExec = true from h] at hexec
        cases hexec
      · change ObeysAll (LockRule log) _ (((run w).unwatchKeys p).clearTransc p).trace
        rw [hnew]
        exact hobeys
  next => exact .refl s

theorem call_eq {cmd : Cmd C} : (s.call p cmd run).1 = s ∨ (s.call p cmd run).1 = run s := by
  unfold LoopThread.call
  split
  next => split <;> simp
  next => split <;> simp

end Run

/-! ### The event loop -/

variable [DecidableEq C]

/-- The context of `EXEC` is another one. -/
theorem modify_runs_ne {p : Place C} {f : LockContext → LockContext} (hp : p ≠ .exec) :
    Runs pre held s (s.modify p f) := by
  refine .of_kept (fun _ => ⟨rfl, rfl, fun _ h => h, fun hexec => ?_⟩) (List.Subset.refl _) rfl
  change (Function.update s.ctx p _ .exec).inTransc = false
  rwa [Function.update_of_ne hp.symm]

omit [DecidableEq C] in
theorem conn_ne_exec (c : C) : Place.conn c ≠ .exec := nofun

omit [DecidableEq C] in
/-- `Call`, with any handler. -/
theorem call_runs {p : Place C} {cmd : Cmd C} {run : LoopThread C → LoopThread C}
    (h : Runs pre held s (run s)) : Runs pre held s (s.call p cmd run).1 := by
  rcases @call_eq _ s run p cmd with heq | heq
  · rw [heq]
    exact .refl s
  · rw [heq]
    exact h

mutual

theorem runCmd_runs (p : Place C) : ∀ (cmd : Cmd C) {held} {s : LoopThread C},
    .pubsubCtx ∉ held.map Prod.fst → (p = .exec → cmd ≠ .multi) →
      Runs (s.inExec = true → p = .exec) held s (LoopThread.runCmd p cmd s)
  | .data touches, held, s, hfree, hcmd => touchAll_runs touches
  | .block touches keys, held, s, hfree, hcmd => .andThen (touchAll_runs touches) (blockOn_runs keys)
  | .watch, held, s, hfree, hcmd => hold_modify_runs (fun _ => rfl) (.inl rfl)
  | .unwatch, held, s, hfree, hcmd => unwatchKeys_runs
  | .multi, held, s, hfree, hcmd => by
    rw [LoopThread.runCmd]
    exact modify_runs_ne fun hp => hcmd hp rfl
  | .discard, held, s, hfree, hcmd => by
    rw [LoopThread.runCmd]
    split
    next => exact endTransc_runs
    next => exact .refl s
  | .exec aborted queue, held, s, hfree, hcmd => exec_runs hfree fun t ht => runQueue_runs queue ht
  | .quit, held, s, hfree, hcmd => .refl s
  | .shutdown, held, s, hfree, hcmd => .refl s
  | .subscribe kind args, held, s, hfree, hcmd =>
    .foldl (fun s name => subscribeChannel_runs hfree) args
  | .unsubscribe kind args found, held, s, hfree, hcmd => unSubscribe_runs hfree
  | .publish, held, s, hfree, hcmd => pubsub_runs hfree
  | .info clients stats, held, s, hfree, hcmd => by
    have hclients : Runs (s.inExec = true → p = .exec) held s (if clients then
        (s.hold .clients .exclusive id).hold .blockCtx .exclusive id else s) := by
      split
      next =>
        exact .andThen (leaf_runs (.inr (.inr rfl)) fun _ => rfl) (leaf_runs (.inr (.inl rfl)) fun _ => rfl)
      next => exact .refl s
    rw [LoopThread.runCmd]
    split
    next => exact hclients.andThen (pubsub_runs hfree)
    next => exact hclients
  | .client, held, s, hfree, hcmd => leaf_runs (.inr (.inr rfl)) fun _ => rfl
  | .eval isSHA1Func lookup script logged, held, s, hfree, hcmd => by
    have heval := @luaEval_runs _ _ s _ p isSHA1Func lookup hfree
      fun t ht => runSteps_runs script ht
    rw [LoopThread.runCmd]
    split
    next => exact heval.andThen (useScripts_runs hfree)
    next => exact heval
  | .scriptExists count, held, s, hfree, hcmd => .iterate (fun s => useScripts_runs hfree) count
  | .scriptLoad created, held, s, hfree, hcmd => by
    rw [LoopThread.runCmd]
    split
    next => exact useScripts_runs hfree
    next => exact .refl s
  | .scriptFlush, held, s, hfree, hcmd => flushScripts_runs hfree
  | .save rounds, held, s, hfree, hcmd => by
    rw [LoopThread.runCmd]
    split
    next hclient =>
      -- `EXEC` has no channel
      refine (runEvents_runs rounds hfree).mono fun hplace => ?_
      rw [← Bool.not_eq_true]
      intro hin
      rw [hplace hin] at hclient
      cases hclient
    next => exact .refl s

theorem runQueue_runs : ∀ (queue : List (Cmd C)) {held} {s : LoopThread C},
    .pubsubCtx ∉ held.map Prod.fst → Runs True held s (LoopThread.runQueue queue s)
  | [], held, s, hfree => .refl s
  | cmd :: queue, held, s, hfree => by
    rw [LoopThread.runQueue]
    refine .andThen ?_ (runQueue_runs queue hfree)
    split
    next hqueued =>
      refine (runCmd_runs .exec cmd hfree fun _ heq => ?_).mono fun _ _ => rfl
      rw [heq] at hqueued
      cases hqueued
    next => exact .refl s

theorem runStep_runs : ∀ (x : ScriptStep C) {held} {s : LoopThread C},
    .pubsubCtx ∉ held.map Prod.fst → Runs (ScriptPlace s) held s (LoopThread.runStep x s)
  | .call cmd, held, s, hfree => by
    rw [LoopThread.runStep]
    split
    next => exact .refl s
    next hscript =>
      refine runCmd_runs s.localCtx cmd hfree fun _ heq => ?_
      rw [heq] at hscript
      exact hscript rfl
  | .hook rounds, held, s, hfree => by
    rw [LoopThread.runStep]
    split
    next hclient =>
      refine (runEvents_runs rounds hfree).mono fun hplace => ?_
      rw [← Bool.not_eq_true]
      intro hin
      rw [hplace hin] at hclient
      cases hclient
    next => exact .refl s

theorem runSteps_runs : ∀ (xs : List (ScriptStep C)) {held} {s : LoopThread C},
    .pubsubCtx ∉ held.map Prod.fst → Runs (ScriptPlace s) held s (LoopThread.runSteps xs s)
  | [], held, s, hfree => .refl s
  | x :: xs, held, s, hfree => by
    rw [LoopThread.runSteps]
    refine (runStep_runs x hfree).trans (runSteps_runs xs hfree) fun hplace hkept hin => ?_
    rw [hkept.inExec] at hin
    exact hkept.localCtx hin (hplace hin)

theorem runEvent_runs : ∀ (e : Event C) {held} {s : LoopThread C},
    .pubsubCtx ∉ held.map Prod.fst → Runs (s.inExec = false) held s (LoopThread.runEvent e s)
  | .accept c trusted, held, s, hfree => by
    have hadd : Runs (s.inExec = false) held s
        ((s.modify (.conn c) fun _ => .init).hold .clients .exclusive id) :=
      (modify_runs_ne (conn_ne_exec c)).andThen (leaf_runs (.inr (.inr rfl)) fun _ => rfl)
    rw [LoopThread.runEvent]
    split
    next => exact hadd
    next => exact hadd.andThen (doClose_runs_free hfree)
  | .request c cmd closes, held, s, hfree => by
    -- behind the handler there may be a reply, and the channel may be closed
    have hrest (t : LoopThread C) (replies : Bool) (h : Runs (s.inExec = false) held s t) :
        Runs (s.inExec = false) held s (if closes then
          (if replies then t.write (.conn c) else t).doClose (.conn c)
          else if replies then t.write (.conn c) else t) := by
      have hwrite : Runs (s.inExec = false) held s (if replies then t.write (.conn c) else t) := by
        split
        next => exact h.andThen (write_runs_free hfree)
        next => exact h
      split
      next => exact hwrite.andThen (doClose_runs_free hfree)
      next => exact hwrite
    cases cmd with
    | none => exact hrest s true (.refl s)
    | some cmd =>
      refine hrest _ _ (call_runs ?_)
      refine (runCmd_runs (.conn c) cmd hfree nofun).mono fun hexec hin => ?_
      rw [hexec] at hin
      cases hin
  | .close c, held, s, hfree => doClose_runs_free hfree
  | .delete c, held, s, hfree => by
    rw [LoopThread.runEvent]
    exact modify_runs_ne (conn_ne_exec c)
  | .reset c n, held, s, hfree => by
    rw [LoopThread.runEvent]
    exact modify_runs_ne (conn_ne_exec c)
  | .message c, held, s, hfree => write_runs_free hfree
  | .wake c served, held, s, hfree => by
    have hblock : Runs (s.inExec = false) held s
        (s.modify (.conn c) fun x => { x with blocked := true }) := modify_runs_ne (conn_ne_exec c)
    rw [LoopThread.runEvent]
    split
    next => exact (hblock.andThen (write_runs_free hfree)).andThen clearBlockKeys_runs
    next => exact hblock
  | .timeout c, held, s, hfree => .andThen clearBlockKeys_runs (write_runs_free hfree)
  | .checkTimeouts, held, s, hfree => leaf_runs (.inr (.inr rfl)) fun _ => rfl
  | .replay cmd, held, s, hfree => by
    rw [LoopThread.runEvent]
    refine call_runs ((runCmd_runs .slave cmd hfree nofun).mono fun hexec hin => ?_)
    rw [hexec] at hin
    cases hin

theorem runEvents_runs : ∀ (es : List (Event C)) {held} {s : LoopThread C},
    .pubsubCtx ∉ held.map Prod.fst → Runs (s.inExec = false) held s (LoopThread.runEvents es s)
  | [], held, s, hfree => .refl s
  | e :: es, held, s, hfree => by
    rw [LoopThread.runEvents]
    refine (runEvent_runs e hfree).trans (runEvents_runs es hfree) fun hin hkept => ?_
    rw [hkept.inExec]
    exact hin

end

/-! ### Cycles -/

/-- What happens in a thread. -/
abbrev runThread (events : List (Event C)) : LoopThread C := LoopThread.runEvents events .init

/-- The threads of a server, in front of their first block. -/
def startThreads {T : Type} (threads : T → List (Event C)) : T → Locks.Thread Lock :=
  Locks.start fun t => (runThread (threads t)).trace

theorem runThread_obeys {events : List (Event C)} (h : Calm (runThread events).log) :
    ObeysAll (LockRule (runThread events).log) [] (runThread events).trace := by
  have hfits : Fits [] (LoopThread.init : LoopThread C) := by
    refine ⟨by simp [LoopThread.init], by simp [LoopThread.init], fun l hl => ?_, rfl⟩
    exact absurd hl List.not_mem_nil
  obtain ⟨-, new, hnew, hobeys⟩ :=
    (runEvents_runs events List.not_mem_nil).blocks rfl h (List.Subset.refl _) hfits
  have heq : (runThread events).trace = new := hnew
  rw [heq]
  exact hobeys

/-- Two levels: `m_pubsub_ctx_lock`, and the locks of keys and clients. -/
def Lock.rank : Lock → ℕ
  | .watchedKeys | .blockCtx | .clients => 1
  | _ => 0

theorem Nests.above {log : List Incident} {inExec : Bool} {l l' : Lock} (h : Nests log inExec l l')
    (hl : l ∉ core) : l' ∉ core ∧ l.rank < l'.rank := by
  cases l with
  | pubsubCtx => rcases h with rfl | rfl | rfl <;> simp [core, Lock.rank]
  | lua => exact absurd (by simp [core]) hl
  | scripts => exact absurd (by simp [core]) hl
  | transc => exact absurd (by simp [core]) hl
  | blockCtx => exact h.elim
  | watchedKeys => exact h.elim
  | clients => exact h.elim

section Cycle

variable {T : Type} {log : T → List Incident} {s : T → Locks.Thread Lock} {t : T} {D : Set T} {l : Lock}

/-- The lock is next. -/
def Wants (s : T → Locks.Thread Lock) (t : T) (l : Lock) : Prop := ∃ mode, (l, mode) ∈ (s t).wants

/-- A thread holds one lock and wants another one. -/
structure Between (log : T → List Incident) (s : T → Locks.Thread Lock) (t : T) (l l' : Lock) : Prop where
  holds : l ∈ (s t).locks
  wants : Wants s t l'
  free : l' ∉ (s t).locks
  nests : Nests (log t) (decide (.transc ∈ (s t).locks)) l l'

/-- Threads that wait for each other, all for locks of scripts and transactions. -/
structure CoreStuck (log : T → List Incident) (s : T → Locks.Thread Lock) (D : Set T) : Prop where
  inv : Locks.Inv (fun t => LockRule (log t)) {l | l.IsMutex} s
  stuck : Locks.Stuck s D
  core : ∀ t ∈ D, ∀ p ∈ (s t).wants, p.1 ∈ core

namespace CoreStuck

variable (h : CoreStuck log s D)

include h

theorem unique {u : T} (hl : l ∈ LockOrder.core) (ht : l ∈ (s t).locks) (hu : l ∈ (s u).locks) : t = u :=
  h.inv.unique (.inl hl) ht hu

/-- Whoever holds a lock that is wanted, wants one itself. -/
theorem next (ht : t ∈ D) (hl : Wants s t l) : ∃ u ∈ D, ∃ l' ∈ LockOrder.core, Between log s u l l' := by
  obtain ⟨mode, hwants⟩ := hl
  obtain ⟨u, hu, p, hp, hheld⟩ := h.stuck t ht
  obtain rfl := Option.some.inj (Eq.trans hwants.symm hp)
  obtain ⟨-, -, q, hq, -⟩ := h.stuck u hu
  have hrule := h.inv.allowed hq
  exact ⟨u, hu, q.1, h.core u hu q hq, hheld, ⟨q.2, hq⟩, hrule.notHeld, hrule.nests _ hheld⟩

/-- `m_scripts_lock` is held by `SCRIPT FLUSH`. -/
theorem next_scripts (ht : t ∈ D) (hl : Wants s t .scripts) : ∃ u ∈ D, Between log s u .scripts .lua := by
  obtain ⟨u, hu, l', hcore, hbetween⟩ := h.next ht hl
  rcases hcore with rfl | rfl | rfl
  · exact ⟨u, hu, hbetween⟩
  · exact absurd hbetween.holds hbetween.free
  · exact hbetween.nests.elim

/-- A script that waits for the table, and `SCRIPT FLUSH`. -/
theorem script_flush (horder : Orderly log) {u v : T} (hu : Between log s u .lua .scripts)
    (hv : Between log s v .scripts .lua) : False := by
  have hne : v ≠ u := fun heq => hu.free (heq ▸ hv.holds)
  obtain ⟨hvexec, huexec⟩ := horder.flush v u hne _ _ hv.nests hu.nests
  exact hne (h.unique (by simp [LockOrder.core]) (of_decide_eq_true hvexec) (of_decide_eq_true huexec))

/-- A script that waits for `EXEC`. -/
theorem script_exec (horder : Orderly log) {u v : T} (hv : v ∈ D) (hu : Between log s u .lua .transc)
    (hvheld : .transc ∈ (s v).locks) : False := by
  have hne : u ≠ v := fun heq => hu.free (heq ▸ hvheld)
  obtain ⟨-, -, q, hq, -⟩ := h.stuck v hv
  have hnests := (h.inv.allowed hq).nests _ hvheld
  obtain ⟨mode, hwants⟩ : Wants s v q.1 := ⟨q.2, hq⟩
  rcases h.core v hv q hq with hq' | hq' | hq'
  · rw [hq'] at hnests
    exact horder.exec u v hne hu.nests hnests
  · rw [hq'] at hnests hwants
    -- a third thread has the table
    obtain ⟨w, hw, hflush⟩ := h.next_scripts hv ⟨mode, hwants⟩
    have hvw : v ≠ w := fun heq => (h.inv.allowed hq).notHeld (hq' ▸ heq ▸ hflush.holds)
    have hwu : w ≠ u := fun heq => hflush.free (heq ▸ hu.holds)
    have hexec : decide (.transc ∈ (s w).locks) = false :=
      decide_eq_false fun hwheld => hvw (h.unique (by simp [LockOrder.core]) hvheld hwheld)
    have hnests' := hflush.nests
    rw [hexec] at hnests'
    exact horder.three u v w hne hvw hwu hu.nests hnests hnests'
  · exact (h.inv.allowed hq).notHeld (hq' ▸ hvheld)

theorem not_lua (horder : Orderly log) (ht : t ∈ D) (hl : Wants s t .lua) : False := by
  obtain ⟨u, hu, l', hcore, hbetween⟩ := h.next ht hl
  rcases hcore with rfl | rfl | rfl
  · exact hbetween.free hbetween.holds
  · obtain ⟨v, -, hflush⟩ := h.next_scripts hu hbetween.wants
    exact h.script_flush horder hbetween hflush
  · obtain ⟨v, hv, _, _, hheld⟩ := h.next hu hbetween.wants
    exact h.script_exec horder hv hbetween hheld.holds

/-- There are none. -/
theorem empty (horder : Orderly log) : t ∉ D := by
  intro ht
  have hscripts {u : T} (hu : u ∈ D) (hl : Wants s u .scripts) : False := by
    obtain ⟨v, hv, hflush⟩ := h.next_scripts hu hl
    exact h.not_lua horder hv hflush.wants
  obtain ⟨-, -, p, hp, -⟩ := h.stuck t ht
  have hwants : Wants s t p.1 := ⟨p.2, hp⟩
  rcases h.core t ht p hp with heq | heq | heq <;> rw [heq] at hwants
  · exact h.not_lua horder ht hwants
  · exact hscripts ht hwants
  · obtain ⟨u, hu, l', hcore, hbetween⟩ := h.next ht hwants
    rcases hcore with rfl | rfl | rfl
    · exact h.not_lua horder hu hbetween.wants
    · exact hscripts hu hbetween.wants
    · exact hbetween.free hbetween.holds

end CoreStuck

/-- What the rules give in a state. -/
theorem safe_of_inv (horder : Orderly log)
    (hinv : Locks.Inv (fun t => LockRule (log t)) {l | l.IsMutex} s) : Locks.Safe s where
  noReentry := by
    rintro t ⟨p, hp, hheld⟩
    exact (hinv.allowed hp).notHeld hheld
  noCycle := fun t hcycle => by
    obtain ⟨D, ht, hD⟩ := Locks.exists_stuck_of_cycle hcycle
    have hcore : ∀ t ∈ D, ∀ p ∈ (s t).wants, p.1 ∈ core := by
      refine @Locks.wants_core _ _ _ _ Lock.rank 2 (fun l => ?_) (fun t p hp l hl hlcore => ?_)
        _ hD
      · cases l <;> simp [Lock.rank]
      · exact ((hinv.allowed hp).nests l hl).above hlcore
    exact CoreStuck.empty ⟨hinv, hD, hcore⟩ horder ht

end Cycle

/-! ### Runs -/

/-- **Locks.** In every run of any number of threads that are in order, no thread tries to take a lock
that it holds, and no threads wait for each other in a cycle. -/
theorem locks_ordered {T : Type} [DecidableEq T] [Fintype T] (threads : T → List (Event C))
    (horder : Orderly fun t => (runThread (threads t)).log) (schedule : List T) :
    Run.Always Locks.step Locks.Safe (startThreads threads) schedule := by
  refine @Run.always_of_invariant _ _ _ (Locks.Inv _ {l | l.IsMutex}) _ (fun _ _ => True)
    (fun s t s' hs _ heq => hs.step (fun t held l mode hrule hl => hrule.mutex hl) heq)
    (fun s hs => safe_of_inv horder hs) _ _ ?_ (Run.along_of_forall fun _ _ => trivial)
  exact .start fun t => runThread_obeys (horder.calm t)

/-- A client with two channels, whose connection is lost when it leaves the first one. -/
def brokenUnsubscribe : List (Event ℕ) :=
  [.accept 0 true, .request 0 (some (.subscribe .channel [[97], [98]])) false, .reset 0 0,
    .request 0 (some (.unsubscribe .channel [[97]] true)) false]

/-- The notice closes the connection, which unsubscribes from the other channel: `m_pubsub_ctx_lock` is
held. -/
theorem notice_reenters :
    ¬∀ (threads : Fin 1 → List (Event ℕ)) (schedule : List (Fin 1)),
      Run.Always Locks.step Locks.Safe (startThreads threads) schedule := by
  intro hall
  have hrun : ((Run.steps Locks.step (startThreads fun _ : Fin 1 => brokenUnsubscribe)
      (List.replicate 7 0)).map fun s => ((s 0).wants, (s 0).locks)) =
        some (some (.pubsubCtx, .exclusive), [.pubsubCtx]) := by
    decide +kernel
  obtain ⟨s, hs, hboth⟩ := Option.map_eq_some_iff.mp hrun
  obtain ⟨hwants, hlocks⟩ := Prod.mk.inj hboth
  refine ((hall _ _).of_steps hs).noReentry 0 ⟨(.pubsubCtx, .exclusive), hwants, ?_⟩
  rw [hlocks]
  exact List.mem_singleton_self _

/-- `SCRIPT FLUSH` in one thread, and a script that is new in the other one. -/
def flushAndEval : Fin 2 → List (Event ℕ)
  | 0 => [.accept 0 true, .request 0 (some .scriptFlush) false]
  | 1 => [.accept 1 true, .request 1 (some (.eval false .created [] false)) false]

/-- The second thread has called `Eval` when the first one starts, and each waits for the other. -/
theorem flush_eval_cycle : ∃ s,
    Run.steps Locks.step (startThreads flushAndEval) [1, 1, 1, 1, 1, 0, 0, 0] = some s ∧
      Relation.TransGen (Locks.Waits s) 0 0 := by
  have hrun : ((Run.steps Locks.step (startThreads flushAndEval) [1, 1, 1, 1, 1, 0, 0, 0]).map fun s =>
      ((s 0).wants, (s 0).locks, (s 1).wants, (s 1).locks)) =
        some (some (.lua, .exclusive), [.scripts], some (.scripts, .exclusive), [.lua]) := by
    decide +kernel
  obtain ⟨s, hs, heq⟩ := Option.map_eq_some_iff.mp hrun
  simp only [Prod.mk.injEq] at heq
  obtain ⟨hwants, hlocks, hwants', hlocks'⟩ := heq
  have h01 : Locks.Waits s 0 1 := ⟨_, hwants, by simp [hlocks']⟩
  have h10 : Locks.Waits s 1 0 := ⟨_, hwants', by simp [hlocks]⟩
  exact ⟨s, hs, .tail (.single h01) h10⟩

/-- A script with a command of another client in the middle, and `EXEC` with a script. -/
def scriptsAndTransactions : Fin 2 → List (Event ℕ)
  | 0 => [.accept 0 true, .accept 1 true, .request 1 (some (.subscribe .channel [[97]])) false,
      .request 0 (some (.eval false .created
        [.call (.data [.changed]), .hook [.message 1, .request 1 (some (.unsubscribe .channel [] true)) false],
          .call .publish] false)) false, .reset 1 0, .message 1]
  | 1 => [.accept 2 true, .request 2 (some .watch) false, .request 2 (some .multi) false,
      .request 2 (some (.eval true .defined [.call (.data [.changed, .wakes])] false)) false,
      .request 2 (some (.exec false [.eval true .defined [.call (.data [.changed, .wakes])] false])) false,
      .close 2, .checkTimeouts]

/-- Two threads take turns. -/
theorem locks_ordered_two : Run.Always Locks.step Locks.Safe (startThreads scriptsAndTransactions)
    ((List.replicate 40 [0, 1]).flatten) :=
  locks_ordered scriptsAndTransactions
    ⟨fun t => ⟨by revert t; decide +kernel, by revert t; decide +kernel⟩, by decide +kernel,
      by decide +kernel, by decide +kernel⟩ _

end LockOrder
end Comms
