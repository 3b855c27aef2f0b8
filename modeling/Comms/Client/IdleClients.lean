import Comms.Lib.Cursor
import Mathlib.Algebra.Order.Ring.Int

/-!
# Clients that time out

`ConnectionTimeout::Run` of `cron.cpp`: every 100 milliseconds it goes over at most a hundred
clients and asks for the ones that have been idle to be closed. It starts at the client it has
looked at last, which is kept in a static variable, and never goes back to the first.

* `ConnectionTimeout.run` — from the source;
* `Server.step` — connections that come and go, and runs;
* `Watched` — the clients are examined, and closed when they should be;
* `watched_iff` — that is so if and only if no client is below `last_check_id` and no idle time
  comes out wrong.
-/

namespace Comms
namespace IdleClients

/-- A key of `ContextTable`. -/
abbrev ChannelId := ℕ

/-- What a run looks at in a `Context`. Another thread may write it at any time. -/
structure Context where
  processing : Bool
  /-- `last_interaction_ustime`, as the `uint64` it is in the subtraction. -/
  lastInteraction : UInt64
deriving DecidableEq, Repr

/-- The keys of a `ContextTable`, in order. -/
structure ContextTable where
  ids : List ChannelId
  sorted : ids.Pairwise (· < ·)

namespace ContextTable

def empty : ContextTable := ⟨[], .nil⟩

/-- `m_clients[id] = &ctx`, in `AddClientContext`. -/
def insert (table : ContextTable) (id : ChannelId) : ContextTable where
  ids := table.ids.filter (· < id) ++ id :: table.ids.filter (id < ·)
  sorted := by
    have hbelow : ∀ a ∈ table.ids.filter (· < id), a < id := fun a ha => by
      simpa using (List.mem_filter.mp ha).2
    have habove : ∀ b ∈ table.ids.filter (id < ·), id < b := fun b hb => by
      simpa using (List.mem_filter.mp hb).2
    refine List.pairwise_append.mpr ⟨table.sorted.filter _,
      List.pairwise_cons.mpr ⟨habove, table.sorted.filter _⟩, fun a ha b hb => ?_⟩
    obtain rfl | hb := List.mem_cons.mp hb
    · exact hbelow a ha
    · exact (hbelow a ha).trans (habove b hb)

/-- `m_clients.erase(id)`, in `FreeClientContext`. -/
def erase (table : ContextTable) (id : ChannelId) : ContextTable where
  ids := table.ids.filter (· ≠ id)
  sorted := table.sorted.filter _

end ContextTable

/-- `m_clients` and the static `last_check_id`. -/
structure Server where
  clients : ContextTable
  lastCheckId : ChannelId

/-- What a run reads besides: the timeout, and of each client the context and the clock. -/
structure Pass where
  timeout : ℤ
  context : ChannelId → Context
  clock : ChannelId → UInt64

namespace ConnectionTimeout

/-- `max_check`. -/
def maxCheck : ℕ := 100

/-- The condition in front of `AsyncIO`, in `uint64`. -/
def asksClose (pass : Pass) (id : ChannelId) : Bool :=
  !(pass.context id).processing &&
    pass.timeout * 1000000 % 2 ^ 64 < (pass.clock id - (pass.context id).lastInteraction).toNat

/-- The loop: the new `last_check_id`, and of each client that is looked at whether it is to be
closed. -/
def loop (pass : Pass) : List ChannelId → ChannelId → ℕ → ChannelId × List (ChannelId × Bool)
  | [], lastCheckId, _ => (lastCheckId, [])
  | id :: rest, _, cursor =>
    if maxCheck ≤ cursor + 1 then (id, [(id, asksClose pass id)])
    else
      let behind := loop pass rest id (cursor + 1)
      (behind.1, (id, asksClose pass id) :: behind.2)

/-- `Run`. -/
def run (s : Server) (pass : Pass) : Server × List (ChannelId × Bool) :=
  if pass.timeout = 0 then (s, [])
  else
    let checked := loop pass (s.clients.ids.dropWhile (· < s.lastCheckId)) s.lastCheckId 0
    ({ s with lastCheckId := checked.1 }, checked.2)

/-- Runs one after the other, and what each has looked at. -/
def runs : Server → List Pass → List (Pass × List (ChannelId × Bool))
  | _, [] => []
  | s, pass :: passes => (pass, (run s pass).2) :: runs (run s pass).1 passes

end ConnectionTimeout

open ConnectionTimeout

/-- What changes the table and the cursor. -/
inductive Action
  | connect (id : ChannelId)
  | disconnect (id : ChannelId)
  | run (pass : Pass)

def Server.step (s : Server) : Action → Server
  | .connect id => { s with clients := s.clients.insert id }
  | .disconnect id => { s with clients := s.clients.erase id }
  | .run pass => (ConnectionTimeout.run s pass).1

/-- The server after a history. -/
def Server.after (history : List Action) : Server := history.foldl Server.step ⟨.empty, 0⟩

/-! ### What should happen -/

/-- The client has been idle for more than `timeout` seconds, and no command of it is being
processed. -/
def Idle (pass : Pass) (id : ChannelId) : Prop :=
  (pass.context id).processing = false ∧
    pass.timeout * 1000000 <
      ((pass.clock id).toNat : ℤ) - (pass.context id).lastInteraction.toNat

/-- **What the task is for.** Every client is looked at in one of the runs, and a run asks for a
client to be closed exactly if it looks at it and the client is idle. -/
structure Watched (s : Server) (passes : List Pass) : Prop where
  examined : ∀ id ∈ s.clients.ids, ∃ r ∈ runs s passes, id ∈ r.2.map Prod.fst
  closed : ∀ r ∈ runs s passes, ∀ id, (id, true) ∈ r.2 ↔ id ∈ r.2.map Prod.fst ∧ Idle r.1 id

/-- The client has not been active after the clock was read and the timeout is a number of 64 bits,
so that the difference is the idle time; or it is not asked for all the same. -/
def Exact (pass : Pass) (id : ChannelId) : Prop :=
  ((pass.context id).lastInteraction ≤ pass.clock id ∧ pass.timeout * 1000000 < 2 ^ 64) ∨
    asksClose pass id = false

/-! ### A run -/

section Run

variable {s : Server} {pass : Pass}

/-- A run takes what the scan takes. -/
theorem loop_eq (ids : List ChannelId) (lastCheckId : ChannelId) {cursor : ℕ}
    (hcursor : cursor < maxCheck) :
    loop pass ids lastCheckId cursor = ((ids.take (maxCheck - cursor)).getLastD lastCheckId,
      (ids.take (maxCheck - cursor)).map fun id => (id, asksClose pass id)) := by
  induction ids generalizing lastCheckId cursor with
  | nil => simp [loop]
  | cons id rest ih =>
    obtain ⟨k, hk⟩ := Nat.exists_eq_add_of_lt hcursor
    rw [show maxCheck - cursor = k + 1 by omega, List.take_succ_cons, List.getLastD_cons,
      List.map_cons, loop]
    split
    · obtain rfl : k = 0 := by omega
      rfl
    · rw [ih id (by omega), show maxCheck - (cursor + 1) = k by omega]

theorem run_eq (h : 0 < pass.timeout) :
    run s pass = ({ s with lastCheckId := Cursor.next maxCheck s.lastCheckId s.clients.ids },
      (Cursor.window maxCheck s.lastCheckId s.clients.ids).map fun id =>
        (id, asksClose pass id)) := by
  unfold run
  rw [if_neg h.ne', loop_eq _ _ (by decide)]
  rfl

/-- The runs and what the scan takes for each of them. -/
def scanned (s : Server) (passes : List Pass) : List (Pass × ChannelId × List ChannelId) :=
  passes.zip (Cursor.windows maxCheck s.clients.ids passes.length s.lastCheckId)

theorem runs_eq {passes : List Pass} (h : ∀ p ∈ passes, 0 < p.timeout) :
    runs s passes =
      (scanned s passes).map fun x => (x.1, x.2.2.map fun id => (id, asksClose x.1 id)) := by
  induction passes generalizing s with
  | nil => rfl
  | cons p passes ih =>
    obtain ⟨hp, hpasses⟩ := List.forall_mem_cons.mp h
    rw [runs, ih hpasses, run_eq hp]
    rfl

/-- A client is asked for when it is idle, exactly if its idle time comes out right. -/
theorem asksClose_iff_idle {id : ChannelId} (htimeout : 0 < pass.timeout) :
    (asksClose pass id = true ↔ Idle pass id) ↔ Exact pass id := by
  unfold Exact
  have hclock := (pass.clock id).toNat_lt
  by_cases hright :
    (pass.context id).lastInteraction ≤ pass.clock id ∧ pass.timeout * 1000000 < 2 ^ 64
  · refine iff_of_true ?_ (.inl hright)
    have hdiff := UInt64.toNat_sub_of_le _ _ hright.1
    have hle := UInt64.le_iff_toNat_le.mp hright.1
    unfold asksClose Idle
    rw [Bool.and_eq_true, Bool.not_eq_true', decide_eq_true_iff, hdiff]
    refine and_congr_right fun _ => ?_
    omega
  · -- the difference wraps, or the timeout does: no client can have been idle for so long
    have hidle : ¬Idle pass id := by
      rintro ⟨-, hlt⟩
      rw [UInt64.le_iff_toNat_le] at hright
      omega
    rw [iff_false_right hidle, or_iff_right hright, Bool.not_eq_true]

/-- The clients that are looked at. -/
theorem examined_iff {passes : List Pass} (h : ∀ p ∈ passes, 0 < p.timeout) {id : ChannelId} :
    (∃ r ∈ runs s passes, id ∈ r.2.map Prod.fst) ↔
      ∃ w ∈ Cursor.windows maxCheck s.clients.ids passes.length s.lastCheckId, id ∈ w.2 := by
  have hwindows : (scanned s passes).map Prod.snd =
      Cursor.windows maxCheck s.clients.ids passes.length s.lastCheckId :=
    List.map_snd_zip (by rw [Cursor.windows_length])
  rw [runs_eq h, ← hwindows]
  constructor
  · rintro ⟨r, hr, hid⟩
    obtain ⟨x, hx, rfl⟩ := List.mem_map.mp hr
    rw [List.map_map] at hid
    obtain ⟨j, hj, rfl⟩ := List.mem_map.mp hid
    exact ⟨x.2, List.mem_map_of_mem hx, hj⟩
  · rintro ⟨w, hw, hid⟩
    obtain ⟨x, hx, rfl⟩ := List.mem_map.mp hw
    refine ⟨_, List.mem_map_of_mem hx, ?_⟩
    rw [List.map_map]
    exact List.mem_map_of_mem hid

/-- The clients that are asked for, of those a run looks at. -/
theorem closed_iff {ids : List ChannelId} (htimeout : 0 < pass.timeout) :
    (∀ id, (id, true) ∈ ids.map (fun id => (id, asksClose pass id)) ↔
      id ∈ (ids.map fun id => (id, asksClose pass id)).map Prod.fst ∧ Idle pass id) ↔
      ∀ id ∈ ids, Exact pass id := by
  rw [List.map_map]
  refine forall_congr' fun id => ?_
  have hfst : id ∈ ids.map (Prod.fst ∘ fun id => (id, asksClose pass id)) ↔ id ∈ ids := by
    simp [Function.comp_def]
  have hasked : (id, true) ∈ ids.map (fun id => (id, asksClose pass id)) ↔
      id ∈ ids ∧ asksClose pass id = true := by
    simp
  rw [hfst, hasked, ← asksClose_iff_idle htimeout]
  exact and_congr_right_iff

end Run

/-! ### The clients of a server -/

/-- **Who is watched.** After every history of connections and runs, let the set of clients stay as
it is and the task run at least as often as there are clients, with any contexts, clocks and
timeouts: every client is examined, and closed if and only if it is idle, exactly if no client is
below `last_check_id` and the idle time of every client that is looked at comes out right. -/
theorem watched_iff (history : List Action) (passes : List Pass)
    (hlen : (Server.after history).clients.ids.length ≤ passes.length)
    (htimeout : ∀ p ∈ passes, 0 < p.timeout) :
    Watched (Server.after history) passes ↔
      (∀ id ∈ (Server.after history).clients.ids, (Server.after history).lastCheckId ≤ id) ∧
        ∀ x ∈ scanned (Server.after history) passes, ∀ id ∈ x.2.2, Exact x.1 id := by
  set s := Server.after history
  have hexamined : (∀ id ∈ s.clients.ids, ∃ r ∈ runs s passes, id ∈ r.2.map Prod.fst) ↔
      ∀ id ∈ s.clients.ids, s.lastCheckId ≤ id := by
    refine forall₂_congr fun id hid => (examined_iff htimeout).trans ⟨?_, fun hle => ?_⟩
    · exact Cursor.le_of_mem_windows s.clients.sorted
    · have hahead := (s.clients.ids.dropWhile_suffix (· < s.lastCheckId)).length_le
      exact Cursor.mem_windows s.clients.sorted (hahead.trans hlen) (Cursor.mem_dropWhile hid hle)
  have hclosed : (∀ r ∈ runs s passes, ∀ id,
      (id, true) ∈ r.2 ↔ id ∈ r.2.map Prod.fst ∧ Idle r.1 id) ↔
      ∀ x ∈ scanned s passes, ∀ id ∈ x.2.2, Exact x.1 id := by
    rw [runs_eq htimeout, List.forall_mem_map]
    exact forall₂_congr fun x hx => closed_iff (htimeout x.1 (List.of_mem_zip hx).1)
  rw [← hexamined, ← hclosed]
  exact ⟨fun h => ⟨h.examined, h.closed⟩, fun h => ⟨h.1, h.2⟩⟩

/-- A pass that asks for nobody. -/
def quietPass : Pass := ⟨1, fun _ => ⟨false, 0⟩, fun _ => 0⟩

/-- One client, which was there before the first run. -/
theorem watched_iff_one :
    (([quietPass] : List Pass).length = 1 ∧ 0 < quietPass.timeout) ∧
      (Watched (Server.after [.connect 1]) [quietPass] ↔
        (∀ id ∈ (Server.after [.connect 1]).clients.ids,
            (Server.after [.connect 1]).lastCheckId ≤ id) ∧
          ∀ x ∈ scanned (Server.after [.connect 1]) [quietPass], ∀ id ∈ x.2.2, Exact x.1 id) :=
  ⟨by decide, watched_iff [.connect 1] [quietPass] (by decide) (by decide)⟩

/-- After a run over two clients only the second is looked at. -/
theorem first_client_forgotten :
    ¬∀ (history : List Action) (passes : List Pass),
      (Server.after history).clients.ids.length ≤ passes.length →
        (∀ p ∈ passes, 0 < p.timeout) → Watched (Server.after history) passes := by
  intro h
  have hwatched := h [.connect 1, .connect 2, .run quietPass] [quietPass, quietPass] (by decide)
    (by decide)
  obtain ⟨r, hr, hid⟩ := hwatched.examined 1 (by decide)
  revert r
  decide

end IdleClients
end Comms
