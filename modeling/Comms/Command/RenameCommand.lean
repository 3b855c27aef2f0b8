import Comms.Command.Args
import Comms.Lib.Moves
import Mathlib.Data.List.Lex
import Mathlib.Order.Defs.LinearOrder

/-!
# Renamed commands

`rename-command` in `CommsConfig::Parse`, and `Comms::RenameCommand`, which moves the entries of the
settings table one after the other, in the order of the old names. The table does not tell upper
case from lower case; it is a `dense_hash_map` whose empty key is `""` and whose deleted key is
`"\n"`, neither of which may be inserted.

* `parseRenames`, `renameCommand`, `find` — from the source;
* `Renamed` — every command is found under its new name, or else under its own;
* `Orderly` — the condition on the map;
* `renamed_iff` — commands are renamed as the map says exactly if the map is orderly.

Names come out of a configuration file or of the environment, so they are C strings.
-/

namespace Comms
namespace RenameCommand

/-- `strcasecmp` and `RedisCommandHash` do not tell names apart that fold to the same. -/
def fold (name : Bytes) : Bytes := name.map toLower

/-- `StringStringMap`, in the order of its keys. -/
abbrev StringStringMap := List (Bytes × Bytes)

/-- `map[key] = value`. -/
def StringStringMap.set (map : StringStringMap) (key value : Bytes) : StringStringMap :=
  map.filter (·.1 < key) ++ (key, value) :: map.filter (key < ·.1)

/-- One line of `rename-command`: `rename_commands` and `newcmdset`. -/
def parseRename (s : StringStringMap × List Bytes) : List Bytes → StringStringMap × List Bytes
  | [old, new] => if new ∈ s.2 then s else (s.1.set old new, new :: s.2)
  | _ => s

/-- `rename_commands` after `Parse`. -/
def parseRenames (items : List (List Bytes)) : StringStringMap :=
  (items.foldl parseRename ([], [])).1

/-- The names of `settingTable`, which are in lower case. -/
structure SettingTable where
  names : List Bytes
  lower : ∀ c ∈ names, fold c = c

/-- A row of the settings table. -/
abbrev Setting (table : SettingTable) := { name : Bytes // name ∈ table.names }

/-- `m_settings`, by folded names. -/
abbrev Settings (table : SettingTable) := Bytes → Option (Setting table)

/-- `m_settings` after the constructor. -/
def Settings.init (table : SettingTable) : Settings table := fun name =>
  if h : name ∈ table.names then some ⟨name, h⟩ else none

section Commands

variable {table : SettingTable}

/-- `m_settings.find(name)`, in `FindRedisCommandHandlerSetting`. -/
def find (settings : Settings table) (name : Bytes) : Option (Setting table) :=
  settings (fold name)

/-- The body of the loop of `RenameCommand`; `none` where a reserved key is inserted. -/
def rename (settings : Settings table) (it : Bytes × Bytes) : Option (Settings table) :=
  if (find settings it.1).isSome ∧ (it.2 = [] ∨ it.2 = [10]) then none
  else some (Moves.move settings (fold it.1, fold it.2))

/-- `RenameCommand`. -/
def renameCommand (settings : Settings table) (renames : StringStringMap) :
    Option (Settings table) :=
  renames.foldlM rename settings

/-- **What renaming is for.** A command that the map renames is found under the new name only, in
any letter case, and every other one under its own. -/
structure Renamed (renames : StringStringMap) (settings : Settings table) : Prop where
  renamed : ∀ it ∈ renames, ∀ c : Setting table, fold it.1 = c →
    ∀ name, find settings name = some c ↔ fold name = fold it.2
  others : ∀ c : Setting table, (∀ it ∈ renames, fold it.1 ≠ c) →
    ∀ name, find settings name = some c ↔ fold name = c

/-- The folded names of the map. -/
def moves (renames : StringStringMap) : List (Bytes × Bytes) :=
  renames.map fun it => (fold it.1, fold it.2)

/-- Each command is followed through the map by itself: no two are ever led to the same name, each
ends at its new name, and none is led to a reserved key. -/
structure Orderly (table : SettingTable) (renames : StringStringMap) : Prop where
  apart : Moves.NeverMeet (moves renames) fun c : Setting table => c.1
  ends : ∀ it ∈ renames, fold it.1 ∈ table.names →
    Moves.follow (moves renames) (fold it.1) = fold it.2
  proper : ∀ pre it post, renames = pre ++ it :: post →
    (∃ c ∈ table.names, Moves.follow (moves pre) c = fold it.1) → it.2 ≠ [] ∧ it.2 ≠ [10]

/-! ### The table -/

variable {settings : Settings table} {renames : StringStringMap}

theorem init_startsAt : Moves.StartsAt (Settings.init table) fun c => c.1 := by
  rintro k ⟨c, hc⟩
  unfold Settings.init
  split
  · rw [Option.some.injEq, Subtype.mk.injEq]
    exact eq_comm
  · next hk =>
    refine iff_of_false (by rintro ⟨⟩) ?_
    rintro rfl
    exact hk hc

theorem home_injective : Function.Injective fun c : Setting table => c.1 := Subtype.val_injective

theorem renameCommand_concat (it : Bytes × Bytes) : renameCommand settings (renames ++ [it]) =
    (renameCommand settings renames).bind fun behind => rename behind it := by
  unfold renameCommand
  rw [List.foldlM_append]
  cases List.foldlM rename settings renames with
  | none => rfl
  | some behind => simp

theorem moves_concat (it : Bytes × Bytes) :
    moves (renames ++ [it]) = moves renames ++ [(fold it.1, fold it.2)] := List.map_append

/-- The loop moves the entries, unless it stops at a reserved key. -/
theorem eq_moveAll_of_renameCommand {behind : Settings table}
    (h : renameCommand settings renames = some behind) :
    behind = Moves.moveAll settings (moves renames) := by
  induction renames using List.reverseRecOn generalizing behind with
  | nil => exact (Option.some.inj h).symm
  | append_singleton renames it ih =>
    rw [renameCommand_concat] at h
    obtain ⟨mid, hmid, h⟩ := Option.bind_eq_some_iff.mp h
    unfold rename at h
    split at h
    · cases h
    · obtain rfl := Option.some.inj h
      rw [moves_concat, Moves.moveAll_concat, ih hmid]

/-- Where it does not stop. -/
theorem renameCommand_isSome_iff : (renameCommand settings renames).isSome ↔
    ∀ pre it post, renames = pre ++ it :: post →
      (Moves.moveAll settings (moves pre) (fold it.1)).isSome → it.2 ≠ [] ∧ it.2 ≠ [10] := by
  induction renames using List.reverseRecOn with
  | nil => exact iff_of_true rfl (by simp)
  | append_singleton renames it ih =>
    rw [renameCommand_concat]
    constructor
    · intro h pre jt post heq hsome
      obtain ⟨behind, h⟩ := Option.isSome_iff_exists.mp h
      obtain ⟨mid, hmid, hlast⟩ := Option.bind_eq_some_iff.mp h
      obtain rfl | ⟨post', last, rfl⟩ := List.eq_nil_or_concat' post
      · obtain ⟨rfl, hit⟩ := List.append_inj' heq rfl
        obtain rfl := List.singleton_inj.mp hit
        unfold rename find at hlast
        rw [eq_moveAll_of_renameCommand hmid] at hlast
        split at hlast
        · cases hlast
        · next hproper => exact not_or.mp fun hbad => hproper ⟨hsome, hbad⟩
      · rw [← List.cons_append, ← List.append_assoc] at heq
        obtain ⟨heq, -⟩ := List.append_inj' heq rfl
        exact ih.mp (by rw [hmid]; rfl) pre jt post' heq hsome
    · intro h
      obtain ⟨mid, hmid⟩ := Option.isSome_iff_exists.mp (ih.mpr fun pre jt post heq =>
        h pre jt (post ++ [it]) (by rw [heq, List.append_assoc, List.cons_append]))
      rw [hmid, Option.bind_some, rename, if_neg]
      · rfl
      · rintro ⟨hsome, hbad⟩
        unfold find at hsome
        rw [eq_moveAll_of_renameCommand hmid] at hsome
        have hproper := h renames it [] rfl hsome
        exact hbad.elim hproper.1 hproper.2

/-- **When renaming loses nothing.** For every settings table and every `rename-command` list, in
any letter case: `RenameCommand` comes to an end and every command is found under its name alone,
the new one if it has one, if and only if the map is orderly. -/
theorem renamed_iff (table : SettingTable) (items : List (List Bytes)) :
    (∃ behind, renameCommand (Settings.init table) (parseRenames items) = some behind ∧
      Renamed (parseRenames items) behind) ↔ Orderly table (parseRenames items) := by
  generalize parseRenames items = renames
  have hkept := @Moves.moveAll_follow_iff _ _ _ _ (moves renames) _ (@init_startsAt table)
    home_injective
  constructor
  · rintro ⟨behind, hsome, hren⟩
    have hbehind := eq_moveAll_of_renameCommand hsome
    have hplace (c : Setting table) (name : Bytes) (hname : find behind name = some c) :
        fold name = Moves.follow (moves renames) c := by
      unfold find at hname
      rw [hbehind] at hname
      exact Moves.eq_follow_of_moveAll init_startsAt hname
    have hfound (c : Setting table) : ∃ name, find behind name = some c := by
      by_cases hnew : ∃ it ∈ renames, fold it.1 = c
      · obtain ⟨it, hit, hc⟩ := hnew
        exact ⟨it.2, (hren.renamed it hit c hc it.2).mpr rfl⟩
      · refine ⟨c, (hren.others c (fun it hit hc => hnew ⟨it, hit, hc⟩) c).mpr ?_⟩
        exact table.lower c c.2
    have hmeet : Moves.NeverMeet (moves renames) fun c : Setting table => c.1 := by
      refine hkept.mp fun c => ?_
      obtain ⟨name, hname⟩ := hfound c
      rw [← hplace c name hname, ← hbehind]
      exact hname
    refine ⟨hmeet, fun it hit hc => ?_, fun pre it post heq ⟨c, hc, hfollow⟩ => ?_⟩
    · exact (hplace ⟨_, hc⟩ it.2 ((hren.renamed it hit ⟨_, hc⟩ rfl it.2).mpr rfl)).symm
    · refine renameCommand_isSome_iff.mp (by rw [hsome]; rfl) pre it post heq ?_
      have hpre : Moves.NeverMeet (moves pre) fun c : Setting table => c.1 := fun part hpart =>
        hmeet part (hpart.trans ⟨moves (it :: post), by rw [heq]; exact List.map_append.symm⟩)
      have hc' := (Moves.moveAll_follow_iff init_startsAt home_injective).mpr hpre ⟨c, hc⟩
      rw [← hfollow, hc']
      rfl
  · intro h
    have hall := hkept.mpr h.apart
    have hsome : (renameCommand (Settings.init table) renames).isSome := by
      refine renameCommand_isSome_iff.mpr fun pre it post heq hentry => ?_
      obtain ⟨c, hc⟩ := Option.isSome_iff_exists.mp hentry
      exact h.proper pre it post heq
        ⟨c, c.2, (Moves.eq_follow_of_moveAll init_startsAt hc).symm⟩
    obtain ⟨behind, hbehind⟩ := Option.isSome_iff_exists.mp hsome
    have hfind (c : Setting table) (name : Bytes) :
        find behind name = some c ↔ fold name = Moves.follow (moves renames) c := by
      unfold find
      rw [eq_moveAll_of_renameCommand hbehind]
      refine ⟨fun hname => Moves.eq_follow_of_moveAll init_startsAt hname, fun hname => ?_⟩
      rw [hname, hall c]
    refine ⟨behind, hbehind, fun it hit c hc name => ?_, fun c hnone name => ?_⟩
    · rw [hfind, ← hc, h.ends it hit (by rw [hc]; exact c.2)]
    · rw [hfind, Moves.follow_of_forall_ne]
      intro m hm
      obtain ⟨it, hit, rfl⟩ := List.mem_map.mp hm
      exact hnone it hit

/-! ### Simple maps and swaps -/

/-- A command that is followed through a map whose new names are not renamed again. -/
theorem follow_moves (h : ∀ it ∈ renames, ∀ jt ∈ renames, fold jt.1 ≠ fold it.2) (c : Bytes) :
    (∃ it ∈ renames, fold it.1 = c ∧ Moves.follow (moves renames) c = fold it.2) ∨
      ((∀ it ∈ renames, fold it.1 ≠ c) ∧ Moves.follow (moves renames) c = c) := by
  induction renames using List.reverseRecOn with
  | nil => exact .inr ⟨by simp, rfl⟩
  | append_singleton renames it ih =>
    rw [moves_concat, Moves.follow_concat]
    have hmem (jt : Bytes × Bytes) (hjt : jt ∈ renames) : jt ∈ renames ++ [it] :=
      List.mem_append_left _ hjt
    have hit : it ∈ renames ++ [it] := by simp
    obtain ⟨jt, hjt, hc, hfollow⟩ | ⟨hnone, hfollow⟩ :=
      ih fun jt hjt kt hkt => h jt (hmem jt hjt) kt (hmem kt hkt)
    · rw [hfollow, if_neg (h jt (hmem jt hjt) it hit)]
      exact .inl ⟨jt, hmem jt hjt, hc, rfl⟩
    · rw [hfollow]
      split
      · next heq => exact .inl ⟨it, hit, heq, rfl⟩
      · next hne =>
        refine .inr ⟨fun jt hjt => ?_, rfl⟩
        obtain hjt | hjt := List.mem_append.mp hjt
        · exact hnone jt hjt
        · obtain rfl := List.mem_singleton.mp hjt
          exact hne

/-- **Fresh names.** A map is orderly when its new names are neither commands nor old names, differ
for different commands and agree for the same, and are not reserved. -/
theorem orderly_of_fresh (hfresh : ∀ it ∈ renames, fold it.2 ∉ table.names)
    (hold : ∀ it ∈ renames, ∀ jt ∈ renames, fold jt.1 ≠ fold it.2)
    (hname : ∀ it ∈ renames, ∀ jt ∈ renames, fold it.1 = fold jt.1 ↔ fold it.2 = fold jt.2)
    (hproper : ∀ it ∈ renames, it.2 ≠ [] ∧ it.2 ≠ [10]) : Orderly table renames where
  apart := by
    rintro pre hpre ⟨c, hc⟩ ⟨d, hd⟩ hcd
    obtain ⟨part, hpart, rfl⟩ := List.prefix_map_iff.mp hpre
    have hmem := hpart.subset
    have hfollow := follow_moves fun it hit jt hjt => hold it (hmem hit) jt (hmem hjt)
    change Moves.follow (moves part) c = Moves.follow (moves part) d at hcd
    refine Subtype.ext ?_
    change c = d
    obtain ⟨it, hit, rfl, hc'⟩ | ⟨-, hc'⟩ := hfollow c <;>
      obtain ⟨jt, hjt, rfl, hd'⟩ | ⟨-, hd'⟩ := hfollow d <;> rw [hc', hd'] at hcd
    · exact (hname it (hmem hit) jt (hmem hjt)).mpr hcd
    · exact absurd (hcd ▸ hd) (hfresh it (hmem hit))
    · exact absurd (hcd ▸ hc) (hfresh jt (hmem hjt))
    · exact hcd
  ends it hit _ := by
    obtain ⟨jt, hjt, hc, hfollow⟩ | ⟨hnone, -⟩ := follow_moves hold (fold it.1)
    · rw [hfollow]
      exact (hname jt hjt it hit).mp hc
    · exact absurd rfl (hnone it hit)
  proper pre it post heq _ := hproper it (by simp [heq])

/-- `get` and `set`. -/
def twoCommands : SettingTable := ⟨[[103, 101, 116], [115, 101, 116]], by decide⟩

/-- A swap of two commands loses one of them. -/
theorem swap_loses_command : ¬∀ (table : SettingTable) (items : List (List Bytes)),
    ∃ behind, renameCommand (Settings.init table) (parseRenames items) = some behind ∧
      Renamed (parseRenames items) behind := by
  intro h
  obtain ⟨behind, hsome, hren⟩ :=
    h twoCommands [[[103, 101, 116], [115, 101, 116]], [[115, 101, 116], [103, 101, 116]]]
  have hget := (hren.renamed ([103, 101, 116], [115, 101, 116]) (by decide)
    ⟨[103, 101, 116], by decide⟩ rfl [115, 101, 116]).mpr rfl
  rw [eq_moveAll_of_renameCommand hsome] at hget
  revert hget
  decide

end Commands

end RenameCommand
end Comms
