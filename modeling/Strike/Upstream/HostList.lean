/-
**The difference of two host lists** (`concreteclusters.go`).

`updateDynamicHostList` over any kind of hosts. The weight of a host that stays is set by a call which is a
parameter; in the repository it panics.

* `updateDynamicHostList_apart`: what it returns for hosts that are not there yet, whatever the call does.
* `hosts_differ`: the hosts it returns, where that call returns.
-/

import Strike.Go.Slice
import Strike.Lib.Keyed

namespace Strike.Upstream.DynamicClusterBase

open Lib

variable {H : Type}

/-- The variables of `updateDynamicHostList`. -/
structure Vars (H : Type) where
  hostAddrs : List String := []
  currentHosts : List H
  finalHosts : List H := []
  hostsAdded : List H := []
  deriving Repr, DecidableEq

/-- What `updateDynamicHostList` returns. -/
structure Difference (H : Type) where
  changed : Bool
  finalHosts : List H
  hostsAdded : List H
  hostsRemoved : List H
  deriving Repr, DecidableEq

section

variable (addressString : H → String) (setWeight : H → H → Except Panic H)

/-- The inner loop, for a new host `nh`: `passed` is `currentHosts[:i]`, and the last list the rest of it. -/
def search (nh : H) (passed finalHosts : List H) (found : Bool) : List H → Except Panic (List H × List H × Bool)
  | [] => .ok (passed, finalHosts, found)
  | curNh :: others =>
    if addressString nh = addressString curNh then do
      -- the host at `i` is cut out, and the next one moves there
      let curNh ← setWeight curNh nh
      search nh passed (finalHosts ++ [curNh]) true others
    else search nh (passed ++ [curNh]) finalHosts found others

/-- A round of the outer loop. -/
def Vars.round (v : Vars H) (nh : H) : Except Panic (Vars H) :=
  let nhAddr := addressString nh
  if nhAddr ∈ v.hostAddrs then .ok v
  else do
    let (currentHosts, finalHosts, found) ← search addressString setWeight nh [] v.finalHosts false v.currentHosts
    let v := { v with hostAddrs := v.hostAddrs ++ [nhAddr], currentHosts, finalHosts }
    if !found then return { v with finalHosts := v.finalHosts ++ [nh], hostsAdded := v.hostsAdded ++ [nh] }
    else return v

/-- `updateDynamicHostList`. -/
def updateDynamicHostList (newHosts currentHosts : List H) : Except Panic (Difference H) := do
  let v ← newHosts.foldlM (Vars.round addressString setWeight) { currentHosts }
  let hostsRemoved := if v.currentHosts.length > 0 then v.currentHosts else []
  return {
    changed := decide (v.hostsAdded.length > 0 ∨ hostsRemoved.length > 0)
    finalHosts := v.finalHosts
    hostsAdded := v.hostsAdded
    hostsRemoved }

end

/-! ### Hosts that are not there yet -/

section

variable {addressString : H → String} {setWeight : H → H → Except Panic H}

theorem search_apart {nh : H} {others : List H} (new : addressString nh ∉ others.map addressString) :
    ∀ passed finalHosts found, search addressString setWeight nh passed finalHosts found others =
      .ok (passed ++ others, finalHosts, found) := by
  induction others with
  | nil => simp [search]
  | cons curNh others ih =>
    intro passed finalHosts found
    rw [List.map_cons, List.mem_cons, not_or] at new
    rw [search, if_neg new.1, ih new.2, List.append_assoc, List.singleton_append]

/-- The rounds keep the first of each address and leave the current hosts. No weight is set. -/
theorem foldlM_round_apart {currentHosts : List H} (newHosts : List H)
    (apart : ∀ nh ∈ newHosts, addressString nh ∉ currentHosts.map addressString) :
    ∀ kept : List H, newHosts.foldlM (Vars.round addressString setWeight) ⟨kept.map addressString, currentHosts, kept, kept⟩ =
      .ok ⟨(newHosts.foldl (addNew addressString) kept).map addressString, currentHosts,
        newHosts.foldl (addNew addressString) kept, newHosts.foldl (addNew addressString) kept⟩ := by
  induction newHosts with
  | nil => exact fun _ => rfl
  | cons nh newHosts ih =>
    intro kept
    obtain ⟨new, later⟩ := List.forall_mem_cons.mp apart
    have round : Vars.round addressString setWeight ⟨kept.map addressString, currentHosts, kept, kept⟩ nh =
        .ok ⟨(addNew addressString kept nh).map addressString, currentHosts,
          addNew addressString kept nh, addNew addressString kept nh⟩ := by
      unfold Vars.round addNew
      by_cases old : addressString nh ∈ kept.map addressString
      · rw [if_pos old, if_pos old]
      · rw [if_neg old, if_neg old, search_apart new, List.map_append]
        rfl
    rw [List.foldlM_cons, round, List.foldl_cons]
    exact ih later _

/-- **Hosts that are not there yet** are all final, and the current ones are all removed. -/
theorem updateDynamicHostList_apart {newHosts currentHosts : List H}
    (apart : ∀ nh ∈ newHosts, addressString nh ∉ currentHosts.map addressString) :
    updateDynamicHostList addressString setWeight newHosts currentHosts = .ok {
      changed := decide (¬ (firsts addressString newHosts = [] ∧ currentHosts = []))
      finalHosts := firsts addressString newHosts
      hostsAdded := firsts addressString newHosts
      hostsRemoved := currentHosts } := by
  have rounds := @foldlM_round_apart _ addressString setWeight _ newHosts apart []
  rw [List.map_nil] at rounds
  rw [updateDynamicHostList, rounds, ← firsts]
  cases currentHosts <;> cases firsts addressString newHosts <;> rfl

end

/-! ### Where setting a weight returns -/

/-- A call that returns, and leaves the host the object it is. -/
def keepsHost (curNh _nh : H) : Except Panic H := .ok curNh

variable {addressString : H → String}

/-- **The inner loop**: the hosts at the address move, and the others stay in order. -/
theorem search_eq (nh : H) (others : List H) : ∀ (passed finalHosts : List H) (found : Bool),
      search addressString keepsHost nh passed finalHosts found others =
        .ok (passed ++ others.filter (addressString · ≠ addressString nh),
          finalHosts ++ others.filter (addressString · = addressString nh),
          found || others.any (addressString · = addressString nh)) := by
  induction others with
  | nil => simp [search]
  | cons curNh others ih =>
    intro passed finalHosts found
    rw [search]
    by_cases own : addressString curNh = addressString nh
    · rw [if_pos own.symm, keepsHost]
      simp only [bind, Except.bind]
      rw [ih]
      simp [own]
    · rw [if_neg (Ne.symm own), ih]
      simp [own]

/-- The host that stands for a new one: the current host at its address, if there is one. -/
def pick (addressString : H → String) (currentHosts : List H) (nh : H) : H :=
  (lookup addressString (addressString nh) currentHosts).getD nh

theorem addressString_pick (currentHosts : List H) (nh : H) :
    addressString (pick addressString currentHosts nh) = addressString nh := by
  unfold pick
  cases found : lookup addressString (addressString nh) currentHosts with
  | none => rfl
  | some curNh => simpa using List.find?_some found

/-- The variables where `kept` are the first of the new hosts so far. -/
def reached (addressString : H → String) (currentHosts kept : List H) : Vars H where
  hostAddrs := kept.map addressString
  currentHosts := currentHosts.filter (addressString · ∉ kept.map addressString)
  finalHosts := kept.map (pick addressString currentHosts)
  hostsAdded := kept.filter (addressString · ∉ currentHosts.map addressString)

theorem filter_left (currentHosts kept : List H) (nh : H) :
    (currentHosts.filter (addressString · ∉ kept.map addressString)).filter (addressString · ≠ addressString nh) =
      currentHosts.filter (addressString · ∉ (kept ++ [nh]).map addressString) := by
  rw [List.filter_filter]
  refine List.filter_congr fun curNh _ => ?_
  rw [List.map_append, List.map_singleton, ← Bool.decide_and, decide_eq_decide, List.mem_append, List.mem_singleton]
  tauto

/-- Among those that are left, the one at the address of a host that is not kept yet. -/
theorem filter_found {currentHosts kept : List H} {nh : H} (apart : (currentHosts.map addressString).Nodup)
    (new : addressString nh ∉ kept.map addressString) :
    (currentHosts.filter (addressString · ∉ kept.map addressString)).filter (addressString · = addressString nh) =
      (lookup addressString (addressString nh) currentHosts).toList := by
  rw [List.filter_filter, ← filter_key_eq_lookup currentHosts apart]
  refine List.filter_congr fun curNh _ => ?_
  rw [← Bool.decide_and, decide_eq_decide]
  constructor
  · exact fun both => both.1
  · exact fun own => ⟨own, own ▸ new⟩

/-- **A round keeps or adds the new host.** -/
theorem round_reached {currentHosts : List H} (apart : (currentHosts.map addressString).Nodup) (kept : List H) (nh : H) :
    (reached addressString currentHosts kept).round addressString keepsHost nh =
      .ok (reached addressString currentHosts (addNew addressString kept nh)) := by
  unfold Vars.round addNew
  by_cases old : addressString nh ∈ kept.map addressString
  · rw [if_pos old]
    exact if_pos old
  · rw [if_neg old]
    refine (if_neg old).trans ?_
    have found := filter_found apart old
    rw [search_eq]
    simp only [reached, bind, Except.bind, pure, Except.pure, filter_left, found, List.nil_append, Bool.false_or]
    cases there : lookup addressString (addressString nh) currentHosts with
    | none =>
      have none_ : (currentHosts.filter (addressString · ∉ kept.map addressString)).any
          (addressString · = addressString nh) = false := by
        rw [there, Option.toList_none, List.filter_eq_nil_iff] at found
        exact List.any_eq_false.mpr found
      have new : addressString nh ∉ currentHosts.map addressString := lookup_eq_none.mp there
      have own : pick addressString currentHosts nh = nh := by rw [pick, there, Option.getD_none]
      have added : (kept ++ [nh]).filter (addressString · ∉ currentHosts.map addressString) =
          kept.filter (addressString · ∉ currentHosts.map addressString) ++ [nh] := by
        rw [List.filter_append, List.filter_cons_of_pos (by simpa using new), List.filter_nil]
      rw [none_, added, List.map_append, List.map_append, List.map_singleton, List.map_singleton, own,
        Option.toList_none, List.append_nil]
      rfl
    | some curNh =>
      have some_ : (currentHosts.filter (addressString · ∉ kept.map addressString)).any
          (addressString · = addressString nh) = true := by
        have member : curNh ∈ (currentHosts.filter (addressString · ∉ kept.map addressString)).filter
            (addressString · = addressString nh) := by
          rw [found, there]
          exact List.mem_singleton.mpr rfl
        obtain ⟨left, own⟩ := List.mem_filter.mp member
        exact List.any_eq_true.mpr ⟨curNh, left, own⟩
      have current : addressString nh ∈ currentHosts.map addressString := by
        by_contra absent
        rw [lookup_eq_none.mpr absent] at there
        cases there
      have own : pick addressString currentHosts nh = curNh := by rw [pick, there, Option.getD_some]
      have added : (kept ++ [nh]).filter (addressString · ∉ currentHosts.map addressString) =
          kept.filter (addressString · ∉ currentHosts.map addressString) := by
        rw [List.filter_append, List.filter_cons_of_neg (by simpa using current), List.filter_nil, List.append_nil]
      rw [some_, added, List.map_append, List.map_append, List.map_singleton, List.map_singleton, own,
        Option.toList_some]
      rfl

theorem foldlM_round_reached {currentHosts : List H} (apart : (currentHosts.map addressString).Nodup) (newHosts : List H) :
    ∀ kept : List H, newHosts.foldlM (Vars.round addressString keepsHost) (reached addressString currentHosts kept) =
      .ok (reached addressString currentHosts (newHosts.foldl (addNew addressString) kept)) := by
  induction newHosts with
  | nil => exact fun _ => rfl
  | cons nh newHosts ih =>
    intro kept
    rw [List.foldlM_cons, round_reached apart, List.foldl_cons]
    exact ih _

theorem filter_map_pick (currentHosts kept : List H) :
    (kept.map (pick addressString currentHosts)).filter (addressString · ∉ currentHosts.map addressString) =
      kept.filter (addressString · ∉ currentHosts.map addressString) := by
  have same : ((addressString · ∉ currentHosts.map addressString) : H → Bool) ∘ pick addressString currentHosts =
      (addressString · ∉ currentHosts.map addressString) := by
    funext nh
    exact congrArg (fun address => decide (address ∉ currentHosts.map addressString)) (addressString_pick currentHosts nh)
  rw [List.filter_map, same]
  refine (List.map_congr_left fun nh there => ?_).trans (List.map_id _)
  have new : addressString nh ∉ currentHosts.map addressString := by simpa using (List.mem_filter.mp there).2
  rw [pick, lookup_eq_none.mpr new, Option.getD_none, id]

theorem filter_eq_nil_iff {hosts : List H} {addresses : List String} :
    hosts.filter (addressString · ∉ addresses) = [] ↔ ∀ address ∈ hosts.map addressString, address ∈ addresses := by
  simp [List.filter_eq_nil_iff]

/-- **The host list difference.** The final hosts are at the addresses of the new ones, each once and in the
order of their first occurrences, and those that were there already are the current hosts; the others are the
added ones; the removed ones are the current hosts at no new address; and there is a change exactly if the
addresses differ. -/
theorem hosts_differ (newHosts currentHosts : List H) (apart : (currentHosts.map addressString).Nodup) :
    ∃ d, updateDynamicHostList addressString keepsHost newHosts currentHosts = .ok d ∧
      d.finalHosts.map addressString = firsts id (newHosts.map addressString) ∧
      d.finalHosts = (firsts addressString newHosts).map (pick addressString currentHosts) ∧
      d.hostsAdded = d.finalHosts.filter (addressString · ∉ currentHosts.map addressString) ∧
      d.hostsRemoved = currentHosts.filter (addressString · ∉ newHosts.map addressString) ∧
      (d.changed = true ↔ ¬ ∀ address, address ∈ newHosts.map addressString ↔ address ∈ currentHosts.map addressString) := by
  have start : reached addressString currentHosts [] = { currentHosts } := by simp [reached]
  have rounds := foldlM_round_reached apart newHosts []
  rw [start, ← firsts] at rounds
  have addresses {address : String} :
      address ∈ (firsts addressString newHosts).map addressString ↔ address ∈ newHosts.map addressString := mem_firsts
  have picked : ((firsts addressString newHosts).map (pick addressString currentHosts)).map addressString =
      firsts id (newHosts.map addressString) := by
    rw [List.map_map, ← map_firsts]
    exact List.map_congr_left fun nh _ => addressString_pick currentHosts nh
  have added : (firsts addressString newHosts).filter (addressString · ∉ currentHosts.map addressString) =
      ((firsts addressString newHosts).map (pick addressString currentHosts)).filter
        (addressString · ∉ currentHosts.map addressString) := (filter_map_pick _ _).symm
  have removed : currentHosts.filter (addressString · ∉ (firsts addressString newHosts).map addressString) =
      currentHosts.filter (addressString · ∉ newHosts.map addressString) :=
    List.filter_congr fun curNh _ => decide_eq_decide.mpr (not_congr addresses)
  rw [updateDynamicHostList, rounds]
  have left (hosts : List H) : (if hosts.length > 0 then hosts else []) = hosts := by cases hosts <;> rfl
  refine ⟨_, rfl, picked, rfl, added, ?_, ?_⟩
  · exact (left _).trans removed
  · show decide (_ ∨ _) = true ↔ _
    rw [left, decide_eq_true_eq, gt_iff_lt, gt_iff_lt, List.length_pos_iff, List.length_pos_iff, ← not_and_or]
    simp only [reached]
    rw [removed, filter_eq_nil_iff, filter_eq_nil_iff]
    simp only [addresses]
    refine not_congr ⟨fun both address => ⟨both.1 address, both.2 address⟩, fun same => ?_⟩
    exact ⟨fun address => (same address).mp, fun address => (same address).mpr⟩

/-- The theorem at hosts of which one stays, one is new and given twice, and one is gone. -/
theorem hosts_differ_sample : (["a", "c"] : List String).Nodup ∧
      ∃ d, updateDynamicHostList (fun h : String × Nat => h.1) keepsHost [("b", 1), ("c", 1), ("b", 2)]
        [("a", 0), ("c", 0)] = .ok d ∧ d.finalHosts = [("b", 1), ("c", 0)] ∧ d.hostsAdded = [("b", 1)] ∧
        d.hostsRemoved = [("a", 0)] := by
  have apart : (["a", "c"] : List String).Nodup := by decide
  obtain ⟨d, ran, -, final, added, removed, -⟩ := @hosts_differ (String × Nat) (fun h => h.1)
    [("b", 1), ("c", 1), ("b", 2)] [("a", 0), ("c", 0)] apart
  rw [final] at added
  exact ⟨apart, d, ran, final, added, removed⟩

end Strike.Upstream.DynamicClusterBase
