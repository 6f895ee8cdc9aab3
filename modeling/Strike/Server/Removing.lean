/-
**Listeners are removed** (`handler.go`).

`RemoveListeners` ranges over the slice as it was at the start and cuts entries out of the same array. Behind
a cut it reads entries that have moved, the last of them twice, and a second cut at the end would be out of
bounds. Names are unique, so there is none.

* `removes_exactly`: in every registry that calls lead to, `RemoveListeners` takes away the listener with the
  name and no other.
-/

import Strike.Server.Listeners

namespace Strike.Server

open Lib Stls

section

variable {α κ : Type} [DecidableEq κ] (key : α → κ) (k : κ)

/-- `append(s[:i], s[i+1:]...)` where the first `len` entries of the array are in the slice. -/
def cutOut (array : List α) (len i : Nat) : List α :=
  array.take i ++ (array.take len).drop (i + 1) ++ array.drop (len - 1)

/-- The loop of `RemoveListeners` from `i` on, with the rounds that are left: the array, and the length of the
slice. -/
def removeLoop : (left i : Nat) → (array : List α) → (len : Nat) → Except Panic (List α × Nat)
  | 0, _, array, len => .ok (array, len)
  | left + 1, i, array, len =>
    match array[i]? with
    | none => .ok (array, len)
    | some l =>
      if key l = k then
        if i + 1 ≤ len then removeLoop left (i + 1) (cutOut array len i) (len - 1) else .error sliceBounds
      else removeLoop left (i + 1) array len

variable {key k}

theorem removeLoop_quiet {array : List α} {len : Nat} (left : Nat) :
    ∀ {i : Nat}, (∀ l ∈ array.drop i, key l ≠ k) → removeLoop key k left i array len = .ok (array, len) := by
  induction left with
  | zero => exact fun _ => rfl
  | succ left ih =>
    intro i others
    rw [removeLoop]
    cases at_ : array[i]? with
    | none => rfl
    | some l =>
      obtain ⟨bound, rfl⟩ := List.getElem?_eq_some_iff.mp at_
      rw [List.drop_eq_getElem_cons bound] at others
      obtain ⟨here, later⟩ := List.forall_mem_cons.mp others
      simp only [if_neg here]
      exact ih later

/-- The entries behind the cut move, and the last one stays where it was, too. -/
theorem cutOut_eq (front back : List α) (l : α) :
    cutOut (front ++ l :: back) (front ++ l :: back).length front.length =
      front ++ back ++ (l :: back).drop back.length := by
  have last : (front ++ l :: back).length - 1 = front.length + back.length := by
    rw [List.length_append, List.length_cons]
    omega
  have front₁ : front.drop (front.length + 1) = [] := List.drop_eq_nil_of_le (Nat.le_succ _)
  have front₂ : front.drop (front.length + back.length) = [] := List.drop_eq_nil_of_le (Nat.le_add_right _ _)
  rw [cutOut, last, List.take_length, List.take_left, List.drop_append, List.drop_append, front₁, front₂]
  simp

theorem mem_drop_cut (back : List α) (l : α) : ∀ l' ∈ (back ++ (l :: back).drop back.length).drop 1, l' ∈ back := by
  cases back with
  | nil => simp
  | cons next back =>
    intro l' there
    rw [List.cons_append, List.drop_one, List.tail_cons, List.length_cons, List.drop_succ_cons] at there
    rcases List.mem_append.mp there with there | there
    · exact List.mem_cons_of_mem _ there
    · exact List.mem_of_mem_drop there

/-- **The loop takes away the entry with the key.** -/
theorem removeLoop_cuts (back : List α) :
    ∀ (front : List α), ((front ++ back).map key).Nodup → (∀ l ∈ front, key l ≠ k) →
      ∃ array len, removeLoop key k back.length front.length (front ++ back) (front ++ back).length = .ok (array, len) ∧
        array.take len = (front ++ back).filter (key · ≠ k) := by
  induction back with
  | nil =>
    intro front _ others
    refine ⟨_, _, rfl, ?_⟩
    rw [List.append_nil, List.take_length]
    exact (List.filter_eq_self.mpr fun l there => decide_eq_true (others l there)).symm
  | cons l back ih =>
    intro front apart others
    have read : (front ++ l :: back)[front.length]? = some l := by simp
    rw [List.length_cons, removeLoop, read]
    simp only
    by_cases own : key l = k
    · -- the names are unique, so the rest of the loop finds nothing
      have later : ∀ l' ∈ back, key l' ≠ k := by
        rw [List.map_append, List.map_cons] at apart
        have unique := (List.nodup_cons.mp (List.nodup_append.mp apart).2.1).1
        exact fun l' there same => unique (own ▸ same ▸ List.mem_map_of_mem there)
      have inside : front.length + 1 ≤ (front ++ l :: back).length := by
        rw [List.length_append, List.length_cons]
        omega
      rw [if_pos own, if_pos inside, cutOut_eq, removeLoop_quiet]
      · refine ⟨_, _, rfl, ?_⟩
        have total : (front ++ l :: back).length - 1 = (front ++ back).length := by
          rw [List.length_append, List.length_append, List.length_cons]
          omega
        rw [total, List.take_left, List.filter_append, List.filter_cons_of_neg (by simpa using own)]
        rw [List.filter_eq_self.mpr fun l there => decide_eq_true (others l there),
          List.filter_eq_self.mpr fun l there => decide_eq_true (later l there)]
      · intro l' there
        have gone : front.drop (front.length + 1) = [] := List.drop_eq_nil_of_le (Nat.le_succ _)
        rw [List.append_assoc, List.drop_append, gone, List.nil_append, Nat.add_sub_cancel_left] at there
        exact later l' (mem_drop_cut back l l' there)
    · rw [if_neg own]
      have passed := ih (front ++ [l]) (by rwa [← List.append_cons]) fun l' there => by
        rcases List.mem_append.mp there with there | there
        · exact others l' there
        · rwa [List.mem_singleton.mp there]
      rwa [← List.append_cons, List.length_append] at passed

end

section

variable {κ ρ ν σ : Type}

/-- `RemoveListeners`. -/
def ConnHandler.removeListeners (ch : ConnHandler κ ρ ν σ) (name : Bytes) : Except Panic (ConnHandler κ ρ ν σ) := do
  let (array, len) ← removeLoop ActiveListener.name name ch.listeners.length 0 ch.listeners ch.listeners.length
  return { ch with listeners := array.take len }

/-- A call of the handler. -/
inductive RegistryCall (κ ρ ν σ : Type) where
  | addOrUpdate (call : Call κ ρ ν σ)
  | remove (name : Bytes)
  deriving Repr, DecidableEq

variable (newTLSConfig : TLSSettings κ → Except GoError TLSConfig)
variable [DecidableEq κ] [DecidableEq ρ] [DecidableEq ν] [DecidableEq σ]

/-- The registry as a machine. -/
def registry : Machine (ConnHandler κ ρ ν σ) (RegistryCall κ ρ ν σ) (Except Panic Unit) where
  step ch
    | .addOrUpdate call =>
      ((ch.addOrUpdateListener newTLSConfig call).1.map fun _ => (), (ch.addOrUpdateListener newTLSConfig call).2)
    | .remove name =>
      match ch.removeListeners name with
      | .ok ch' => (.ok (), ch')
      | .error cause => (.error cause, ch)

omit [DecidableEq κ] [DecidableEq ρ] [DecidableEq ν] [DecidableEq σ] in
theorem removeListeners_eq {ch : ConnHandler κ ρ ν σ} (names : (ch.listeners.map ActiveListener.name).Nodup) (name : Bytes) :
    ch.removeListeners name = .ok { ch with listeners := ch.listeners.filter (·.name ≠ name) } := by
  obtain ⟨array, len, looped, taken⟩ := removeLoop_cuts (k := name) ch.listeners [] names (by simp)
  rw [List.length_nil, List.nil_append] at looped
  rw [List.nil_append] at taken
  rw [ConnHandler.removeListeners, looped, ← taken]
  rfl

theorem registry_names {ch : ConnHandler κ ρ ν σ} (names : (ch.listeners.map ActiveListener.name).Nodup)
    (call : RegistryCall κ ρ ν σ) : (((registry newTLSConfig).step ch call).2.listeners.map ActiveListener.name).Nodup := by
  cases call with
  | remove name =>
    simp only [registry, removeListeners_eq names]
    exact names.sublist (List.filter_sublist.map _)
  | addOrUpdate call =>
    show ((ch.addOrUpdateListener newTLSConfig call).2.listeners.map ActiveListener.name).Nodup
    have does := addOrUpdateListener_does newTLSConfig ch call
    generalize ch.addOrUpdateListener newTLSConfig call = result at does ⊢
    cases does with
    | panics cause => exact names
    | fails err => exact names
    | repeats found there same => exact names
    | updates found there differs =>
      rw [map_key_alter fun al => (al.update_spec call).1]
      exact names
    | adds absent made =>
      exact nodup_append_new names absent (newActiveListener_made newTLSConfig made).1

/-- **Removing a listener keeps the rest.** In every registry that calls lead to, `RemoveListeners` does not
panic, removes the listener of the name if there is one, and keeps all others in their order. -/
theorem removes_exactly (calls : List (RegistryCall κ ρ ν σ)) (name : Bytes) :
    let ch := ((registry newTLSConfig).run {} calls).2
    ch.removeListeners name = .ok { ch with listeners := ch.listeners.filter (·.name ≠ name) } ∧
      ch.listeners.filter (·.name = name) = (ch.findActiveListenerByName name).toList := by
  intro ch
  have names : (ch.listeners.map ActiveListener.name).Nodup :=
    Machine.run_keeps (P := fun ch : ConnHandler κ ρ ν σ => (ch.listeners.map ActiveListener.name).Nodup)
      (fun names => registry_names newTLSConfig names _) calls List.nodup_nil
  exact ⟨removeListeners_eq names name, filter_key_eq_lookup _ names⟩

end

end Strike.Server
