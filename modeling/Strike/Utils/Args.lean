/-
**Lists of key-value pairs** (`utils/args.go`).

The pairs of a recycled list are always overwritten from their first byte on, so a list is modelled by
the pairs within its length.
-/

import Strike.Go.Bytes

namespace Strike

/-- `ArgsKV`. -/
structure ArgsKV where
  key : Bytes
  value : Bytes
  deriving DecidableEq, Repr

/-- `PeekArgBytes`; the empty string stands for `nil`. -/
def peekArg (h : List ArgsKV) (key : Bytes) : Bytes :=
  match h.find? fun kv => kv.key = key with
  | some kv => kv.value
  | none => []

/-- The value under a key, where it has one. -/
def getArg (h : List ArgsKV) (key : Bytes) : Option Bytes := (h.find? fun kv => kv.key = key).map (·.value)

/-- `AppendArg`. -/
def appendArg (args : List ArgsKV) (key value : Bytes) : List ArgsKV := args ++ [⟨key, value⟩]

/-- `SetArg`. -/
def setArg : List ArgsKV → Bytes → Bytes → List ArgsKV
  | [], key, value => appendArg [] key value
  | kv :: rest, key, value =>
    if key = kv.key then ⟨kv.key, value⟩ :: rest else kv :: setArg rest key value

/-- `DelAllArgs`. The loop goes on behind the pair that moved into the place of a deleted one. -/
def delAllArgs : List ArgsKV → Bytes → List ArgsKV
  | [], _ => []
  | [kv], key => if key = kv.key then [] else [kv]
  | kv :: next :: rest, key =>
    if key = kv.key then next :: delAllArgs rest key else kv :: delAllArgs (next :: rest) key

theorem peekArg_eq (args : List ArgsKV) (key : Bytes) : peekArg args key = (getArg args key).getD [] := by
  unfold peekArg getArg
  cases args.find? fun kv => kv.key = key with
  | none => rfl
  | some kv => rfl

theorem getArg_setArg_self (args : List ArgsKV) (key value : Bytes) :
    getArg (setArg args key value) key = some value := by
  induction args with
  | nil => simp [getArg, setArg, appendArg]
  | cons kv rest ih =>
    unfold setArg
    by_cases same : key = kv.key
    · rw [if_pos same]
      unfold getArg
      rw [List.find?_cons_of_pos (by simpa using same.symm)]
      rfl
    · rw [if_neg same]
      unfold getArg at ih ⊢
      rw [List.find?_cons_of_neg (by simpa using Ne.symm same)]
      exact ih

theorem getArg_setArg_of_ne {key other : Bytes} (differ : key ≠ other) (args : List ArgsKV) (value : Bytes) :
    getArg (setArg args key value) other = getArg args other := by
  induction args with
  | nil =>
    unfold getArg setArg appendArg
    rw [List.nil_append, List.find?_cons_of_neg (by simpa using differ)]
  | cons kv rest ih =>
    unfold setArg
    split
    · next same =>
        unfold getArg
        rw [List.find?_cons_of_neg (by simpa [← same] using differ),
          List.find?_cons_of_neg (by simpa [← same] using differ)]
    · unfold getArg at ih ⊢
      by_cases here : kv.key = other
      · rw [List.find?_cons_of_pos (by simpa using here), List.find?_cons_of_pos (by simpa using here)]
      · rw [List.find?_cons_of_neg (by simpa using here), List.find?_cons_of_neg (by simpa using here)]
        exact ih

end Strike
