/-
**Header maps** (`protocol.CommonHeader`, `types/exception.go`).

A `map[string]string`, kept as its pairs, one a key.
-/

import Strike.Utils.Args

namespace Strike

theorem getArg_filter_of_ne {key other : Bytes} (differ : other ≠ key) (args : List ArgsKV) :
    getArg (args.filter (·.key ≠ key)) other = getArg args other := by
  unfold getArg
  rw [List.find?_filter]
  congr 2
  funext kv
  by_cases here : kv.key = other
  · simp [here, differ]
  · simp [here]

/-- `CommonHeader`. -/
def CommonHeader : Type := List ArgsKV

instance : DecidableEq CommonHeader := inferInstanceAs (DecidableEq (List ArgsKV))

instance : Repr CommonHeader := inferInstanceAs (Repr (List ArgsKV))

namespace CommonHeader

/-- The empty map. -/
def empty : CommonHeader := ([] : List ArgsKV)

/-- `Get`. -/
def get (h : CommonHeader) (key : Bytes) : Option Bytes := getArg h key

/-- `Set`. -/
def set (h : CommonHeader) (key value : Bytes) : CommonHeader := setArg h key value

/-- `Del`. -/
def del (h : CommonHeader) (key : Bytes) : CommonHeader := List.filter (fun kv : ArgsKV => kv.key ≠ key) h

theorem get_del_of_ne {key other : Bytes} (differ : other ≠ key) (h : CommonHeader) :
    (h.del key).get other = h.get other := getArg_filter_of_ne differ h

@[simp] theorem get_set_self (h : CommonHeader) (key value : Bytes) : (h.set key value).get key = some value :=
  getArg_setArg_self h key value

theorem get_set_of_ne {key other : Bytes} (differ : key ≠ other) (h : CommonHeader) (value : Bytes) :
    (h.set key value).get other = h.get other := getArg_setArg_of_ne differ h value

end CommonHeader

/-- `HeaderStatus`. -/
def headerStatus : Bytes := ascii "x-strike-status"

/-- `SuccessCode`. -/
def successCode : Nat := 200

/-- `Unauthorized`. -/
def unauthorized : Nat := 401

/-- `RouterUnavailableCode`. -/
def routerUnavailableCode : Nat := 404

/-- `LimitExceededCode`. -/
def limitExceededCode : Nat := 509

/-- `strconv.Itoa` of a code. -/
def itoa (code : Nat) : Bytes := ascii (toString code)

end Strike
