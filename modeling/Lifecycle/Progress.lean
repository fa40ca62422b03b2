import Lifecycle.Json.Record

/-!
# Progress records

The progress record is all that survives between two passes of an operation:
the model as known so far, marks that steps have set, counters, and identifiers
that earlier steps found for later ones. A step's marks live in one dictionary
under its name (request sent), its name with `#cooled` (cool-down served) and its
name with `#done` (complete).
-/

namespace Lifecycle

open Json

/-- A broken assumption of the program itself, as opposed to a fault of the remote service. -/
inductive Defect where
  /-- A step needed an identifier that no earlier step had found. -/
  | neverRemembered (key : String)
  /-- A model without its identifier got as far as a step; `noun` and `member` say which. -/
  | unidentifiedModel (noun member : String)
  deriving DecidableEq, Repr

/-- What the program reports when it stops at a defect. -/
def Defect.message : Defect → String
  | .neverRemembered key =>
    "identifier '" ++ key ++ "' was never remembered by an earlier step"
  | .unidentifiedModel noun member =>
    noun ++ " model without " ++ member ++ " reached a step"

/-- A model of a remote resource. -/
class Resource (M : Type) where
  /-- The primary identifier, when known. -/
  identifier? : M → Option String
  /-- The record of the model. -/
  encode : M → Document
  /-- Reads a model. -/
  decode : Decoder M

/-- Progress of one operation between two passes. -/
structure ProgressRecord (M : Type) where
  /-- The resource as known so far. -/
  model : Option M := none
  /-- Marks of steps. -/
  flags : Dict Bool := ∅
  /-- Named counters. -/
  counters : Dict UInt32 := ∅
  /-- Identifiers that steps found. -/
  identifiers : Dict String := ∅
  deriving DecidableEq

namespace ProgressRecord

variable {M : Type}

/-- The record of an operation that has not begun. -/
def empty : ProgressRecord M := {}

instance : Inhabited (ProgressRecord M) := ⟨empty⟩

/-- Mark of a step that has served its cool-down. -/
def cooledKey (step : String) : String := step ++ "#cooled"

/-- Mark of a step that is complete. -/
def doneKey (step : String) : String := step ++ "#done"

/-- Replaces the model. -/
def withModel (r : ProgressRecord M) (model : M) : ProgressRecord M := { r with model := some model }

/-- Whether a mark is set. -/
def flag (r : ProgressRecord M) (key : String) : Bool := (r.flags.get? key).getD false

/-- Sets a mark. -/
def mark (r : ProgressRecord M) (key : String) : ProgressRecord M :=
  { r with flags := r.flags.insert key true }

/-- Whether the step's request has been accepted. -/
def isInvoked (r : ProgressRecord M) (step : String) : Bool := r.flag step

/-- Notes that the step's request has been accepted. -/
def markInvoked (r : ProgressRecord M) (step : String) : ProgressRecord M := r.mark step

/-- Whether the step has served its cool-down. -/
def isCooled (r : ProgressRecord M) (step : String) : Bool := r.flag (cooledKey step)

/-- Notes that the step has served its cool-down. -/
def markCooled (r : ProgressRecord M) (step : String) : ProgressRecord M := r.mark (cooledKey step)

/-- Whether the step is complete. -/
def isDone (r : ProgressRecord M) (step : String) : Bool := r.flag (doneKey step)

/-- Notes that the step is complete. -/
def markDone (r : ProgressRecord M) (step : String) : ProgressRecord M := r.mark (doneKey step)

/-- The value of a counter, zero when it was never raised. -/
def counter (r : ProgressRecord M) (key : String) : UInt32 := (r.counters.get? key).getD 0

/-- One more than a counter value; the greatest value stays. -/
def nextCount (count : UInt32) : UInt32 := if count = 0xFFFFFFFF then count else count + 1

/-- Raises a counter by one. -/
def increment (r : ProgressRecord M) (key : String) : ProgressRecord M :=
  { r with counters := r.counters.insert key (nextCount (r.counter key)) }

/-- Forgets a counter. -/
def resetCounter (r : ProgressRecord M) (key : String) : ProgressRecord M :=
  { r with counters := r.counters.erase key }

@[simp] theorem mark_model (r : ProgressRecord M) (key : String) : (r.mark key).model = r.model := rfl

@[simp] theorem mark_counters (r : ProgressRecord M) (key : String) :
    (r.mark key).counters = r.counters := rfl

@[simp] theorem mark_identifiers (r : ProgressRecord M) (key : String) :
    (r.mark key).identifiers = r.identifiers := rfl

@[simp] theorem increment_model (r : ProgressRecord M) (key : String) :
    (r.increment key).model = r.model := rfl

@[simp] theorem increment_flags (r : ProgressRecord M) (key : String) :
    (r.increment key).flags = r.flags := rfl

@[simp] theorem increment_identifiers (r : ProgressRecord M) (key : String) :
    (r.increment key).identifiers = r.identifiers := rfl

@[simp] theorem resetCounter_model (r : ProgressRecord M) (key : String) :
    (r.resetCounter key).model = r.model := rfl

@[simp] theorem resetCounter_flags (r : ProgressRecord M) (key : String) :
    (r.resetCounter key).flags = r.flags := rfl

@[simp] theorem resetCounter_identifiers (r : ProgressRecord M) (key : String) :
    (r.resetCounter key).identifiers = r.identifiers := rfl

@[simp] theorem flag_empty (key : String) : (empty : ProgressRecord M).flag key = false := rfl

@[simp] theorem flag_mark_self (r : ProgressRecord M) (key : String) :
    (r.mark key).flag key = true := by
  simp [flag, mark]

/-- Setting a mark leaves every other mark as it is. -/
theorem flag_mark_ne (r : ProgressRecord M) {key other : String} (hne : key ≠ other) :
    (r.mark key).flag other = r.flag other := by
  simp only [flag, mark, Dict.get?_insert_ne _ hne]

/-- Setting a mark clears none. -/
theorem flag_mark_of_flag {r : ProgressRecord M} {other : String} (h : r.flag other = true)
    (key : String) : (r.mark key).flag other = true := by
  by_cases hne : key = other
  · rw [hne, flag_mark_self]
  · rw [flag_mark_ne r hne, h]

/-- Marks are a matter of the flags alone. -/
theorem flag_congr {r s : ProgressRecord M} (h : r.flags = s.flags) (key : String) :
    r.flag key = s.flag key := by
  simp only [flag, h]

/-- Counter values are a matter of the counters alone. -/
theorem counter_congr {r s : ProgressRecord M} (h : r.counters = s.counters) (key : String) :
    r.counter key = s.counter key := by
  simp only [counter, h]

@[simp] theorem counter_increment_self (r : ProgressRecord M) (key : String) :
    (r.increment key).counter key = nextCount (r.counter key) := by
  simp [counter, increment]

theorem counter_increment_ne (r : ProgressRecord M) {key other : String} (hne : key ≠ other) :
    (r.increment key).counter other = r.counter other := by
  simp only [counter, increment, Dict.get?_insert_ne _ hne]

@[simp] theorem counter_resetCounter_self (r : ProgressRecord M) (key : String) :
    (r.resetCounter key).counter key = 0 := by
  simp [counter, resetCounter]

theorem counter_resetCounter_ne (r : ProgressRecord M) {key other : String} (hne : key ≠ other) :
    (r.resetCounter key).counter other = r.counter other := by
  simp only [counter, resetCounter, Dict.get?_erase_ne _ hne]

/-- Below its greatest value a counter goes up by one. -/
theorem nextCount_toNat {count : UInt32} (h : count.toNat < UInt32.size - 1) :
    (nextCount count).toNat = count.toNat + 1 := by
  have hne : count ≠ 0xFFFFFFFF := by
    rintro rfl
    exact absurd h (by decide)
  have hsize : UInt32.size = 4294967296 := rfl
  rw [nextCount, if_neg hne, UInt32.toNat_add]
  exact Nat.mod_eq_of_lt (by simp; omega)

/-- A counter never goes down by being raised. -/
theorem le_nextCount (count : UInt32) : count.toNat ≤ (nextCount count).toNat := by
  by_cases h : count.toNat < UInt32.size - 1
  · rw [nextCount_toNat h]
    omega
  · have hlt := count.toNat_lt
    have hsize : UInt32.size = 4294967296 := rfl
    have hmax : count = 0xFFFFFFFF := UInt32.toNat_inj.mp (by simp; omega)
    simp only [nextCount, if_pos hmax, Nat.le_refl]

/-- A counter that was raised is not zero. -/
theorem nextCount_pos (count : UInt32) : 0 < (nextCount count).toNat := by
  by_cases h : count.toNat < UInt32.size - 1
  · rw [nextCount_toNat h]
    omega
  · have hle := le_nextCount count
    have hsize : UInt32.size = 4294967296 := rfl
    omega

/-- The mark of completion is none of the other two marks of any step. -/
theorem doneKey_ne_cooledKey (a b : String) : doneKey a ≠ cooledKey b := by
  intro h
  have hends := congrArg (fun s => s.toList.reverse) h
  simp [doneKey, cooledKey] at hends

theorem doneKey_ne_self (step : String) : doneKey step ≠ step := by
  intro h
  have hlength := congrArg String.length h
  simp [doneKey] at hlength

theorem cooledKey_ne_self (step : String) : cooledKey step ≠ step := by
  intro h
  have hlength := congrArg String.length h
  simp [cooledKey] at hlength

@[simp] theorem cooledKey_inj {a b : String} : cooledKey a = cooledKey b ↔ a = b := by
  simp [cooledKey]

@[simp] theorem doneKey_inj {a b : String} : doneKey a = doneKey b ↔ a = b := by
  simp [doneKey]

/-- Keeps an identifier for later steps. -/
def remember (r : ProgressRecord M) (key value : String) : ProgressRecord M :=
  { r with identifiers := r.identifiers.insert key value }

/-- An identifier that an earlier step may have found. -/
def identifier? (r : ProgressRecord M) (key : String) : Option String := r.identifiers.get? key

/-- An identifier that an earlier step must have found. -/
def identifier (r : ProgressRecord M) (key : String) : Except Defect String :=
  match r.identifier? key with
  | some value => .ok value
  | none => .error (.neverRemembered key)

/-- The record in JSON; the model is left out while there is none. -/
def encode [Resource M] (r : ProgressRecord M) : Document :=
  .ofPresent [
    ("resourceModel", r.model.map Resource.encode),
    ("stepFlags", some (.object (r.flags.toList.map fun entry => (entry.1, .bool entry.2)))),
    ("retryCounters",
      some (.object (r.counters.toList.map fun entry => (entry.1, .ofWord entry.2.toUInt64)))),
    ("rememberedIdentifiers",
      some (.object (r.identifiers.toList.map fun entry => (entry.1, .string entry.2))))]

/-- Reads a record; marks, counters and identifiers may be left out. -/
def decode [Resource M] : Decoder (ProgressRecord M) :=
  .record ["resourceModel", "stepFlags", "retryCounters", "rememberedIdentifiers"] fun r => do
    return { model := ← r.nullable "resourceModel" Resource.decode
             flags := ← r.defaulted "stepFlags" ∅ (.dict .bool)
             counters := ← r.defaulted "retryCounters" ∅ (.dict .word32)
             identifiers := ← r.defaulted "rememberedIdentifiers" ∅ (.dict .string) }

/-- Records that agree in every part; models are compared with their own equality. -/
def same [BEq M] (r s : ProgressRecord M) : Bool :=
  r.model == s.model && r.flags == s.flags && r.counters == s.counters
    && r.identifiers == s.identifiers

end ProgressRecord

end Lifecycle
