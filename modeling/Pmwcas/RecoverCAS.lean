/-
This file is the recoverable CAS (`RCAS`) as a machine. The target word carries the tag of the `Cas`
that wrote it, the id of its process and a sequence number; before a process overwrites it, it leaves
a note of the success in the store entry of that process. Every load, store, `CompareExchange64` and
flush of `Cas` and `readValue` is a step of its own, and each word has a durable copy.

  |--63 .. 56--|--55 .. 48--|--47 .. 0--|
  |----seq-----|-process id-|---value---|
-/

import Mathlib
import Pmwcas.Library.Transition

namespace Pmwcas.RCAS

open Transition

/-! ### Words -/

/-- `valueFlg`. -/
def valueFlg : Nat := 0xFFFFFFFFFFFF

/-- `processIdFlg`. -/
def processIdFlg : Nat := 0xFF <<< 48

/-- `seqIdFlg`. -/
def seqIdFlg : Nat := 0xFF <<< 56

/-- `existTargetValue & valueFlg`. -/
def valueOf (word : Nat) : Nat := word &&& valueFlg

/-- `(existTargetValue & processIdFlg) >> 48`. -/
def processIdOf (word : Nat) : Nat := (word &&& processIdFlg) >>> 48

/-- `(existTargetValue & seqIdFlg) >> 56`. -/
def seqIdOf (word : Nat) : Nat := (word &&& seqIdFlg) >>> 56

/-- `(seq << 56) | (processId << 48) | newValue`. -/
def targetValue (seq processId newValue : Nat) : Nat :=
  (seq <<< 56) ||| (processId <<< 48) ||| newValue

/-- `(seq << 56) | flag`, an entry of `processInfoStore_`. -/
def info (seq flag : Nat) : Nat := (seq <<< 56) ||| flag

theorem processIdOf_eq (word : Nat) : processIdOf word = word / 2 ^ 48 % 2 ^ 8 := by
  rw [processIdOf, Nat.shiftRight_and_distrib,
    show processIdFlg >>> 48 = 2 ^ 8 - 1 from rfl, Nat.and_two_pow_sub_one_eq_mod,
    Nat.shiftRight_eq_div_pow]

theorem seqIdOf_eq (word : Nat) : seqIdOf word = word / 2 ^ 56 % 2 ^ 8 := by
  rw [seqIdOf, Nat.shiftRight_and_distrib,
    show seqIdFlg >>> 56 = 2 ^ 8 - 1 from rfl, Nat.and_two_pow_sub_one_eq_mod,
    Nat.shiftRight_eq_div_pow]

theorem targetValue_eq {seq processId newValue : Nat} (small : processId < 2 ^ 8)
    (value : newValue < 2 ^ 48) :
    targetValue seq processId newValue = seq * 2 ^ 56 + (processId * 2 ^ 48 + newValue) := by
  have low : (processId <<< 48) ||| newValue = processId * 2 ^ 48 + newValue := by
    rw [← Nat.shiftLeft_add_eq_or_of_lt value, Nat.shiftLeft_eq]
  have bound : processId * 2 ^ 48 + newValue < 2 ^ 56 := by omega
  rw [targetValue, Nat.or_assoc, low, ← Nat.shiftLeft_add_eq_or_of_lt bound, Nat.shiftLeft_eq]

theorem info_eq {flag : Nat} (small : flag < 2 ^ 56) (seq : Nat) : info seq flag = seq * 2 ^ 56 + flag := by
  rw [info, ← Nat.shiftLeft_add_eq_or_of_lt small, Nat.shiftLeft_eq]

theorem processIdOf_targetValue {seq processId newValue : Nat} (small : processId < 2 ^ 8)
    (value : newValue < 2 ^ 48) : processIdOf (targetValue seq processId newValue) = processId := by
  rw [processIdOf_eq, targetValue_eq small value]
  omega

theorem seqIdOf_targetValue {seq processId newValue : Nat} (range : seq < 2 ^ 8)
    (small : processId < 2 ^ 8) (value : newValue < 2 ^ 48) :
    seqIdOf (targetValue seq processId newValue) = seq := by
  rw [seqIdOf_eq, targetValue_eq small value]
  omega

theorem info_one_inj {seq other : Nat} (same : info seq 1 = info other 1) : seq = other := by
  rw [info_eq (by decide), info_eq (by decide)] at same
  omega

theorem info_zero_inj {seq other : Nat} (same : info seq 0 = info other 0) : seq = other := by
  rw [info_eq (by decide), info_eq (by decide)] at same
  omega

theorem info_zero_ne_one (seq other : Nat) : info seq 0 ≠ info other 1 := by
  rw [info_eq (by decide), info_eq (by decide)]
  omega

/-! ### The machine -/

/-- An `RCAS` object: `maxThread_`, which fits the eight bits of a process id, and the value of the
target before the first `Cas`. -/
structure Config where
  maxThread : Nat
  maxThread_le : maxThread ≤ 256
  value : Nat
  value_lt : value < 2 ^ 48

/-- The arguments of a call of `Cas`. -/
structure Arguments where
  oldValue : Nat
  newValue : Nat
  seq : Nat
deriving DecidableEq

/-- The next step of a process. After the first load the word that was found is known. -/
inductive Pc
  | idle (result : Option Bool)
  | loadTarget (call : Arguments)
  | flushOther
  | flushTarget (call : Arguments) (exist : Nat)
  | exchangeStore (call : Arguments) (exist : Nat)
  | flushStore (call : Arguments) (exist : Nat)
  | storeOwn (call : Arguments) (exist : Nat)
  | flushOwn (call : Arguments) (exist : Nat)
  | exchangeTarget (call : Arguments) (exist : Nat)
  | flushSuccess (call : Arguments)
  | readTarget
  | readFlush (exist : Nat)
deriving DecidableEq

/-- The target, `processInfoStore_`, their durable copies, the processes, and the sequence numbers
each of them has used. -/
structure State where
  target : Nat
  store : Nat → Nat
  durableTarget : Nat
  durableStore : Nat → Nat
  pcs : Nat → Pc
  used : Nat → List Nat

/-- A process calls `Cas` or `readValue`, a process takes a step, or a word is written back. -/
inductive Action
  | cas (process : Nat) (call : Arguments)
  | readValue (process : Nat)
  | step (process : Nat)
  | writeBackTarget
  | writeBackStore (process : Nat)
deriving DecidableEq

instance : Inhabited Action := ⟨.step 0⟩

def State.goto (state : State) (process : Nat) (pc : Pc) : State :=
  { state with pcs := Function.update state.pcs process pc }

def State.flushTarget (state : State) : State :=
  { state with durableTarget := state.target }

def State.flushStore (state : State) (process : Nat) : State :=
  { state with
    durableStore := Function.update state.durableStore process (state.store process) }

def State.setStore (state : State) (process value : Nat) : State :=
  { state with store := Function.update state.store process value }

/-- The process uses a sequence number. -/
def State.use (state : State) (process seq : Nat) : State :=
  { state with used := Function.update state.used process (seq :: state.used process) }

theorem State.mem_use (state : State) (process seq : Nat) : seq ∈ (state.use process seq).used process := by
  show seq ∈ Function.update state.used process (seq :: state.used process) process
  rw [Function.update_self]
  exact List.mem_cons_self

theorem State.mem_use_of_mem (state : State) (process seq : Nat) {other again : Nat}
    (before : again ∈ state.used other) : again ∈ (state.use process seq).used other := by
  show again ∈ Function.update state.used process (seq :: state.used process) other
  by_cases same : other = process
  · subst same
    rw [Function.update_self]
    exact List.mem_cons_of_mem _ before
  · rw [Function.update_of_ne same]
    exact before

@[simp] theorem State.goto_pcs (state : State) (process : Nat) (pc : Pc) :
    (state.goto process pc).pcs = Function.update state.pcs process pc := rfl

@[simp] theorem State.flushStore_durableStore (state : State) (process : Nat) :
    (state.flushStore process).durableStore =
      Function.update state.durableStore process (state.store process) := rfl

@[simp] theorem State.setStore_store (state : State) (process value : Nat) :
    (state.setStore process value).store = Function.update state.store process value := rfl

/-- One step of a process inside a call. The target names no process that does not exist. -/
def State.stepProcess (config : Config) (state : State) (process : Nat) : Option State :=
  match state.pcs process with
  | .idle _ => none
  | .loadTarget call =>
    if processIdOf state.target ≥ config.maxThread then none
    else if valueOf state.target ≠ call.oldValue then some (state.goto process .flushOther)
    else some (state.goto process (.flushTarget call state.target))
  | .flushOther => some (state.flushTarget.goto process (.idle (some false)))
  | .flushTarget call exist => some (state.flushTarget.goto process (.exchangeStore call exist))
  | .exchangeStore call exist =>
    if state.store (processIdOf exist) = info (seqIdOf exist) 0 then
      some ((state.setStore (processIdOf exist) (info (seqIdOf exist) 1)).goto process
        (.flushStore call exist))
    else some (state.goto process (.flushStore call exist))
  | .flushStore call exist =>
    some ((state.flushStore (processIdOf exist)).goto process (.storeOwn call exist))
  | .storeOwn call exist =>
    some ((state.setStore process (info call.seq 0)).goto process (.flushOwn call exist))
  | .flushOwn call exist => some ((state.flushStore process).goto process (.exchangeTarget call exist))
  | .exchangeTarget call exist =>
    if state.target = exist then
      some ({ state with target := targetValue call.seq process call.newValue }.goto process
        (.flushSuccess call))
    else some (state.goto process (.idle (some false)))
  | .flushSuccess _ => some (state.flushTarget.goto process (.idle (some true)))
  | .readTarget => some (state.goto process (.readFlush state.target))
  | .readFlush _ => some (state.flushTarget.goto process (.idle none))

/-- The process is not in a call. -/
def Pc.Idle : Pc → Prop
  | .idle _ => True
  | _ => False

instance (pc : Pc) : Decidable pc.Idle :=
  match pc with
  | .idle _ => isTrue trivial
  | .loadTarget _ | .flushOther | .flushTarget .. | .exchangeStore .. | .flushStore .. | .storeOwn ..
  | .flushOwn .. | .exchangeTarget .. | .flushSuccess _ | .readTarget | .readFlush _ => isFalse id

/-- The arguments a call may have: a process uses each sequence number from 1 to 255 at most once,
and values have 48 bits. -/
def State.Allows (config : Config) (state : State) (process : Nat) (call : Arguments) : Prop :=
  process < config.maxThread ∧ (state.pcs process).Idle ∧ 1 ≤ call.seq ∧ call.seq ≤ 255 ∧
    call.seq ∉ state.used process ∧ call.oldValue < 2 ^ 48 ∧ call.newValue < 2 ^ 48

instance (config : Config) (state : State) (process : Nat) (call : Arguments) :
    Decidable (state.Allows config process call) :=
  inferInstanceAs (Decidable (_ ∧ _))

/-- The steps of the system. -/
def State.next (config : Config) (state : State) : Action → Option State
  | .cas process call =>
    if state.Allows config process call then
      some ((state.use process call.seq).goto process (.loadTarget call))
    else none
  | .readValue process =>
    if (state.pcs process).Idle then some (state.goto process .readTarget) else none
  | .step process => state.stepProcess config process
  | .writeBackTarget => some state.flushTarget
  | .writeBackStore process => some (state.flushStore process)

/-- A new object: the target has a plain value and no entry of the store is set. -/
def State.start (config : Config) : State where
  target := config.value
  store _ := 0
  durableTarget := config.value
  durableStore _ := 0
  pcs _ := .idle none
  used _ := []

/-- The recoverable CAS under any number of processes. -/
def system (config : Config) : System State Action :=
  .ofNext (fun state => state = .start config) (State.next config)

end Pmwcas.RCAS
