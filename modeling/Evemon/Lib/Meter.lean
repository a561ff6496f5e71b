import Evemon.Lib.ProbeMap

-- Tables of free-running counters, read off by differences: what is charged to a key is the sum of
-- the latched differences and of what came since.
namespace Meter

open ProbeTable Nat

structure Counter where
  bytes : UInt64 := 0
  prev : UInt64 := 0
  delta : UInt64 := 0

def Counter.add (bytes : UInt32) (counter : Counter) : Counter := { counter with bytes := counter.bytes + bytes.toUInt64 }

def Counter.latch (counter : Counter) : Counter :=
  { counter with delta := counter.bytes - counter.prev, prev := counter.bytes }

structure Entry where
  send : Counter := {}
  recv : Counter := {}

def Entry.add (bytes : UInt32) (isSend : Bool) (entry : Entry) : Entry :=
  if isSend then { entry with send := entry.send.add bytes } else { entry with recv := entry.recv.add bytes }

def Entry.latch (entry : Entry) : Entry := ⟨entry.send.latch, entry.recv.latch⟩

def Entry.counter (isSend : Bool) (entry : Entry) : Counter := if isSend then entry.send else entry.recv

inductive Op (κ : Type) where
  | charge (key : κ) (bytes : UInt32) (isSend : Bool)
  | latch

section

variable {κ : Type} [DecidableEq κ]

def amount (key : κ) (isSend : Bool) (other : κ) (bytes : UInt32) (direction : Bool) : Nat :=
  if other = key ∧ direction = isSend then bytes.toNat else 0

def charged (key : κ) (isSend : Bool) : List (Op κ) → Nat
  | [] => 0
  | .charge other bytes direction :: earlier => amount key isSend other bytes direction + charged key isSend earlier
  | .latch :: earlier => charged key isSend earlier

def pending (key : κ) (isSend : Bool) : List (Op κ) → Nat
  | [] => 0
  | .charge other bytes direction :: earlier => amount key isSend other bytes direction + pending key isSend earlier
  | .latch :: _ => 0

def settled (key : κ) (isSend : Bool) : List (Op κ) → Nat
  | [] => 0
  | .charge _ _ _ :: earlier => settled key isSend earlier
  | .latch :: earlier => charged key isSend earlier

variable (key : κ) (isSend : Bool) (ops : List (Op κ))

theorem settled_add_pending : settled key isSend ops + pending key isSend ops = charged key isSend ops := by
  induction ops with
  | nil => rfl
  | cons op earlier ih =>
    cases op with
    | charge other bytes direction =>
      simp only [settled, pending, charged]
      omega
    | latch => rfl

theorem charged_le : charged key isSend ops ≤ ops.length * 2 ^ 32 := by
  induction ops with
  | nil => exact zero_le _
  | cons op earlier ih =>
    cases op with
    | charge other bytes direction =>
      have few : amount key isSend other bytes direction ≤ 2 ^ 32 := by
        rw [amount]
        split
        · exact le_of_lt bytes.toNat_lt
        · exact zero_le _
      rw [charged, List.length_cons, add_mul, one_mul]
      omega
    | latch =>
      rw [charged, List.length_cons, add_mul]
      exact le_trans ih (le_add_right _ _)

-- Each key by itself: what its entry holds if nothing but the operations on it matters.
def project : List (Op κ) → κ → Option Entry
  | [], _ => none
  | .charge key bytes isSend :: earlier, other =>
    Function.update (project earlier) key (some (((project earlier key).getD {}).add bytes isSend)) other
  | .latch :: earlier, other => (project earlier other).map Entry.latch

def metered (key : κ) (isSend : Bool) (ops : List (Op κ)) : Counter := ((project ops key).getD {}).counter isSend

theorem counter_add (bytes : UInt32) (direction isSend : Bool) (entry : Entry) :
    (entry.add bytes direction).counter isSend =
    if direction = isSend then (entry.counter isSend).add bytes else entry.counter isSend := by
  cases direction <;> cases isSend <;> rfl

theorem counter_latch {entry : Entry} : entry.latch.counter isSend = (entry.counter isSend).latch := by
  cases isSend <;> rfl

theorem metered_charge (key other : κ) (bytes : UInt32) (direction isSend : Bool) (ops : List (Op κ)) :
    metered key isSend (.charge other bytes direction :: ops) =
    if other = key ∧ direction = isSend then (metered key isSend ops).add bytes else metered key isSend ops := by
  simp only [metered, project]
  by_cases same : other = key
  · subst same
    simp [counter_add]
  · simp [Function.update_of_ne (Ne.symm same), same]

theorem metered_latch : metered key isSend (.latch :: ops) = (metered key isSend ops).latch := by
  simp only [metered, project]
  cases project ops key with
  | none => cases isSend <;> rfl
  | some entry => exact counter_latch isSend

theorem metered_bytes : (metered key isSend ops).bytes = UInt64.ofNat (charged key isSend ops) := by
  induction ops with
  | nil => cases isSend <;> rfl
  | cons op earlier ih =>
    cases op with
    | charge other bytes direction =>
      rw [metered_charge, charged, amount]
      split
      · rw [Counter.add, ih, UInt64.ofNat_add, UInt64.add_comm]
        exact UInt64.toNat_inj.mp (by simp)
      · rw [ih, zero_add]
    | latch =>
      rw [metered_latch, charged]
      exact ih

theorem metered_prev : (metered key isSend ops).prev = UInt64.ofNat (settled key isSend ops) := by
  induction ops with
  | nil => cases isSend <;> rfl
  | cons op earlier ih =>
    cases op with
    | charge other bytes direction =>
      rw [metered_charge, settled]
      split
      · exact ih
      · exact ih
    | latch =>
      rw [metered_latch, settled]
      exact metered_bytes key isSend earlier

theorem latched_delta (inRange : charged key isSend ops < 2 ^ 64) :
    (metered key isSend (.latch :: ops)).delta.toNat = pending key isSend ops := by
  have total := settled_add_pending key isSend ops
  have earlier : settled key isSend ops < 2 ^ 64 := by omega
  rw [metered_latch, Counter.latch, metered_bytes, metered_prev]
  rw [UInt64.toNat_sub_of_le]
  · rw [UInt64.toNat_ofNat_of_lt' inRange, UInt64.toNat_ofNat_of_lt' earlier]
    omega
  · rw [UInt64.le_iff_toNat_le, UInt64.toNat_ofNat_of_lt' inRange, UInt64.toNat_ofNat_of_lt' earlier]
    omega

end

section

variable {size : Nat} {κ : Type}

def latchAll (table : Table size κ Entry) : Table size κ Entry :=
  fun slot => (table slot).map fun held => (held.1, held.2.latch)

def charge (key : κ) (bytes : UInt32) (isSend : Bool) (slot : Fin size) (table : Table size κ Entry) : Table size κ Entry :=
  Function.update table slot (some (key, (((table slot).map Prod.snd).getD {}).add bytes isSend))

variable [DecidableEq κ] {home : κ → Fin size}

variable {table : Table size κ Entry} (ops : List (Op κ))

theorem represents_latch (represents : Represents home table (project ops)) :
    Represents home (latchAll table) (project (.latch :: ops)) :=
  represents_map home Entry.latch represents

theorem represents_charge (represents : Represents home table (project ops))
    {key} {bytes} {isSend} {slot} (located : locate home table key = some slot) :
    Represents home (charge key bytes isSend slot table) (project (.charge key bytes isSend :: ops)) := by
  have entry : ((table slot).map Prod.snd).getD {} = (project ops key).getD {} := by
    rw [located_entry home represents located]
    cases project ops key <;> rfl
  rw [charge, entry]
  exact represents_update home represents located _

theorem represents_metered (represents : Represents home table (project ops))
    (key : κ) (isSend : Bool) : ((find home table key).getD {}).counter isSend = metered key isSend ops := by
  rw [represents_find home represents, metered]

end

end Meter
