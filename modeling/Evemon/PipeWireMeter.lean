import Mathlib.Data.List.Dedup
import Mathlib.Data.List.Perm.Subperm
import Evemon.Lib.Runs

-- The level meters: capture streams shared by all plugin instances.
namespace Evemon.PipeWire.Meter

open List

def meterMaxNodes : Nat := 64

structure MeterNode where
  nodeId : UInt32
  stream : Bool

def tombstone : MeterNode := ⟨0, false⟩

inductive Attempt where
  | connected
  | notCreated
  | notConnected
deriving DecidableEq

def Attempt.leaves (id : UInt32) : Attempt → MeterNode
  | connected => ⟨id, true⟩
  | notCreated => ⟨id, false⟩
  | notConnected => tombstone

def reuseSlot (fresh : MeterNode) : List MeterNode → Option (List MeterNode)
  | [] => none
  | node :: rest =>
    if !node.stream && node.nodeId == 0 then some (fresh :: rest) else (reuseSlot fresh rest).map (node :: ·)

def meterAddStream (nodes : List MeterNode) (id : UInt32) (attempt : Attempt) : List MeterNode :=
  match reuseSlot (attempt.leaves id) nodes with
  | some reused => reused
  | none => if nodes.length < meterMaxNodes ∧ attempt = .connected then nodes ++ [attempt.leaves id] else nodes

def monitored (nodes : List MeterNode) (id : UInt32) : Bool := nodes.any fun node => node.stream && node.nodeId == id

def addNode (nodes : List MeterNode) (request : UInt32 × Attempt) : List MeterNode :=
  if monitored nodes request.1 then nodes else meterAddStream nodes request.1 request.2

-- `running` is whether meter_ensure_running finds or makes a connection.
def pwMeterStart (foreign running : Bool) (requests : List (UInt32 × Attempt)) (meter : Option (List MeterNode)) :
    Option (List MeterNode) :=
  if foreign || requests.isEmpty || !running then meter else some (requests.foldl addNode (meter.getD []))

def removeNode (id : UInt32) : List MeterNode → List MeterNode
  | [] => []
  | node :: rest => if node.stream && node.nodeId == id then tombstone :: rest else node :: removeNode id rest

def pwMeterRemoveNodes (ids : List UInt32) : Option (List MeterNode) → Option (List MeterNode)
  | none => none
  | some nodes =>
    if ids.isEmpty then some nodes
    else
      let left := ids.foldl (fun nodes id => removeNode id nodes) nodes
      if left.any MeterNode.stream then some left else none

inductive Call where
  | start (caller : Nat) (foreign running : Bool) (requests : List (UInt32 × Attempt))
  | remove (caller : Nat) (ids : List UInt32)

-- `wants` are the nodes that an instance has started and not removed.
structure Meters where
  meter : Option (List MeterNode) := none
  wants : List (Nat × UInt32) := []

def step (s : Meters) : Call → Meters
  | .start caller foreign running requests =>
    ⟨pwMeterStart foreign running requests s.meter, s.wants ++ requests.map fun request => (caller, request.1)⟩
  | .remove caller ids =>
    ⟨pwMeterRemoveNodes ids s.meter, s.wants.filter fun want => !(want.1 == caller && ids.contains want.2)⟩

def wanted (s : Meters) : List UInt32 := s.wants.map Prod.snd

def Supplied (s : Meters) : Call → Prop
  | .start caller foreign running requests =>
    foreign = false ∧ running = true ∧ (∀ request ∈ requests, request.2 = .connected) ∧
      (wanted (step s (.start caller foreign running requests))).dedup.length ≤ meterMaxNodes
  | .remove _ _ => True

-- Nobody removes a node that another instance wants.
def Considerate (s : Meters) : Call → Prop
  | .remove caller ids => ∀ want ∈ s.wants, want.2 ∈ ids → want.1 = caller
  | .start _ _ _ _ => True

def Captured (s : Meters) (id : UInt32) : Prop := ∃ nodes, s.meter = some nodes ∧ monitored nodes id = true

def live (nodes : List MeterNode) : List UInt32 := (nodes.filter MeterNode.stream).map MeterNode.nodeId

variable (nodes : List MeterNode) (id : UInt32)

theorem monitored_iff : monitored nodes id ↔ id ∈ live nodes := by
  simp [monitored, live, and_assoc]

theorem reuse_slot_live {nodes : List MeterNode} (reused : List MeterNode) (found : reuseSlot ⟨id, true⟩ nodes = some reused) :
    (live reused).Perm (id :: live nodes) ∧ reused.length = nodes.length := by
  induction nodes generalizing reused with
  | nil => cases found
  | cons node rest ih =>
    rw [reuseSlot] at found
    split at found
    · rename_i free
      simp only [Bool.and_eq_true, Bool.not_eq_true'] at free
      cases found
      simp [live, free.1]
    · obtain ⟨later, search, rfl⟩ := Option.map_eq_some_iff.mp found
      obtain ⟨perm, length⟩ := ih later search
      refine ⟨?_, by simp [length]⟩
      by_cases stream : node.stream
      · simp only [live, filter_cons, stream, if_true, map_cons] at perm ⊢
        exact (perm.cons _).trans (.swap _ _ _)
      · simp only [live, filter_cons, stream, Bool.false_eq_true, if_false] at perm ⊢
        exact perm

structure Tidy (nodes : List MeterNode) : Prop where
  free : ∀ node ∈ nodes, node.stream = false → node = tombstone
  distinct : (live nodes).Nodup
  small : nodes.length ≤ meterMaxNodes

theorem reuse_slot_none {fresh} {nodes : List MeterNode}
    (free : ∀ node ∈ nodes, node.stream = false → node = tombstone) (full : reuseSlot fresh nodes = none) :
    (live nodes).length = nodes.length := by
  induction nodes with
  | nil => rfl
  | cons node rest ih =>
    obtain ⟨atNode, atRest⟩ := forall_mem_cons.mp free
    cases stream : node.stream with
    | false =>
      rw [atNode stream] at full
      cases full
    | true =>
      rw [reuseSlot, stream] at full
      simp only [Bool.not_true, Bool.false_and, Bool.false_eq_true, if_false, Option.map_eq_none_iff] at full
      have rest := ih atRest full
      simp only [live, length_map, filter_cons, stream, if_true, length_cons] at rest ⊢
      rw [rest]

theorem reuse_slot_free {nodes : List MeterNode} (reused : List MeterNode) (free : ∀ node ∈ nodes, node.stream = false → node = tombstone)
    (found : reuseSlot ⟨id, true⟩ nodes = some reused) : ∀ node ∈ reused, node.stream = false → node = tombstone := by
  induction nodes generalizing reused with
  | nil => cases found
  | cons node rest ih =>
    obtain ⟨atNode, atRest⟩ := forall_mem_cons.mp free
    rw [reuseSlot] at found
    split at found
    · cases found
      exact forall_mem_cons.mpr ⟨fun off => Bool.noConfusion off, atRest⟩
    · obtain ⟨later, search, rfl⟩ := Option.map_eq_some_iff.mp found
      exact forall_mem_cons.mpr ⟨atNode, ih later atRest search⟩

theorem add_stream_tidy (tidy : Tidy nodes) {id : UInt32} (fresh : id ∉ live nodes)
    (room : (live nodes).length < meterMaxNodes) : Tidy (meterAddStream nodes id .connected) ∧
    ∀ other, other ∈ live (meterAddStream nodes id .connected) ↔ other = id ∨ other ∈ live nodes := by
  unfold meterAddStream
  cases found : reuseSlot (Attempt.connected.leaves id) nodes with
  | some reused =>
    obtain ⟨perm, length⟩ := reuse_slot_live id reused found
    refine ⟨⟨reuse_slot_free id reused tidy.free found, ?_, length ▸ tidy.small⟩, fun other => ?_⟩
    · exact perm.nodup_iff.mpr (nodup_cons.mpr ⟨fresh, tidy.distinct⟩)
    · rw [perm.mem_iff, mem_cons]
  | none =>
    rw [reuse_slot_none tidy.free found] at room
    simp only [room, and_true, if_true]
    have after : live (nodes ++ [Attempt.connected.leaves id]) = live nodes ++ [id] := by simp [live, Attempt.leaves]
    refine ⟨⟨?_, ?_, by rw [length_append]; exact room⟩, fun other => ?_⟩
    · refine forall_mem_append.mpr ⟨tidy.free, ?_⟩
      exact forall_mem_singleton.mpr fun off => Bool.noConfusion off
    · rw [after]
      exact nodup_append_comm.mp (nodup_cons.mpr ⟨fresh, tidy.distinct⟩)
    · rw [after, mem_append, mem_singleton, or_comm]

theorem remove_node_tidy (tidy : Tidy nodes) (id : UInt32) :
    Tidy (removeNode id nodes) ∧ ∀ other, other ∈ live (removeNode id nodes) ↔ other ≠ id ∧ other ∈ live nodes := by
  obtain ⟨free, distinct, small⟩ := tidy
  have spec : (∀ node ∈ removeNode id nodes, node.stream = false → node = tombstone) ∧
      live (removeNode id nodes) = (live nodes).erase id ∧ (removeNode id nodes).length = nodes.length := by
    clear distinct small
    induction nodes with
    | nil => exact ⟨free, rfl, rfl⟩
    | cons node rest ih =>
      obtain ⟨atNode, atRest⟩ := forall_mem_cons.mp free
      obtain ⟨later, erased, length⟩ := ih atRest
      rw [removeNode]
      split
      · rename_i here
        simp only [Bool.and_eq_true, beq_iff_eq] at here
        refine ⟨forall_mem_cons.mpr ⟨fun _ => rfl, atRest⟩, ?_, rfl⟩
        simp [live, tombstone, here]
      · rename_i other
        refine ⟨forall_mem_cons.mpr ⟨atNode, later⟩, ?_, by simp [length]⟩
        by_cases stream : node.stream
        · have differs : (node.nodeId == id) = false := by simpa [stream] using other
          simp only [live, filter_cons, stream, if_true, map_cons, erase_cons, differs, Bool.false_eq_true,
            if_false] at erased ⊢
          rw [erased]
        · simp only [live, filter_cons, stream, Bool.false_eq_true, if_false] at erased ⊢
          exact erased
  obtain ⟨kept, erased, length⟩ := spec
  refine ⟨⟨kept, erased ▸ distinct.erase id, length ▸ small⟩, fun other => ?_⟩
  rw [erased, distinct.mem_erase_iff]

theorem remove_nodes_tidy (ids : List UInt32) (nodes : List MeterNode) (tidy : Tidy nodes) :
    Tidy (ids.foldl (fun nodes id => removeNode id nodes) nodes) ∧
    ∀ other, other ∈ live (ids.foldl (fun nodes id => removeNode id nodes) nodes) ↔
    other ∉ ids ∧ other ∈ live nodes := by
  induction ids generalizing nodes with
  | nil => simp [tidy]
  | cons id rest ih =>
    obtain ⟨first, without⟩ := remove_node_tidy nodes tidy id
    obtain ⟨later, kept⟩ := ih (removeNode id nodes) first
    refine ⟨later, fun other => ?_⟩
    rw [foldl_cons, kept, without, mem_cons, not_or]
    tauto

theorem add_nodes_tidy {requests : List (UInt32 × Attempt)} (made : ∀ request ∈ requests, request.2 = .connected)
    (nodes : List MeterNode) (tidy : Tidy nodes) {known : List UInt32} (inside : ∀ id ∈ live nodes, id ∈ known)
    (named : ∀ request ∈ requests, request.1 ∈ known) (room : known.dedup.length ≤ meterMaxNodes) :
    Tidy (requests.foldl addNode nodes) ∧
    ∀ other, other ∈ live (requests.foldl addNode nodes) ↔ other ∈ requests.map Prod.fst ∨ other ∈ live nodes := by
  induction requests generalizing nodes with
  | nil => simp [tidy]
  | cons request rest ih =>
    obtain ⟨atFirst, atRest⟩ := forall_mem_cons.mp made
    obtain ⟨first, others⟩ := forall_mem_cons.mp named
    have one : Tidy (addNode nodes request) ∧
        ∀ other, other ∈ live (addNode nodes request) ↔ other = request.1 ∨ other ∈ live nodes := by
      unfold addNode
      split
      · rename_i already
        rw [monitored_iff] at already
        refine ⟨tidy, fun other => ⟨.inr, ?_⟩⟩
        rintro (rfl | mem)
        · exact already
        · exact mem
      · rename_i absent
        rw [monitored_iff] at absent
        have fits : (request.1 :: live nodes).length ≤ known.dedup.length := by
          refine (subperm_of_subset (nodup_cons.mpr ⟨absent, tidy.distinct⟩) ?_).length_le
          intro id mem
          rw [mem_dedup]
          obtain rfl | mem := mem_cons.mp mem
          · exact first
          · exact inside id mem
        rw [length_cons] at fits
        rw [atFirst]
        exact add_stream_tidy nodes tidy absent (by omega)
    have still : ∀ id ∈ live (addNode nodes request), id ∈ known := by
      intro id mem
      obtain rfl | mem := (one.2 id).mp mem
      · exact first
      · exact inside id mem
    obtain ⟨later, found⟩ := ih atRest (addNode nodes request) one.1 still others
    refine ⟨later, fun other => ?_⟩
    rw [foldl_cons, found, one.2, map_cons, mem_cons]
    tauto

structure Metered (s : Meters) : Prop where
  tidy : Tidy (s.meter.getD [])
  streams : ∀ id, id ∈ live (s.meter.getD []) ↔ id ∈ wanted s

theorem tidy_nil : Tidy [] := ⟨forall_mem_nil _, nodup_nil, Nat.zero_le _⟩

variable {s : Meters} {caller : Nat}

theorem start_metered (metered : Metered s) {foreign running} {requests}
    (supplied : Supplied s (.start caller foreign running requests)) :
    Metered (step s (.start caller foreign running requests)) := by
  obtain ⟨rfl, rfl, made, room⟩ := supplied
  have names : wanted (step s (.start caller false true requests)) = wanted s ++ requests.map Prod.fst := by
    simp [wanted, step]
  rw [names] at room
  obtain ⟨tidy, found⟩ := add_nodes_tidy made (s.meter.getD []) metered.tidy
    (fun id mem => mem_append_left _ ((metered.streams id).mp mem))
    (fun request mem => mem_append_right _ (mem_map_of_mem mem)) room
  have meter : (step s (.start caller false true requests)).meter.getD [] = requests.foldl addNode (s.meter.getD []) := by
    simp only [step, pwMeterStart, Bool.false_or, Bool.not_true, Bool.or_false]
    cases requests with
    | nil => rfl
    | cons request rest => rfl
  refine ⟨meter ▸ tidy, fun id => ?_⟩
  rw [meter, names, found, metered.streams, mem_append, or_comm]

theorem remove_metered (metered : Metered s) {ids} (considerate : Considerate s (.remove caller ids)) :
    Metered (step s (.remove caller ids)) := by
  obtain ⟨tidy, kept⟩ := remove_nodes_tidy ids (s.meter.getD []) metered.tidy
  have names : ∀ id, id ∈ wanted (step s (.remove caller ids)) ↔ id ∉ ids ∧ id ∈ wanted s := by
    intro id
    simp only [wanted, step, mem_map, mem_filter, Bool.not_eq_true', Bool.and_eq_false_imp, beq_iff_eq,
      contains_eq_mem, decide_eq_false_iff_not]
    constructor
    · rintro ⟨want, ⟨mem, own⟩, rfl⟩
      exact ⟨fun named => own (considerate want mem named) named, want, mem, rfl⟩
    · rintro ⟨unnamed, want, mem, rfl⟩
      exact ⟨want, ⟨mem, fun _ => unnamed⟩, rfl⟩
  have meter : Tidy ((step s (.remove caller ids)).meter.getD []) ∧
      ∀ id, id ∈ live ((step s (.remove caller ids)).meter.getD []) ↔ id ∉ ids ∧ id ∈ live (s.meter.getD []) := by
    simp only [step]
    cases connection : s.meter with
    | none => exact ⟨tidy_nil, fun id => by simp [pwMeterRemoveNodes, live]⟩
    | some nodes =>
      rw [connection] at tidy kept
      simp only [Option.getD_some] at tidy kept
      rw [pwMeterRemoveNodes]
      split
      · rename_i none
        rw [isEmpty_iff.mp none] at kept ⊢
        exact ⟨connection ▸ metered.tidy, kept⟩
      · dsimp only
        split
        · exact ⟨tidy, kept⟩
        · rename_i last
          refine ⟨tidy_nil, fun id => ?_⟩
          have gone : live (ids.foldl (fun nodes id => removeNode id nodes) nodes) = [] := by
            simpa [live, filter_eq_nil_iff] using last
          have mem := kept id
          rw [gone] at mem
          exact mem
  exact ⟨meter.1, fun id => by rw [meter.2, names, metered.streams]⟩

theorem consumers_independent (s : Meters)
    (reached : Runs.Reachable (· = {}) (fun s call => Supplied s call ∧ Considerate s call) step s) (caller : Nat)
    (id : UInt32) (started : (caller, id) ∈ s.wants) : Captured s id := by
  have metered : Metered s := by
    refine Runs.invariant Metered (fun s starts => ?_) (fun s call metered taken => ?_) s reached
    · rw [starts]
      exact ⟨tidy_nil, fun id => Iff.rfl⟩
    · cases call with
      | start caller foreign running requests => exact start_metered metered taken.1
      | remove caller ids => exact remove_metered metered taken.2
  have mem := (metered.streams id).mpr (mem_map_of_mem (f := Prod.snd) started)
  cases connection : s.meter with
  | none =>
    rw [connection] at mem
    cases mem
  | some nodes =>
    rw [connection] at mem
    exact ⟨nodes, connection, (monitored_iff nodes id).mpr mem⟩

def apart : List Call :=
  [.start 1 false true [(7, .connected)], .start 2 false true [(9, .connected)], .remove 1 [7]]

def together : List Call :=
  [.start 1 false true [(7, .connected)], .start 2 false true [(7, .connected)], .remove 1 [7]]

instance (s : Meters) (call : Call) : Decidable (Supplied s call) :=
  match call with
  | .start _ _ _ _ => inferInstanceAs (Decidable (_ ∧ _ ∧ _ ∧ _))
  | .remove _ _ => inferInstanceAs (Decidable True)

instance (s : Meters) (call : Call) : Decidable (Considerate s call) :=
  match call with
  | .start _ _ _ _ => inferInstanceAs (Decidable True)
  | .remove caller ids => inferInstanceAs (Decidable (∀ want ∈ s.wants, want.2 ∈ ids → want.1 = caller))

theorem consumers_independent_apart : (2, 9) ∈ (apart.foldl step {}).wants ∧ Captured (apart.foldl step {}) 9 := by
  have reached : Runs.Reachable (· = {}) (fun s call => Supplied s call ∧ Considerate s call) step (apart.foldl step {}) :=
    Runs.reachable_follows (fun s call => decide (Supplied s call ∧ Considerate s call))
      (fun _ _ checked => of_decide_eq_true checked) apart {} (.start _ rfl) (by decide +kernel)
  exact ⟨by decide +kernel, consumers_independent _ reached 2 9 (by decide +kernel)⟩

theorem shared_stream_is_lost : Runs.Reachable (· = {}) Supplied step (together.foldl step {}) ∧
    (2, 7) ∈ (together.foldl step {}).wants ∧ ¬ Captured (together.foldl step {}) 7 := by
  refine ⟨?_, by decide +kernel, ?_⟩
  · exact Runs.reachable_follows (fun s call => decide (Supplied s call)) (fun _ _ checked => of_decide_eq_true checked)
      together {} (.start _ rfl) (by decide +kernel)
  · rintro ⟨nodes, meter, -⟩
    have none : (together.foldl step {}).meter = none := by decide +kernel
    rw [none] at meter
    cases meter

end Evemon.PipeWire.Meter
