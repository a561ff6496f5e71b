import Evemon.Lib.CText
import Evemon.Lib.SwapRemove

-- The watcher of the PipeWire graph: its callbacks, the graph they build and the one they publish.
namespace Evemon.PipeWire

open CText SwapRemove

inductive Key where
  | appProcessId
  | secPid
  | clientId
  | appName
  | nodeName
  | nodeDescription
  | mediaClass
  | mediaName
  | nodeId
  | portName
  | portAlias
  | portDirection
  | formatDsp
  | linkOutputNode
  | linkOutputPort
  | linkInputNode
  | linkInputPort

abbrev Dict := Key → Option Text

def dictGet (props : Option Dict) (key : Key) : Option Text := props.bind fun dict => (dict key).map cString

def continuation (byte : UInt8) : Bool := byte &&& 0xC0 = 0x80

-- Cuts off a UTF-8 sequence that is not complete at the end of the buffer.
def utf8SafeTruncate (buf : Text) : Text :=
  match buf.reverse.dropWhile continuation with
  | [] => []
  | lead :: front =>
    if 0x80 ≤ lead && lead < 0xC0 then front.reverse
    else
      let expected := if lead < 0x80 then 1 else if lead < 0xE0 then 2 else if lead < 0xF0 then 3 else 4
      if buf.length - front.length < expected then front.reverse else buf

def fitted (size : Nat) (value : Text) : Text := utf8SafeTruncate (value.take (size - 1))

def dictCopy (props : Option Dict) (key : Key) (size : Nat) : Text :=
  match dictGet props key with
  | some value => fitted size value
  | none => []

def dictCopyIfPresent (props : Option Dict) (key : Key) (size : Nat) (old : Text) : Text :=
  match dictGet props key with
  | some value => if value = [] then old else fitted size value
  | none => old

-- A number that is out of the range of long gives a bound of it, which is refused here too.
def parsePid (text : Option Text) : Int32 :=
  match text.bind scanNumber with
  | some (number, []) => if strtol number ≤ 0 ∨ strtol number > 0x7FFFFFFF then 0 else (strtol number).toInt32
  | _ => 0

def parseU32 (text : Option Text) : UInt32 :=
  match text.bind scanNumber with
  | some (number, []) => if strtoull number > 0xFFFFFFFF then 0 else (strtoull number).toUInt32
  | _ => 0

def pidString (props : Option Dict) : Option Text :=
  match dictGet props .appProcessId with
  | some text => some text
  | none => dictGet props .secPid

structure Node where
  id : UInt32
  clientId : UInt32
  pid : Int32
  appName : Text
  nodeName : Text
  nodeDesc : Text
  mediaClass : Text
  mediaName : Text

structure Port where
  id : UInt32
  nodeId : UInt32
  portName : Text
  portAlias : Text
  direction : Text
  formatDsp : Text

structure Link where
  id : UInt32
  outputNodeId : UInt32
  outputPortId : UInt32
  inputNodeId : UInt32
  inputPortId : UInt32

structure Client where
  id : UInt32
  pid : Int32

structure Objects (α : Type) where
  items : List α := []
  cap : Nat := 0

def snapshotObjectLimit : Nat := 65536

def Objects.push {α : Type} (first size : Nat) (granted : Bool) (objects : Objects α) (item : α) : Option (Objects α) :=
  if objects.items.length ≥ snapshotObjectLimit then none
  else if objects.items.length ≥ objects.cap then
    let wider := if objects.cap = 0 then first else objects.cap * 2
    if wider ≤ objects.cap ∨ wider > (2 ^ 64 - 1) / size then none
    else if granted then some ⟨objects.items ++ [item], wider⟩
    else none
  else some ⟨objects.items ++ [item], objects.cap⟩

def Objects.removeAt {α : Type} (objects : Objects α) (index : Nat) : Objects α :=
  { objects with items := swapRemove objects.items index }

def Objects.copy {α : Type} (objects : Objects α) : Objects α := { objects with cap := objects.items.length }

structure Graph where
  nodes : Objects Node := {}
  ports : Objects Port := {}
  links : Objects Link := {}
  clients : Objects Client := {}

def pwGraphPushNode (granted : Bool) (g : Graph) (node : Node) : Option Graph :=
  (g.nodes.push 128 844 granted node).map fun nodes => { g with nodes }

def pwGraphPushPort (granted : Bool) (g : Graph) (port : Port) : Option Graph :=
  (g.ports.push 256 464 granted port).map fun ports => { g with ports }

def pwGraphPushLink (granted : Bool) (g : Graph) (link : Link) : Option Graph :=
  (g.links.push 128 20 granted link).map fun links => { g with links }

def pwGraphPushClient (granted : Bool) (g : Graph) (client : Client) : Option Graph :=
  (g.clients.push 64 8 granted client).map fun clients => { g with clients }

def pwGraphCopy (g : Graph) : Graph := ⟨g.nodes.copy, g.ports.copy, g.links.copy, g.clients.copy⟩

def resolvePid (clients : List Client) (n : Node) : Node :=
  if n.pid ≠ 0 ∨ n.clientId = 0 then n
  else
    match clients.find? fun client => client.id = n.clientId with
    | some client => { n with pid := client.pid }
    | none => n

def pwGraphResolvePids (g : Graph) : Graph :=
  { g with nodes := { g.nodes with items := g.nodes.items.map (resolvePid g.clients.items) } }

def newNode (id : UInt32) (props : Option Dict) : Node where
  id := id
  clientId := parseU32 (dictGet props .clientId)
  pid := parsePid (pidString props)
  appName := dictCopy props .appName 128
  nodeName := dictCopy props .nodeName 128
  nodeDesc := dictCopy props .nodeDescription 256
  mediaClass := dictCopy props .mediaClass 64
  mediaName := dictCopy props .mediaName 256

def newClient (id : UInt32) (props : Option Dict) : Client := ⟨id, parsePid (pidString props)⟩

def newPort (id : UInt32) (props : Option Dict) : Port where
  id := id
  nodeId := parseU32 (dictGet props .nodeId)
  portName := dictCopy props .portName 128
  portAlias := dictCopy props .portAlias 256
  direction := dictCopy props .portDirection 8
  formatDsp := dictCopy props .formatDsp 64

def newLink (id : UInt32) (props : Option Dict) : Link where
  id := id
  outputNodeId := parseU32 (dictGet props .linkOutputNode)
  outputPortId := parseU32 (dictGet props .linkOutputPort)
  inputNodeId := parseU32 (dictGet props .linkInputNode)
  inputPortId := parseU32 (dictGet props .linkInputPort)

def applyInfo (props : Option Dict) (n : Node) : Node :=
  { n with
    pid := if (pidString props).isSome ∧ n.pid = 0 then parsePid (pidString props) else n.pid
    appName := dictCopyIfPresent props .appName 128 n.appName
    nodeName := dictCopyIfPresent props .nodeName 128 n.nodeName
    nodeDesc := dictCopyIfPresent props .nodeDescription 256 n.nodeDesc
    mediaClass := dictCopyIfPresent props .mediaClass 64 n.mediaClass
    mediaName := dictCopyIfPresent props .mediaName 256 n.mediaName }

-- A bound node. The proxies that were made are numbered; a bind that fails gives none.
structure Bound where
  nodeIndex : Nat
  pwId : UInt32
  proxy : Option Nat
deriving DecidableEq

inductive Request where
  | bind (proxy : Nat)
  | sync (seq : Int32)

-- The watcher, the graph that pw_snapshot copies, the requests that are not answered yet and the
-- number of proxies made so far.
structure State where
  syncSeq : Int32
  phase : Nat := 0
  initialDone : Bool := false
  graph : Graph := {}
  bound : List Bound := []
  boundCap : Nat := 0
  pendingSync : Int32 := 0
  live : Graph := {}
  liveReady : Bool := false
  requests : List Request
  proxies : Nat := 0

structure Outcome where
  grown : Bool := true
  boundGrown : Bool := true
  entry : Bool := true
  proxy : Bool := true
  copied : Bool := true
  seq : Int32 := 1

inductive ObjectType where
  | node
  | client
  | port
  | link
  | other
deriving DecidableEq

def watcherPublish (copied : Bool) (s : State) : State :=
  let graph := pwGraphResolvePids s.graph
  if copied then { s with graph, live := pwGraphCopy graph, liveReady := true } else { s with graph }

def watcherOnNodeInfo (index : Nat) (props : Option Dict) (s : State) : State :=
  match s.bound[index]? with
  | none => s
  | some wb =>
    match s.graph.nodes.items[wb.nodeIndex]? with
    | none => s
    | some n =>
      { s with graph.nodes.items := s.graph.nodes.items.set wb.nodeIndex (applyInfo props n) }

def coreSync (seq : Int32) (s : State) : State := { s with requests := s.requests ++ [.sync seq] }

def bindNode (id : UInt32) (out : Outcome) (s : State) : State :=
  if s.bound.length ≥ s.boundCap ∧ out.boundGrown = false then s
  else
    let boundCap := if s.bound.length ≥ s.boundCap then (if s.boundCap = 0 then 64 else s.boundCap * 2) else s.boundCap
    if out.entry = false then { s with boundCap }
    else
      let wb : Bound :=
        { nodeIndex := s.graph.nodes.items.length - 1, pwId := id, proxy := if out.proxy then some s.proxies else none }
      let asked := if out.proxy then s.requests ++ [.bind s.proxies] else s.requests
      let bound : State := { s with boundCap, bound := s.bound ++ [wb], requests := asked, proxies := s.proxies + 1 }
      if s.initialDone ∧ s.pendingSync = 0 then coreSync out.seq { bound with pendingSync := out.seq } else bound

def publishIfDone (copied : Bool) (s : State) : State := if s.initialDone then watcherPublish copied s else s

def watcherOnGlobal (id : UInt32) (type : ObjectType) (props : Option Dict) (out : Outcome) (s : State) : State :=
  match type with
  | .node =>
    match pwGraphPushNode out.grown s.graph (newNode id props) with
    | none => s
    | some graph => bindNode id out { s with graph }
  | .client =>
    if props.isNone then s
    else
      match pwGraphPushClient out.grown s.graph (newClient id props) with
      | none => s
      | some graph => publishIfDone out.copied { s with graph }
  | .port =>
    if props.isNone then s
    else
      match pwGraphPushPort out.grown s.graph (newPort id props) with
      | none => s
      | some graph => { s with graph }
  | .link =>
    if props.isNone then s
    else
      match pwGraphPushLink out.grown s.graph (newLink id props) with
      | none => s
      | some graph => publishIfDone out.copied { s with graph }
  | .other => s

-- One pass over the bound nodes after the node at `last` has taken the place of the one at `index`.
-- A slot whose entry is removed is looked at again.
def fixBound (id : UInt32) (index last : Nat) : Nat → Nat → Bool → Bool → List Bound → List Bound
  | 0, _, _, _, bound => bound
  | fuel + 1, b, removed, moved, bound =>
    if removed ∧ moved then bound
    else
      match bound[b]? with
      | none => bound
      | some wb =>
        if removed = false ∧ wb.pwId = id then fixBound id index last fuel b true moved (swapRemove bound b)
        else if moved = false ∧ index ≠ last ∧ wb.nodeIndex = last then
          fixBound id index last fuel (b + 1) removed true (bound.set b { wb with nodeIndex := index })
        else fixBound id index last fuel (b + 1) removed moved bound

def removeNode (id : UInt32) (index : Nat) (s : State) : State :=
  { s with
    graph.nodes := s.graph.nodes.removeAt index
    bound := fixBound id index (s.graph.nodes.items.length - 1) s.bound.length 0 false false s.bound }

def watcherOnGlobalRemove (id : UInt32) (copied : Bool) (s : State) : State :=
  match s.graph.nodes.items.findIdx? (·.id = id) with
  | some index => watcherPublish copied (removeNode id index s)
  | none =>
    match s.graph.links.items.findIdx? (·.id = id) with
    | some index => watcherPublish copied { s with graph.links := s.graph.links.removeAt index }
    | none =>
      match s.graph.ports.items.findIdx? (·.id = id) with
      | some index => { s with graph.ports := s.graph.ports.removeAt index }
      | none =>
        match s.graph.clients.items.findIdx? (·.id = id) with
        | some index => { s with graph.clients := s.graph.clients.removeAt index }
        | none => s

def coreId : UInt32 := 0

def watcherOnCoreDone (id : UInt32) (seq : Int32) (out : Outcome) (s : State) : State :=
  if id ≠ coreId then s
  else if s.initialDone ∧ seq = s.pendingSync then watcherPublish out.copied { s with pendingSync := 0 }
  else if seq ≠ s.syncSeq then s
  else if s.phase = 0 then coreSync out.seq { s with phase := 1, syncSeq := out.seq }
  else watcherPublish out.copied { s with initialDone := true }

def pwSnapshot (copied : Bool) (s : State) : Option Graph :=
  if s.liveReady = false then none else if copied then some (pwGraphCopy s.live) else none

inductive Callback where
  | global (id : UInt32) (type : ObjectType) (props : Option Dict) (out : Outcome)
  | globalRemove (id : UInt32) (copied : Bool)
  | nodeInfo (index : Nat) (props : Option Dict)
  | coreDone (id : UInt32) (seq : Int32) (out : Outcome)

def run : Callback → State → State
  | .global id type props out, s => watcherOnGlobal id type props out s
  | .globalRemove id copied, s => watcherOnGlobalRemove id copied s
  | .nodeInfo index props, s => watcherOnNodeInfo index props s
  | .coreDone id seq out, s => watcherOnCoreDone id seq out s

def started (seq : Int32) : State := { syncSeq := seq, requests := [.sync seq] }

end Evemon.PipeWire
