import Mathlib.Data.List.Basic
import PicoSentry.Foundation.Result
import PicoSentry.Foundation.Text

namespace PicoSentry.Sandbox.Cluster

open Foundation

def defaultClusterPort : Int := 8444

inductive NodeStatus where
  | online
  | offline
  | draining
  deriving DecidableEq, Repr

namespace NodeStatus

def value : NodeStatus → Str
  | online => "online".toList
  | offline => "offline".toList
  | draining => "draining".toList

def ofValue (text : Str) : Except PyError NodeStatus :=
  if text = "online".toList then .ok online
  else if text = "offline".toList then .ok offline
  else if text = "draining".toList then .ok draining
  else .error .valueError

@[simp] theorem ofValue_value (status : NodeStatus) : ofValue status.value = .ok status := by
  cases status <;> rfl

end NodeStatus

structure ClusterNode where
  nodeId : Str
  address : Str
  port : Int := defaultClusterPort
  status : NodeStatus := .online
  lastHeartbeat : Str := []
  load : Int := 0
  version : Int := 0
  clusterToken : Str := []
  deriving DecidableEq, Repr

structure ScanRequest where
  scanId : Str
  command : List Str
  priority : Int := 0
  assignedNode : Option Str := none
  createdAt : Str := []
  status : Str := "pending".toList
  version : Int := 0
  deriving DecidableEq, Repr

-- What from_dict reads of a dict; a key that is missing is none.
structure NodeData where
  nodeId : Option Str := none
  address : Option Str := none
  port : Option Int := none
  status : Option Str := none
  lastHeartbeat : Option Str := none
  load : Option Int := none
  version : Option Int := none
  clusterToken : Option Str := none

structure ScanData where
  scanId : Option Str := none
  command : Option (List Str) := none
  priority : Option Int := none
  assignedNode : Option Str := none
  createdAt : Option Str := none
  status : Option Str := none
  version : Option Int := none

def item {α : Type} : Option α → Except PyError α
  | none => .error .keyError
  | some a => .ok a

namespace ClusterNode

def named (nodeId : String) : ClusterNode :=
  { nodeId := nodeId.toList, address := "10.0.0.1".toList }

def toDict (node : ClusterNode) : NodeData where
  nodeId := some node.nodeId
  address := some node.address
  port := some node.port
  status := some node.status.value
  lastHeartbeat := some node.lastHeartbeat
  load := some node.load
  version := some node.version
  clusterToken := some node.clusterToken

-- none is an entry that is not a dict.
def fromDict : Option NodeData → Except PyError ClusterNode
  | none => .error .typeError
  | some data => do
    let nodeId ← item data.nodeId
    let address ← item data.address
    let status ← NodeStatus.ofValue (data.status.getD "online".toList)
    return {
      nodeId := nodeId
      address := address
      port := data.port.getD defaultClusterPort
      status := status
      lastHeartbeat := data.lastHeartbeat.getD []
      load := data.load.getD 0
      version := data.version.getD 0
      clusterToken := data.clusterToken.getD [] }

@[simp] theorem fromDict_toDict (node : ClusterNode) : fromDict (some node.toDict) = .ok node := by
  simp only [fromDict, toDict, item, Option.getD_some, NodeStatus.ofValue_value]
  rfl

end ClusterNode

namespace ScanRequest

def named (scanId : String) : ScanRequest := { scanId := scanId.toList, command := ["true".toList] }

def toDict (scan : ScanRequest) : ScanData where
  scanId := some scan.scanId
  command := some scan.command
  priority := some scan.priority
  assignedNode := scan.assignedNode
  createdAt := some scan.createdAt
  status := some scan.status
  version := some scan.version

def fromDict : Option ScanData → Except PyError ScanRequest
  | none => .error .typeError
  | some data => do
    let scanId ← item data.scanId
    let command ← item data.command
    return {
      scanId := scanId
      command := command
      priority := data.priority.getD 0
      assignedNode := data.assignedNode
      createdAt := data.createdAt.getD []
      status := data.status.getD "pending".toList
      version := data.version.getD 0 }

@[simp] theorem fromDict_toDict (scan : ScanRequest) : fromDict (some scan.toDict) = .ok scan := rfl

end ScanRequest

end PicoSentry.Sandbox.Cluster
