import MetaDedup.Server.MetadataPackage
import MetaDedup.Server.Stages

/-! # A connection of the data port

The main loop of `SocketHandlerData` for the messages of an upload. The buffers of the
connection keep what earlier messages have left in them. -/

namespace MetaDedup.Server

open Foundation

/-- The messages of an upload: `META` with a package, and `DATA` with the bytes of
shares. -/
inductive DataRequest
  | metadata (package : List Byte)
  | shareData (body : List Byte)

structure DataConnection where
  core : MinDedupCore
  user : Int
  buffer : Buffer Byte
  metaBuffer : Buffer Byte
  metaSize : Nat
  statusList : Buffer Bool

namespace DataConnection

def package (connection : DataConnection) : List FileShareMD :=
  readPackage connection.metaBuffer connection.metaSize

def receive (connection : DataConnection) (message : List Byte) : DataConnection :=
  { connection with buffer := connection.buffer.write 0 message }

def keepPackage (connection : DataConnection) (size : Nat) : DataConnection :=
  { connection with
    metaBuffer := connection.metaBuffer.copy 0 connection.buffer size
    metaSize := size }

/-- A `META` message is answered with the status list of the first stage. -/
def receiveMetadata (connection : DataConnection) (message : List Byte) :
    DataConnection × List Bool :=
  let kept := (connection.receive message).keepPackage message.length
  let stage := kept.core.firstStageDedup kept.user kept.package
  ({ kept with
      core := stage.1
      statusList := kept.statusList.write 0 stage.2.intraUserDupStatList },
    stage.2.intraUserDupStatList)

/-- A `DATA` message goes to the second stage; the returned flag is what that
returns. -/
def receiveShareData (generateHash : List Byte → Fingerprint)
    (connection : DataConnection) (message : List Byte)
    (expired : ShareContainerBuffer → Bool) : DataConnection × Bool :=
  let received := connection.receive message
  match received.core.secondStageDedup generateHash received.user received.package
      received.statusList received.buffer expired with
  | .ok core => ({ received with core := core }, true)
  | .error core => ({ received with core := core }, false)

/-- The number of bytes of the message that the second stage takes. -/
def consumedData (generateHash : List Byte → Fingerprint) (connection : DataConnection)
    (message : List Byte) (expired : ShareContainerBuffer → Bool) : Nat :=
  let received := connection.receive message
  received.core.consumedData generateHash received.user received.package
    received.statusList received.buffer expired

end DataConnection

end MetaDedup.Server
