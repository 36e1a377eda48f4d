import MetaDedup.Foundation.Incoming
import MetaDedup.Server.RecipeStore
import MetaDedup.Wire.FileNames
import MetaDedup.Wire.ShareFile

/-! # The connection handlers

`SocketHandlerMeta` and `SocketHandlerData` as they call `recv`. The sizes, the names and
the head of a recipe are each received by a single call, into memory that keeps what was
there before wherever the call returns less than it was asked for. The packages, the key
recipes and the entries of a recipe are received by loops.

Buffers have no end here, so writing over it is not modelled. Calls of `send` send
everything, and the files of the two directories can be created. -/

namespace MetaDedup.Server

open Foundation Wire

/-! ## Indicators -/

def metaIndicator : Int := -1

def dataIndicator : Int := -2

def statIndicator : Int := -3

def downloadIndicator : Int := -7

def keyRecipeIndicator : Int := -101

def getKeyRecipeIndicator : Int := -102

def fileRecipeIndicator : Int := -103

def messageInt (value : Int) : List Byte :=
  wordBytes intSize (BitVec.ofInt (8 * intSize) value).toNat

/-! ## What a handler does -/

/-- The actions of a handler outside of its memory. A name is the one behind the name of
the directory. -/
inductive Operation
  | lock
  | unlock
  /-- `fopen` of a file of `meta/keystore` for writing, which empties it. -/
  | createKeyFile (name : List Byte)
  | writeKeyFile (name content : List Byte)
  | openKeyFile (name : List Byte)
  /-- What is written to a file of `meta/RecipeFiles` until `fclose`. -/
  | appendRecipe (name bytes : List Byte)
  | firstStageDedup (user : Int) (metadata : List Byte) (statusList : Buffer Bool)
  | secondStageDedup (user : Int) (metadata : List Byte) (statusList : Buffer Bool)
      (shareData : Buffer Byte)
  | restoreShareFile (user : Int) (fullFileName : List Byte)
  | send (bytes : List Byte)

/-- What a handler finds outside of its memory, and in memory that is not set, after the
operations it has performed. -/
structure Environment where
  namebuffer : List Operation → Buffer Byte
  headerbuffer : List Operation → Buffer Byte
  /-- The content of the file that has just been opened, if there is one. -/
  keyFile : List Operation → Option (List Byte)
  /-- The status list and the number of shares after the first stage. -/
  firstStageDedup : List Operation → Buffer Bool × Int

/-- The memory of a handler. `locked` says whether it holds the mutex. -/
structure HandlerMemory where
  user : Int
  buffer : Buffer Byte
  metaBuffer : Buffer Byte
  metaSize : Int
  statusList : Buffer Bool
  numOfShare : Int
  locked : Bool
  operations : List Operation

namespace HandlerMemory

/-- Bytes that `recv` writes to the beginning of the buffer. -/
def load (memory : HandlerMemory) (bytes : List Byte) : HandlerMemory :=
  { memory with buffer := memory.buffer.write 0 bytes }

def word (memory : HandlerMemory) : Int := memory.buffer.readInt 0 intSize

def perform (memory : HandlerMemory) (operation : Operation) : HandlerMemory :=
  { memory with operations := memory.operations ++ [operation] }

def lockMutex (memory : HandlerMemory) : HandlerMemory :=
  { memory.perform .lock with locked := true }

def unlockMutex (memory : HandlerMemory) : HandlerMemory :=
  { memory.perform .unlock with locked := false }

/-- The first stage for the package of `count` bytes in the buffer, and its answer. The
indicator and the number of shares are sent from the buffer. -/
def answerMetadata (environment : Environment) (memory : HandlerMemory) (count : Nat) :
    HandlerMemory :=
  let metaBuffer := memory.metaBuffer.copy 0 memory.buffer count
  let staged := memory.perform
    (.firstStageDedup memory.user (metaBuffer.slice 0 count) memory.statusList)
  let result := environment.firstStageDedup staged.operations
  let statuses := (result.1.slice 0 result.2.toNat).map fun status => if status then 1 else 0
  { (((staged.perform (.send (messageInt statIndicator))).perform
      (.send (messageInt result.2))).perform (.send statuses)) with
    buffer := (memory.buffer.writeInt 0 intSize statIndicator).writeInt 0 intSize result.2
    metaBuffer
    metaSize := count
    statusList := result.1
    numOfShare := result.2 }

/-- The second stage for the bytes in the buffer. -/
def storeShareData (memory : HandlerMemory) : HandlerMemory :=
  memory.perform (.secondStageDedup memory.user
    (memory.metaBuffer.slice 0 memory.metaSize.toNat) memory.statusList memory.buffer)

/-- `DOWNLOAD` in `SocketHandlerMeta`: the name is all that was received. -/
def restoreMetadata (memory : HandlerMemory) (count : Nat) : HandlerMemory :=
  memory.perform (.restoreShareFile memory.user (memory.buffer.slice 0 count))

/-- `DOWNLOAD` in `SocketHandlerData`: the name of a recipe file, under the mutex. A zero
byte is written behind the name, and the name is rewritten in the buffer. -/
def restoreData (memory : HandlerMemory) (packageSize : Nat) : HandlerMemory :=
  let name := rewriteName (memory.buffer.slice 0 packageSize)
  let named :=
    { memory with buffer := (memory.buffer.write packageSize [0]).write 0 name }
  (named.lockMutex.perform (.restoreShareFile memory.user name)).unlockMutex

def sendKeyFile (memory : HandlerMemory) (content : List Byte) : HandlerMemory :=
  (memory.perform (.send (messageInt content.length))).perform (.send content)

end HandlerMemory

/-! ## Receiving -/

structure Handler where
  memory : HandlerMemory
  connection : Incoming Byte

namespace Handler

def recv (handler : Handler) (size : Nat) : Handler where
  memory := handler.memory.load (handler.connection.taken size)
  connection := handler.connection.after size

def word (handler : Handler) : Int := handler.memory.word

def perform (handler : Handler) (operation : Operation) : Handler :=
  { handler with memory := handler.memory.perform operation }

/-- A call of `recv` for a name, whose size is at the beginning of the buffer. -/
def afterName (handler : Handler) : Handler :=
  { handler with connection := handler.connection.after handler.word.toNat }

/-- The name that call receives, as it is rewritten. -/
def name (environment : Environment) (handler : Handler) : List Byte :=
  rewriteName (((environment.namebuffer handler.memory.operations).write 0
    (handler.connection.taken handler.word.toNat)).slice 0 handler.word.toNat)

end Handler

/-- Whether the main loop goes on after a request. -/
inductive Next
  | again
  | leave
  deriving DecidableEq

/-- A request whose fields have been received: how many bytes the loop for the rest is to
receive, by calls for how many, whether it goes on after a failure, and what follows the
loop. A request without such a loop has `size` 0. -/
structure Intake where
  handler : Handler
  size : Int := 0
  request : Nat → Nat := fun missing => missing
  retries : Bool := true
  finish : List Byte → HandlerMemory → Next × HandlerMemory

namespace Handler

variable (environment : Environment) (handler : Handler)

/-- `KEY_RECIPE`. An array of a negative size, and writing a negative number of bytes,
have no defined behaviour. -/
def keyRecipe : Option Intake :=
  let sized := handler.recv intSize
  let named := sized.recv intSize
  if sized.word < 0 ∨ named.word < 0 then none
  else
    let name := named.name environment
    some
      { handler := named.afterName.perform (.createKeyFile name)
        size := sized.word
        finish := fun content memory => (.again, memory.perform (.writeKeyFile name content)) }

/-- `GET_KEY_RECIPE`. The handler leaves when there is no such file. -/
def getKeyRecipe : Option Intake :=
  let named := handler.recv intSize
  if named.word < 0 then none
  else
    some
      { handler := named.afterName.perform (.openKeyFile (named.name environment))
        finish := fun _ memory =>
          match environment.keyFile memory.operations with
          | none => (.leave, memory)
          | some content => (.again, memory.sendKeyFile content) }

/-- How many bytes of recipe entries a call asks for. -/
def recipeRequest (missing : Nat) : Nat :=
  if missing ≥ fileRecipeEntrySize * 1000 then fileRecipeEntrySize * 1000 else missing

/-- `FILE_RECIPE`, all of it under the mutex. After a failed call `fwrite` is to write -1
bytes, which has no defined behaviour. -/
def fileRecipe : Option Intake :=
  let sized := Handler.recv { handler with memory := handler.memory.lockMutex } intSize
  let named := sized.recv intSize
  if named.word < 0 then none
  else
    let opened := named.afterName
    let header := ((environment.headerbuffer opened.memory.operations).write 0
      (opened.connection.taken fileRecipeHeadSize)).slice 0 fileRecipeHeadSize
    some
      { handler := { opened with connection := opened.connection.after fileRecipeHeadSize }
        size := (sized.word - fileRecipeHeadSize).bmod (2 ^ (8 * intSize))
        request := recipeRequest
        retries := false
        finish := fun entries memory =>
          (.leave, (memory.perform
            (.appendRecipe (named.name environment) (header ++ entries))).unlockMutex) }

def receiveMetadata : Option Intake :=
  let sized := handler.recv intSize
  some
    { handler := sized
      size := sized.word
      finish := fun package memory =>
        (.again, (memory.load package).answerMetadata environment package.length) }

def receiveShareData : Option Intake :=
  let sized := handler.recv intSize
  some
    { handler := sized
      size := sized.word
      finish := fun package memory => (.again, (memory.load package).storeShareData) }

def downloadMetadata : Option Intake :=
  let sized := handler.recv intSize
  some
    { handler := sized
      size := sized.word
      finish := fun name memory => (.again, (memory.load name).restoreMetadata name.length) }

/-- `DOWNLOAD` in `SocketHandlerData`. The name ends at the received size, which is no
place in the buffer if it is negative. -/
def downloadData : Option Intake :=
  let sized := handler.recv intSize
  if sized.word < 0 then none
  else
    some
      { handler := sized
        size := sized.word
        finish := fun name memory =>
          (.again, (memory.load name).restoreData sized.word.toNat) }

def unknownRequest : Option Intake :=
  some { handler, finish := fun _ memory => (.again, memory) }

/-- The request that the indicator in the buffer stands for, in `SocketHandlerMeta`. -/
def metaRequest : Option Intake :=
  if handler.word = keyRecipeIndicator then handler.keyRecipe environment
  else if handler.word = getKeyRecipeIndicator then handler.getKeyRecipe environment
  else if handler.word = fileRecipeIndicator then handler.fileRecipe environment
  else if handler.word = metaIndicator then handler.receiveMetadata environment
  else if handler.word = dataIndicator then handler.receiveShareData
  else if handler.word = downloadIndicator then handler.downloadMetadata
  else handler.unknownRequest

/-- The request that the indicator in the buffer stands for, in `SocketHandlerData`. -/
def dataRequest : Option Intake :=
  if handler.word = metaIndicator then handler.receiveMetadata environment
  else if handler.word = dataIndicator then handler.receiveShareData
  else if handler.word = downloadIndicator then handler.downloadData
  else handler.unknownRequest

end Handler

/-! ## The main loop -/

/-- Why a handler has not come to its end. -/
inductive Interruption
  /-- It has made all the passes it may make. -/
  | running
  /-- It has done something that has no defined behaviour. -/
  | undefined
  deriving DecidableEq

/-- A way to receive the bytes of a loop. -/
abbrev Receiver := (request : Nat → Nat) → (retries : Bool) → (size : Int) → Incoming Byte →
  Except (Incoming.Stop × List Byte × Incoming Byte) (List Byte × Incoming Byte)

/-- The loops of the source, with a bound for their passes. -/
def Receiver.loop (passes : Nat) : Receiver := fun request retries size connection =>
  connection.receiveLoop request retries size passes 0 []

/-- Take the bytes from the stream. -/
def Receiver.whole : Receiver := fun _ _ size connection =>
  if size ≤ connection.available then
    .ok (connection.stream.take size.toNat, connection.skip size.toNat)
  else .error (.running, [], connection)

def Intake.run (receiver : Receiver) (intake : Intake) :
    Except (Interruption × Handler) (Next × Handler) :=
  match receiver intake.request intake.retries intake.size intake.handler.connection with
  | .ok (bytes, connection) =>
      let finished := intake.finish bytes intake.handler.memory
      .ok (finished.1, ⟨finished.2, connection⟩)
  | .error (.running, _, connection) => .error (.running, { intake.handler with connection })
  | .error (.failed, _, connection) => .error (.undefined, { intake.handler with connection })

namespace Handler

/-- One pass of the main loop. Only a call that returns 0 ends it. -/
def pass (requests : Handler → Option Intake) (receiver : Receiver) (handler : Handler) :
    Except (Interruption × Handler) (Next × Handler) :=
  let received := handler.recv intSize
  if handler.connection.bytecount intSize = 0 then .ok (.leave, received)
  else
    match requests received with
    | none => .error (.undefined, received)
    | some intake => intake.run receiver

/-- The main loop, with a bound for its passes. -/
def mainLoop (requests : Handler → Option Intake) (receiver : Receiver) :
    (passes : Nat) → Handler → Except (Interruption × Handler) Handler
  | 0, handler => .error (.running, handler)
  | passes + 1, handler =>
      match handler.pass requests receiver with
      | .error interrupted => .error interrupted
      | .ok (.leave, handler) => .ok handler
      | .ok (.again, handler) => mainLoop requests receiver passes handler

/-- The memory of a new handler: `metaSize` is not set, and neither are the buffers. -/
structure Allocation where
  buffer : Buffer Byte
  metaBuffer : Buffer Byte
  metaSize : Int

/-- The memory at the beginning of the main loop, with a cleared buffer. -/
def Allocation.memory (allocation : Allocation) (user : Int) : HandlerMemory where
  user
  buffer := fun _ => 0
  metaBuffer := allocation.metaBuffer
  metaSize := allocation.metaSize
  statusList := fun _ => false
  numOfShare := 0
  locked := false
  operations := []

def start (allocation : Allocation) (connection : Incoming Byte) : Handler :=
  let buffer := allocation.buffer.write 0 (connection.taken intSize)
  ⟨allocation.memory (ntohl (buffer.slice 0 intSize)).toInt, connection.after intSize⟩

end Handler

open Handler in
/-- The handler of the metadata port. Every loop makes at most `passes` passes. -/
def socketHandlerMeta (environment : Environment) (allocation : Allocation) (passes : Nat)
    (connection : Incoming Byte) : Except (Interruption × Handler) Handler :=
  (Handler.start allocation connection).mainLoop (metaRequest environment)
    (.loop passes) passes

open Handler in
def socketHandlerData (environment : Environment) (allocation : Allocation) (passes : Nat)
    (connection : Incoming Byte) : Except (Interruption × Handler) Handler :=
  (Handler.start allocation connection).mainLoop (dataRequest environment)
    (.loop passes) passes

end MetaDedup.Server
