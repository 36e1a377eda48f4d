import MetaDedup.Server.HandlerTermination

/-! # Requests

The requests of the client as it sends them, and what the handlers of the server are to do
with them. The fields of a request are those the handlers receive by single calls of
`recv` and those they receive by loops; whenever the former arrive whole, a pass of the
main loop does what is to be done with the request. -/

namespace MetaDedup.Connections

open Foundation Server Wire

/-! ## What the client sends -/

/-- The requests that consist of a package. -/
inductive PackageKind
  | metadata
  | shareData
  | download
  deriving DecidableEq

def PackageKind.indicator : PackageKind → Int
  | .metadata => metaIndicator
  | .shareData => dataIndicator
  | .download => downloadIndicator

structure PackageRequest where
  kind : PackageKind
  body : List Byte

inductive MetaPortRequest
  | package (request : PackageRequest)
  | keyRecipe (name content : List Byte)
  | getKeyRecipe (name : List Byte)
  | fileRecipe (name head entries : List Byte)

open Incoming (MessageField)

/-- An `int` that is received by a single call. -/
def intField (value : Int) : MessageField Byte := .call (messageInt value)

def PackageRequest.fields (request : PackageRequest) : List (MessageField Byte) :=
  [intField request.kind.indicator, intField request.body.length, .loop request.body]

def MetaPortRequest.fields : MetaPortRequest → List (MessageField Byte)
  | .package request => request.fields
  | .keyRecipe name content =>
      [intField keyRecipeIndicator, intField content.length, intField name.length,
        .call name, .loop content]
  | .getKeyRecipe name =>
      [intField getKeyRecipeIndicator, intField name.length, .call name]
  | .fileRecipe name head entries =>
      [intField fileRecipeIndicator, intField (head ++ entries).length,
        intField name.length, .call name, .call head, .loop entries]

/-- The sizes of a request are values of type `int`. -/
def PackageRequest.WellFormed (request : PackageRequest) : Prop :=
  request.body.length < 2 ^ 31

/-- The sizes of a request are values of type `int`, and a recipe begins with a head. -/
def MetaPortRequest.WellFormed : MetaPortRequest → Prop
  | .package request => request.WellFormed
  | .keyRecipe name content => name.length < 2 ^ 31 ∧ content.length < 2 ^ 31
  | .getKeyRecipe name => name.length < 2 ^ 31
  | .fileRecipe name head entries =>
      name.length < 2 ^ 31 ∧ head.length = fileRecipeHeadSize ∧
        (head ++ entries).length < 2 ^ 31

/-! ## What is to be done with it -/

variable (environment : Environment)

def actMeta (kind : PackageKind) (count : Nat) (memory : HandlerMemory) : HandlerMemory :=
  match kind with
  | .metadata => memory.answerMetadata environment count
  | .shareData => memory.storeShareData
  | .download => memory.restoreMetadata count

def actData (kind : PackageKind) (count : Nat) (memory : HandlerMemory) : HandlerMemory :=
  match kind with
  | .metadata => memory.answerMetadata environment count
  | .shareData => memory.storeShareData
  | .download => memory.restoreData count

/-- The parts of a package request go to the beginning of the buffer one after the
other. -/
def PackageRequest.load (request : PackageRequest) (memory : HandlerMemory) : HandlerMemory :=
  ((memory.load (messageInt request.kind.indicator)).load
    (messageInt request.body.length)).load request.body

def serveData (memory : HandlerMemory) (request : PackageRequest) : Next × HandlerMemory :=
  (.again, actData environment request.kind request.body.length (request.load memory))

def serveMeta (memory : HandlerMemory) : MetaPortRequest → Next × HandlerMemory
  | .package request =>
      (.again, actMeta environment request.kind request.body.length (request.load memory))
  | .keyRecipe name content =>
      let named := ((memory.load (messageInt keyRecipeIndicator)).load
        (messageInt content.length)).load (messageInt name.length)
      (.again, (named.perform (.createKeyFile (rewriteName name))).perform
        (.writeKeyFile (rewriteName name) content))
  | .getKeyRecipe name =>
      let opened := ((memory.load (messageInt getKeyRecipeIndicator)).load
        (messageInt name.length)).perform (.openKeyFile (rewriteName name))
      match environment.keyFile opened.operations with
      | none => (.leave, opened)
      | some content => (.again, opened.sendKeyFile content)
  | .fileRecipe name head entries =>
      let named := ((memory.load (messageInt fileRecipeIndicator)).lockMutex.load
        (messageInt (head ++ entries).length)).load (messageInt name.length)
      (.leave, (named.perform (.appendRecipe (rewriteName name) (head ++ entries))).unlockMutex)

/-- The requests of a connection, up to the one after which the handler leaves. -/
def serveAll {Request : Type} (serve : HandlerMemory → Request → Next × HandlerMemory) :
    HandlerMemory → List Request → HandlerMemory
  | memory, [] => memory
  | memory, request :: rest =>
      match serve memory request with
      | (.leave, memory) => memory
      | (.again, memory) => serveAll serve memory rest

/-! ## Receiving fields that arrive whole -/

section Receive

private theorem messageInt_length (value : Int) : (messageInt value).length = intSize :=
  wordBytes_length _ _

theorem word_load (memory : HandlerMemory) (connection : Incoming Byte) {value : Int}
    (small : -(2 ^ 31) ≤ value) (large : value < 2 ^ 31) :
    Handler.word ⟨memory.load (messageInt value), connection⟩ = value := by
  have read := memory.buffer.readInt_writeInt 0 intSize value
  rw [Int.bmod_eq_of_le (by simpa [intSize] using small) (by simpa [intSize] using large)] at read
  exact read

theorem word_load_length (memory : HandlerMemory) (connection : Incoming Byte) {count : Nat}
    (small : count < 2 ^ 31) :
    Handler.word ⟨memory.load (messageInt count), connection⟩ = count := by
  have bound : (count : Int) < 2 ^ 31 := by exact_mod_cast small
  exact word_load memory connection (by omega) bound

theorem recv_int (memory : HandlerMemory) {connection left : Incoming Byte} {value : Int}
    {rest : List (MessageField Byte)}
    (delivers : Incoming.Delivers (intField value :: rest) connection left) :
    ∃ next, Handler.recv ⟨memory, connection⟩ intSize =
        ⟨memory.load (messageInt value), next⟩ ∧
      connection.available ≠ 0 ∧ Incoming.Delivers rest next left := by
  cases delivers with
  | call received later =>
      rw [messageInt_length] at received later
      refine ⟨_, ?_, ?_, later⟩
      · rw [Handler.recv, received]
      · intro dead
        rw [Incoming.taken_of_dead dead] at received
        have size := messageInt_length value
        rw [← received] at size
        cases size

/-- A pass of the main loop finds the bytes it needs and does what `outcome` says. -/
structure PassDoes (requests : Handler → Option Intake) (handler : Handler)
    (outcome : Next × HandlerMemory) (left : Incoming Byte) : Prop where
  served : Handler.Served requests handler
  passed : handler.pass requests .whole = .ok (outcome.1, ⟨outcome.2, left⟩)

theorem pass_of_intake {handler opened : Handler} {requests : Handler → Option Intake}
    {request : Nat → Nat} {retries : Bool}
    {finish : List Byte → HandlerMemory → Next × HandlerMemory} {body : List Byte}
    {left : Incoming Byte} (alive : handler.connection.available ≠ 0)
    (read : requests (handler.recv intSize) =
      some ⟨opened, body.length, request, retries, finish⟩)
    (received : body <+: opened.connection.stream)
    (rest : opened.connection.skip body.length = left) :
    PassDoes requests handler (finish body opened.memory) left := by
  have enough : (body.length : Int) ≤ opened.connection.available := by
    exact_mod_cast received.length_le
  have taken : opened.connection.stream.take body.length = body :=
    (List.prefix_iff_eq_take.mp received).symm
  constructor
  · exact ⟨fun dead => absurd dead alive, fun _ => ⟨_, read, enough⟩⟩
  · rw [Handler.pass_of_alive alive .whole read, Intake.run_whole enough]
    dsimp only
    rw [Int.toNat_natCast, taken, rest]

end Receive

/-! ## One pass -/

section Pass

variable (environment : Environment) (memory : HandlerMemory)
  {connection left : Incoming Byte}

private theorem metaRequest_package (handler : Handler) {kind : PackageKind}
    (indicator : handler.word = kind.indicator) {count : Nat}
    (announced : (handler.recv intSize).word = count) :
    handler.metaRequest environment = some
      { handler := handler.recv intSize
        size := count
        finish := fun bytes memory =>
          (.again, actMeta environment kind bytes.length (memory.load bytes)) } := by
  have others : handler.word ≠ keyRecipeIndicator ∧ handler.word ≠ getKeyRecipeIndicator ∧
      handler.word ≠ fileRecipeIndicator := by
    rw [indicator]
    cases kind <;> decide
  rw [Handler.metaRequest, if_neg others.1, if_neg others.2.1, if_neg others.2.2]
  cases kind with
  | metadata =>
      rw [PackageKind.indicator] at indicator
      rw [if_pos indicator, Handler.receiveMetadata, announced]
      rfl
  | shareData =>
      rw [PackageKind.indicator] at indicator
      rw [if_neg (by rw [indicator]; decide), if_pos indicator, Handler.receiveShareData,
        announced]
      rfl
  | download =>
      rw [PackageKind.indicator] at indicator
      rw [if_neg (by rw [indicator]; decide), if_neg (by rw [indicator]; decide),
        if_pos indicator, Handler.downloadMetadata, announced]
      rfl

private theorem dataRequest_package (handler : Handler) {kind : PackageKind}
    (indicator : handler.word = kind.indicator) {count : Nat}
    (announced : (handler.recv intSize).word = count) :
    ∃ finish, handler.dataRequest environment =
        some { handler := handler.recv intSize, size := count, finish } ∧
      ∀ bytes memory, bytes.length = count → finish bytes memory =
        (.again, actData environment kind bytes.length (memory.load bytes)) := by
  cases kind with
  | metadata =>
      rw [PackageKind.indicator] at indicator
      rw [Handler.dataRequest, if_pos indicator, Handler.receiveMetadata, announced]
      exact ⟨_, rfl, fun _ _ _ => rfl⟩
  | shareData =>
      rw [PackageKind.indicator] at indicator
      rw [Handler.dataRequest, if_neg (by rw [indicator]; decide), if_pos indicator,
        Handler.receiveShareData, announced]
      exact ⟨_, rfl, fun _ _ _ => rfl⟩
  | download =>
      rw [PackageKind.indicator] at indicator
      rw [Handler.dataRequest, if_neg (by rw [indicator]; decide),
        if_neg (by rw [indicator]; decide), if_pos indicator, Handler.downloadData,
        announced, if_neg (by omega)]
      refine ⟨_, rfl, ?_⟩
      intro bytes memory same
      rw [Int.toNat_natCast, ← same]
      rfl

theorem PackageKind.indicator_load (kind : PackageKind) (memory : HandlerMemory)
    (connection : Incoming Byte) :
    Handler.word ⟨memory.load (messageInt kind.indicator), connection⟩ = kind.indicator := by
  cases kind <;> exact word_load memory connection (by decide) (by decide)

theorem PackageRequest.receive (request : PackageRequest) (memory : HandlerMemory)
    (wellFormed : request.WellFormed)
    (delivers : Incoming.Delivers request.fields connection left) :
    ∃ kinded sized, connection.available ≠ 0 ∧
      Handler.recv ⟨memory, connection⟩ intSize =
        ⟨memory.load (messageInt request.kind.indicator), kinded⟩ ∧
      Handler.recv ⟨memory.load (messageInt request.kind.indicator), kinded⟩ intSize =
        ⟨(memory.load (messageInt request.kind.indicator)).load
          (messageInt request.body.length), sized⟩ ∧
      (Handler.recv ⟨memory.load (messageInt request.kind.indicator), kinded⟩ intSize).word =
        request.body.length ∧
      request.body <+: sized.stream ∧ sized.skip request.body.length = left := by
  rcases recv_int memory delivers with ⟨kinded, first, alive, delivers⟩
  rcases recv_int _ delivers with ⟨sized, second, _, delivers⟩
  cases delivers with
  | loop received later =>
      refine ⟨kinded, sized, alive, first, second, ?_, received, later.nil_eq⟩
      rw [second]
      exact word_load_length _ sized wellFormed

variable {request : PackageRequest}

theorem serveData_pass (wellFormed : request.WellFormed)
    (delivers : Incoming.Delivers request.fields connection left) :
    PassDoes (Handler.dataRequest environment) ⟨memory, connection⟩
      (serveData environment memory request) left := by
  rcases request.receive memory wellFormed delivers with
    ⟨kinded, sized, alive, first, second, announced, received, rest⟩
  rcases dataRequest_package environment
    ⟨memory.load (messageInt request.kind.indicator), kinded⟩
    (request.kind.indicator_load memory kinded) announced with ⟨finish, read, finished⟩
  rw [second, ← first] at read
  have passed := pass_of_intake alive read received rest
  rw [finished _ _ rfl] at passed
  exact passed

private theorem servePackage_pass (wellFormed : request.WellFormed)
    (delivers : Incoming.Delivers request.fields connection left) :
    PassDoes (Handler.metaRequest environment) ⟨memory, connection⟩
      (serveMeta environment memory (.package request)) left := by
  rcases request.receive memory wellFormed delivers with
    ⟨kinded, sized, alive, first, second, announced, received, rest⟩
  have read := metaRequest_package environment
    ⟨memory.load (messageInt request.kind.indicator), kinded⟩
    (request.kind.indicator_load memory kinded) announced
  rw [second, ← first] at read
  exact pass_of_intake alive read received rest

variable {handler : Handler} {name : List Byte}

theorem name_of_taken (size : handler.word = name.length)
    (received : handler.connection.taken name.length = name) :
    handler.name environment = rewriteName name ∧
      handler.afterName = ⟨handler.memory, handler.connection.after name.length⟩ := by
  rw [Handler.name, Handler.afterName, size, Int.toNat_natCast, received, Buffer.slice_write]
  exact ⟨rfl, rfl⟩

private theorem metaRequest_keyRecipe (indicator : handler.word = keyRecipeIndicator) :
    handler.metaRequest environment = handler.keyRecipe environment :=
  if_pos indicator

private theorem metaRequest_getKeyRecipe (indicator : handler.word = getKeyRecipeIndicator) :
    handler.metaRequest environment = handler.getKeyRecipe environment := by
  rw [Handler.metaRequest, if_neg (by rw [indicator]; decide), if_pos indicator]

private theorem metaRequest_fileRecipe (indicator : handler.word = fileRecipeIndicator) :
    handler.metaRequest environment = handler.fileRecipe environment := by
  rw [Handler.metaRequest, if_neg (by rw [indicator]; decide),
    if_neg (by rw [indicator]; decide), if_pos indicator]

variable {named : Handler}

private theorem keyRecipe_eq {sized : Handler} {content : List Byte}
    (second : handler.recv intSize = sized) (third : sized.recv intSize = named)
    (length : sized.word = content.length) (nameSize : named.word = name.length)
    (received : named.connection.taken name.length = name) :
    handler.keyRecipe environment = some
      { handler := ⟨named.memory.perform (.createKeyFile (rewriteName name)),
          named.connection.after name.length⟩
        size := content.length
        finish := fun content memory =>
          (.again, memory.perform (.writeKeyFile (rewriteName name) content)) } := by
  rcases name_of_taken environment nameSize received with ⟨rewritten, after⟩
  have nonnegative : ¬((content.length : Int) < 0 ∨ (name.length : Int) < 0) := by omega
  rw [Handler.keyRecipe, second, third, length, nameSize, if_neg nonnegative, rewritten, after]
  rfl

private theorem getKeyRecipe_eq
    (second : handler.recv intSize = named) (nameSize : named.word = name.length)
    (received : named.connection.taken name.length = name) :
    handler.getKeyRecipe environment = some
      { handler := ⟨named.memory.perform (.openKeyFile (rewriteName name)),
          named.connection.after name.length⟩
        size := ([] : List Byte).length
        finish := fun _ memory =>
          match environment.keyFile memory.operations with
          | none => (.leave, memory)
          | some content => (.again, memory.sendKeyFile content) } := by
  rcases name_of_taken environment nameSize received with ⟨rewritten, after⟩
  have nonnegative : ¬(name.length : Int) < 0 := by omega
  rw [Handler.getKeyRecipe, second, nameSize, if_neg nonnegative, rewritten, after]
  rfl

private theorem fileRecipe_eq {memory : HandlerMemory} {connection : Incoming Byte}
    {sized : Handler} {head entries : List Byte}
    (second : Handler.recv ⟨memory.lockMutex, connection⟩ intSize = sized)
    (third : sized.recv intSize = named)
    (length : sized.word = (head ++ entries).length) (nameSize : named.word = name.length)
    (received : named.connection.taken name.length = name)
    (headSize : head.length = fileRecipeHeadSize)
    (small : (head ++ entries).length < 2 ^ 31)
    (header : (named.connection.after name.length).taken head.length = head) :
    Handler.fileRecipe environment ⟨memory, connection⟩ = some
      { handler := ⟨named.memory,
          (named.connection.after name.length).after head.length⟩
        size := entries.length
        request := Handler.recipeRequest
        retries := false
        finish := fun entries memory => (.leave, (memory.perform
          (.appendRecipe (rewriteName name) (head ++ entries))).unlockMutex) } := by
  rcases name_of_taken environment nameSize received with ⟨rewritten, after⟩
  have nonnegative : ¬(name.length : Int) < 0 := by omega
  have rest : (((head ++ entries).length : Int) - fileRecipeHeadSize).bmod (2 ^ (8 * intSize)) =
      entries.length := by
    have modulus : 2 ^ (8 * intSize) = 4294967296 := rfl
    rw [List.length_append, headSize] at small ⊢
    rw [modulus, Int.bmod_eq_of_le (by omega) (by omega)]
    omega
  rw [Handler.fileRecipe, second, third, length, nameSize, if_neg nonnegative, rewritten, after,
    rest, ← headSize]
  dsimp only
  rw [header, Buffer.slice_write]

private theorem serveKeyRecipe_pass {content : List Byte}
    (wellFormed : MetaPortRequest.WellFormed (.keyRecipe name content))
    (delivers : Incoming.Delivers (MetaPortRequest.fields (.keyRecipe name content))
      connection left) :
    PassDoes (Handler.metaRequest environment) ⟨memory, connection⟩
      (serveMeta environment memory (.keyRecipe name content)) left := by
  rcases recv_int memory delivers with ⟨kinded, first, alive, delivers⟩
  rcases recv_int (memory.load (messageInt keyRecipeIndicator)) delivers with
    ⟨sized, second, _, delivers⟩
  rcases recv_int ((memory.load (messageInt keyRecipeIndicator)).load
    (messageInt content.length)) delivers with ⟨named, third, _, delivers⟩
  cases delivers with
  | call received delivers =>
      cases delivers with
      | loop body later =>
          have read := keyRecipe_eq environment second third
            (word_load_length _ sized wellFormed.2) (word_load_length _ named wellFormed.1)
            received
          rw [← metaRequest_keyRecipe environment
            (word_load memory kinded (by decide) (by decide)), ← first] at read
          exact pass_of_intake alive read body later.nil_eq

private theorem serveGetKeyRecipe_pass
    (wellFormed : MetaPortRequest.WellFormed (.getKeyRecipe name))
    (delivers : Incoming.Delivers (MetaPortRequest.fields (.getKeyRecipe name))
      connection left) :
    PassDoes (Handler.metaRequest environment) ⟨memory, connection⟩
      (serveMeta environment memory (.getKeyRecipe name)) left := by
  rcases recv_int memory delivers with ⟨kinded, first, alive, delivers⟩
  rcases recv_int (memory.load (messageInt getKeyRecipeIndicator)) delivers with
    ⟨named, second, _, delivers⟩
  cases delivers with
  | call received later =>
      have read := getKeyRecipe_eq environment second
        (word_load_length _ named wellFormed) received
      rw [← metaRequest_getKeyRecipe environment
        (word_load memory kinded (by decide) (by decide)), ← first] at read
      have rest := later.nil_eq
      rw [← Incoming.skip_zero (Incoming.after _ _)] at rest
      rw [serveMeta]
      exact pass_of_intake alive read List.nil_prefix rest

private theorem serveFileRecipe_pass {head entries : List Byte}
    (wellFormed : MetaPortRequest.WellFormed (.fileRecipe name head entries))
    (delivers : Incoming.Delivers (MetaPortRequest.fields (.fileRecipe name head entries))
      connection left) :
    PassDoes (Handler.metaRequest environment) ⟨memory, connection⟩
      (serveMeta environment memory (.fileRecipe name head entries)) left := by
  rcases recv_int memory delivers with ⟨kinded, first, alive, delivers⟩
  rcases recv_int (memory.load (messageInt fileRecipeIndicator)).lockMutex delivers with
    ⟨sized, second, _, delivers⟩
  rcases recv_int ((memory.load (messageInt fileRecipeIndicator)).lockMutex.load
    (messageInt (head ++ entries).length)) delivers with ⟨named, third, _, delivers⟩
  cases delivers with
  | call received delivers =>
      cases delivers with
      | call header delivers =>
          cases delivers with
          | loop body later =>
              have read := fileRecipe_eq environment second third
                (word_load_length _ sized wellFormed.2.2)
                (word_load_length _ named wellFormed.1) received wellFormed.2.1
                wellFormed.2.2 header
              rw [← metaRequest_fileRecipe environment
                (word_load memory kinded (by decide) (by decide)), ← first] at read
              exact pass_of_intake alive read body later.nil_eq

theorem serveMeta_pass {request : MetaPortRequest} (wellFormed : request.WellFormed)
    (delivers : Incoming.Delivers request.fields connection left) :
    PassDoes (Handler.metaRequest environment) ⟨memory, connection⟩
      (serveMeta environment memory request) left := by
  cases request with
  | package request => exact servePackage_pass environment memory wellFormed delivers
  | keyRecipe name content => exact serveKeyRecipe_pass environment memory wellFormed delivers
  | getKeyRecipe name => exact serveGetKeyRecipe_pass environment memory wellFormed delivers
  | fileRecipe name head entries =>
      exact serveFileRecipe_pass environment memory wellFormed delivers

end Pass

/-! ## Whole connections -/

/-- What the constructor of `Socket` sends. -/
def userField (user : BitVec 32) : MessageField Byte := .call (htonl user)

private theorem start_of_delivers (allocation : Handler.Allocation) {user : BitVec 32}
    {rest : List (MessageField Byte)} {connection left : Incoming Byte}
    (delivers : Incoming.Delivers (userField user :: rest) connection left) :
    Handler.start allocation connection =
        ⟨allocation.memory user.toInt, connection.after intSize⟩ ∧
      Incoming.Delivers rest (connection.after intSize) left := by
  cases delivers with
  | call received later =>
      rw [htonl_length] at received later
      refine ⟨?_, later⟩
      rw [Handler.start, received, Buffer.slice_write_of_length _ _ (htonl_length user),
        ntohl_htonl]

section Run

variable {Request : Type} {fields : Request → List (MessageField Byte)}
  {serve : HandlerMemory → Request → Next × HandlerMemory} {WellFormed : Request → Prop}
  {requests : Handler → Option Intake}
  (lawful : ∀ {handler intake}, requests handler = some intake →
    Handler.Lawful handler intake)
  (serves : ∀ memory {connection left request}, WellFormed request →
    Incoming.Delivers (fields request) connection left →
      PassDoes requests ⟨memory, connection⟩ (serve memory request) left)
include lawful serves

/-- The main loop does what is to be done with the requests of a connection whose fields
arrive whole, and ends when the connection is closed. -/
theorem mainLoop_serves {sent : List Request} (wellFormed : ∀ request ∈ sent, WellFormed request)
    (memory : HandlerMemory) {connection left : Incoming Byte}
    (delivers : Incoming.Delivers (sent.flatMap fields) connection left)
    (dead : left.available = 0) (closed : left.ending = .closed) {limit passes : Nat}
    (allowed : connection.available ≤ limit) (enough : connection.available < passes) :
    ∃ final, Handler.mainLoop requests (.loop limit) passes ⟨memory, connection⟩ =
      .ok ⟨serveAll serve memory sent, final⟩ := by
  induction passes generalizing sent memory connection with
  | zero => omega
  | succ passes induction =>
      cases sent with
      | nil =>
          have same : connection = left := delivers.nil_eq
          rw [← same] at dead closed
          rw [Handler.mainLoop, Handler.pass_of_closed dead closed]
          exact ⟨connection, rfl⟩
      | cons request rest =>
          rcases delivers.append with ⟨middle, former, latter⟩
          rcases serves memory (wellFormed request List.mem_cons_self) former with
            ⟨served, passed⟩
          have looped := (served.pass_loop lawful limit).resolve_right
            fun few => absurd few.1 (Nat.not_lt.mpr allowed)
          rw [Handler.mainLoop, looped, passed, serveAll]
          rcases served.pass_whole lawful with ⟨next, after, whole, shrinks⟩
          rw [passed] at whole
          cases step : serve memory request with
          | mk following changed =>
              rw [step] at whole
              cases whole
              cases following with
              | leave => exact ⟨middle, rfl⟩
              | again =>
                  have less := (shrinks rfl).1
                  exact induction (fun later member =>
                    wellFormed later (List.mem_cons_of_mem _ member)) changed latter
                    (by dsimp only at less; omega) (by dsimp only at less; omega)

theorem start_serves {sent : List Request} (wellFormed : ∀ request ∈ sent, WellFormed request)
    (allocation : Handler.Allocation) {user : BitVec 32} {connection left : Incoming Byte}
    (delivers : Incoming.Delivers (userField user :: sent.flatMap fields) connection left)
    (dead : left.available = 0) (closed : left.ending = .closed) {passes : Nat}
    (enough : connection.available < passes) :
    ∃ final, (Handler.start allocation connection).mainLoop requests (.loop passes) passes =
      .ok ⟨serveAll serve (allocation.memory user.toInt) sent, final⟩ := by
  rcases start_of_delivers allocation delivers with ⟨started, delivers⟩
  have shrinks := connection.after_available intSize
  rw [started]
  exact mainLoop_serves lawful serves wellFormed _ delivers dead closed (by omega) (by omega)

end Run

end MetaDedup.Connections
