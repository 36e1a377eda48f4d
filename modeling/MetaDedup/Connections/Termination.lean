import MetaDedup.Client.Socket
import MetaDedup.Server.HandlerTermination

/-! # Connections that end

Which handlers of the server and downloads of the client come to their end, for every
stream of bytes, every way in which it arrives in pieces, and both endings. -/

namespace MetaDedup.Connections

open Foundation Server Wire

def emptyEnvironment : Environment where
  namebuffer := fun _ _ => 0
  headerbuffer := fun _ _ => 0
  keyFile := fun _ => none
  firstStageDedup := fun _ => (fun _ => false, 0)

def clearedAllocation : Handler.Allocation where
  buffer := fun _ => 0
  metaBuffer := fun _ => 0
  metaSize := 0

def atOnce (first : Byte) (rest : List Byte) : Incoming Byte where
  pieces := [first :: rest]
  nonempty := by simp
  ending := .closed

/-- A user and a `META` request that announces a package of five bytes. -/
def truncatedMetadata : Incoming Byte :=
  atOnce 0 ([0, 0, 1] ++ messageInt metaIndicator ++ messageInt 5)

/-- A user and a `FILE_RECIPE` request up to the head of the recipe. One entry is to
follow. -/
def truncatedRecipe : Incoming Byte :=
  atOnce 0 ([0, 0, 1] ++ messageInt fileRecipeIndicator ++ messageInt 64 ++ messageInt 1 ++
    [114] ++ List.replicate fileRecipeHeadSize 0)

private theorem not_ends {requests : Handler → Option Intake}
    (lawful : ∀ {handler intake}, requests handler = some intake →
      Handler.Lawful handler intake)
    {handler : Handler} {intake : Intake} (alive : handler.connection.available ≠ 0)
    (read : requests (handler.recv intSize) = some intake)
    (missing : intake.handler.connection.available < intake.size) :
    ¬Ends fun passes => handler.mainLoop requests (.loop passes) passes := by
  rintro ⟨passes, final, ended⟩
  rcases (Handler.served_of_mainLoop lawful ended).complete alive with ⟨found, same, enough⟩
  cases read.symm.trans same
  omega

end MetaDedup.Connections
