import Mathlib.Logic.Function.Basic
import MetaDedup.Wire.FileNames

/-! # The keystore

The server keeps the key recipes it receives in files of `meta/keystore`. A file is
named after the path of the uploaded file and the index of the server; a `KEY_RECIPE`
message replaces what is in it. -/

namespace MetaDedup.Server

open Wire

/-- The contents of the files of `meta/keystore`. -/
abbrev Keystore := List Byte → Option (List Byte)

/-- The key recipe of an upload, as it is sent to the server with the given index. The
server learns the user when the connection is opened and does not use it here. -/
structure KeyRecipeUpload where
  user : Int
  path : List Byte
  index : Nat
  keyRecipe : List Byte
  deriving DecidableEq

def keystoreFile (path : List Byte) (index : Nat) : List Byte :=
  directoryEntry (encFileName path index)

namespace Keystore

def receiveKeyRecipe (keystore : Keystore) (upload : KeyRecipeUpload) : Keystore :=
  Function.update keystore (keystoreFile upload.path upload.index) (some upload.keyRecipe)

def receiveAll (keystore : Keystore) (uploads : List KeyRecipeUpload) : Keystore :=
  uploads.foldl receiveKeyRecipe keystore

def getKeyRecipe (keystore : Keystore) (path : List Byte) (index : Nat) :
    Option (List Byte) :=
  keystore (keystoreFile path index)

def targets (file : List Byte) (upload : KeyRecipeUpload) : Bool :=
  keystoreFile upload.path upload.index == file

private theorem receiveAll_apply (keystore : Keystore) (uploads : List KeyRecipeUpload)
    (file : List Byte) :
    keystore.receiveAll uploads file =
      (((uploads.filter (targets file)).getLast?).map KeyRecipeUpload.keyRecipe).or
        (keystore file) := by
  induction uploads generalizing keystore with
  | nil => rfl
  | cons upload rest induction =>
      rw [receiveAll, List.foldl_cons]
      change receiveAll (keystore.receiveKeyRecipe upload) rest file = _
      rw [induction, List.filter_cons]
      by_cases equal : keystoreFile upload.path upload.index = file
      · have targeted : targets file upload = true := beq_iff_eq.mpr equal
        rw [if_pos targeted, List.getLast?_cons, receiveKeyRecipe, equal,
          Function.update_self]
        cases (rest.filter (targets file)).getLast? <;> rfl
      · have elsewhere : ¬ targets file upload = true := fun same => equal (beq_iff_eq.mp same)
        rw [if_neg elsewhere, receiveKeyRecipe, Function.update_of_ne (Ne.symm equal)]

def sameUpload (own upload : KeyRecipeUpload) : Bool :=
  upload.user == own.user && upload.path == own.path && upload.index == own.index

/-- The later uploads of other users or of other paths that have gone to the file of
`own`. -/
def collisions (own : KeyRecipeUpload) (later : List KeyRecipeUpload) :
    List KeyRecipeUpload :=
  later.filter fun upload =>
    targets (keystoreFile own.path own.index) upload && !sameUpload own upload

/-- After the newest upload of a path by a user, the server returns its key recipe
exactly if no upload of another user or of another path has gone to the same file
since, or the last that has brought the same bytes. -/
theorem key_recipe_kept_iff (keystore : Keystore) (earlier later : List KeyRecipeUpload)
    (own : KeyRecipeUpload) (newest : ∀ upload ∈ later, sameUpload own upload = false) :
    (keystore.receiveAll (earlier ++ own :: later)).getKeyRecipe own.path own.index =
        some own.keyRecipe ↔
      ∀ last ∈ (collisions own later).getLast?, last.keyRecipe = own.keyRecipe := by
  have targeted : targets (keystoreFile own.path own.index) own = true :=
    beq_self_eq_true _
  have others : collisions own later =
      later.filter (targets (keystoreFile own.path own.index)) := by
    apply List.filter_congr
    intro upload member
    rw [newest upload member, Bool.not_false, Bool.and_true]
  rw [getKeyRecipe, receiveAll_apply, List.filter_append, List.getLast?_append,
    List.filter_cons, if_pos targeted, List.getLast?_cons, ← others]
  cases (collisions own later).getLast? with
  | none => simp
  | some last => simp

/-- A later upload of another path, which goes to another file. -/
theorem key_recipe_kept_iff_apart :
    (receiveAll (fun _ => none) [⟨1, [97], 0, [1]⟩, ⟨2, [98], 0, [2]⟩]).getKeyRecipe [97] 0 =
      some [1] :=
  (key_recipe_kept_iff (fun _ => none) [] [⟨2, [98], 0, [2]⟩] ⟨1, [97], 0, [1]⟩
    (by decide)).mpr (by decide)

/-- The names do not carry the user: the key recipe of `a` by user 1 is replaced when
user 2 uploads a file of the same path. And different paths can have one name: `a_b`
replaces the key recipe of `a/b`. -/
theorem key_recipe_replaced :
    (receiveAll (fun _ => none) [⟨1, [97], 0, [1]⟩, ⟨2, [97], 0, [2]⟩]).getKeyRecipe [97] 0 =
      some [2] ∧
    (receiveAll (fun _ => none) [⟨1, [97, 47, 98], 0, [1]⟩, ⟨1, [97, 95, 98], 0, [2]⟩]).getKeyRecipe
      [97, 47, 98] 0 = some [2] := by
  decide

end Keystore

end MetaDedup.Server
