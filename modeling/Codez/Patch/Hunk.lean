import Codez.Lib.Text

/-!
Hunks of a patch, and the errors of its parser (`apply-patch/src/parser.rs`).
-/

namespace ApplyPatch

structure UpdateFileChunk where
  /-- A line that narrows down the position of the chunk. -/
  changeContext : Option Text := none
  oldLines : List Text := []
  newLines : List Text := []
  /-- The old lines must be at the end of the file. -/
  isEndOfFile : Bool := false
deriving DecidableEq

inductive Hunk where
  | addFile (path contents : Text)
  | deleteFile (path : Text)
  | updateFile (path : Text) (movePath : Option Text) (chunks : List UpdateFileChunk)
deriving DecidableEq

inductive ParseError where
  | invalidPatchError (message : Text)
  | invalidHunkError (message : Text) (lineNumber : Nat)
deriving DecidableEq

def UpdateFileChunk.isEmpty (c : UpdateFileChunk) : Bool := c.oldLines.isEmpty && c.newLines.isEmpty

def beginPatchMarker : Text := "*** Begin Patch".toList
def endPatchMarker : Text := "*** End Patch".toList
def addFileMarker : Text := "*** Add File: ".toList
def deleteFileMarker : Text := "*** Delete File: ".toList
def updateFileMarker : Text := "*** Update File: ".toList
def moveToMarker : Text := "*** Move to: ".toList
def eofMarker : Text := "*** End of File".toList
def changeContextMarker : Text := "@@ ".toList
def emptyChangeContextMarker : Text := "@@".toList
def environmentIdMarker : Text := "*** Environment ID:".toList

end ApplyPatch
