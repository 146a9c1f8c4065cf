import Nao.FatFs.Volume
import Nao.Lib.CString

/-!
# NaoEdit — definitions

`execute_actual_open`, `execute_actual_save` and the text area of `naoedit.c`.

FatFs is seen here as a store of file contents by path. What the calls answer is given
from outside: every result code, how much room the volume has for a write, and what a file
holds when a call on it has failed. `f_write` returns `FR_OK` with a short count when the
volume is full; only a successful `f_close` makes what was written the contents of the
file.
-/

namespace Nao.NaoEdit

open SysLib FatFs

/-- `MAX_TEXT_LEN`. -/
def maxTextLen : Nat := 4096

/-- The contents of the files of a volume. -/
abbrev Files := CStr → Option (List UInt8)

/-- `alert_state`: 0, 1, 2. -/
inductive Alert where
  | none | success | error
  deriving DecidableEq, Repr

structure Editor where
  textBuffer   : Mem
  textLen      : Nat
  alertState   : Alert
  alertMessage : String

-- ---------------------------------------------------------------------------
-- execute_actual_open
-- ---------------------------------------------------------------------------

/-- The answers of FatFs while a file is opened and read. A failing `f_read` may have stored
some bytes already. -/
structure OpenAnswers where
  fOpen     : FResult
  fRead     : FResult
  delivered : Nat

/-- `f_open(&fp, path, FA_READ | FA_OPEN_EXISTING)`. -/
def fOpenRead (a : OpenAnswers) (path : CStr) (vol : Files) : Except FResult (List UInt8) :=
  if a.fOpen = .ok then
    match vol path with
    | some content => .ok content
    | none => .error .noFile
  else .error a.fOpen

/-- `f_read(&fp, buffer, btr, &br)`: the bytes it stores. -/
def fRead (a : OpenAnswers) (content : List UInt8) (btr : Nat) : List UInt8 :=
  if a.fRead = .ok then content.take btr else (content.take btr).take a.delivered

def executeActualOpen (a : OpenAnswers) (path : CStr) (vol : Files) (e : Editor) : Editor :=
  match fOpenRead a path vol with
  | .ok content =>
    let bytes := fRead a content (maxTextLen - 1)
    let e := { e with textBuffer := e.textBuffer.blit 0 bytes }
    if a.fRead = .ok then
      { e with
        textBuffer := e.textBuffer.write8 bytes.length 0, textLen := bytes.length
        alertState := .none }
    else { e with alertState := .error, alertMessage := "Failed to read file data." }
  | .error _ => { e with alertState := .error, alertMessage := "File not found / Invalid path." }

-- ---------------------------------------------------------------------------
-- execute_actual_save
-- ---------------------------------------------------------------------------

/-- The answers of FatFs while a file is written. `residue` is what the file holds when
`f_write` or `f_close` has failed. -/
structure SaveAnswers where
  fOpen   : FResult
  fWrite  : FResult
  room    : Nat
  fClose  : FResult
  residue : List UInt8

/-- `FIL`, open for writing: what has been written to it, unless a write failed. -/
structure Fil where
  path    : CStr
  written : Option (List UInt8)

/-- `f_open(&fp, path, FA_WRITE | FA_CREATE_ALWAYS)`: the file is there and empty. -/
def fOpenCreate (path : CStr) (vol : Files) : Fil × Files :=
  ({ path := path, written := some [] }, Function.update vol path (some []))

/-- `f_write(&fp, buffer, btw, &bw)`. -/
def fWrite (a : SaveAnswers) (fp : Fil) (bytes : List UInt8) : Fil :=
  if a.fWrite = .ok then { fp with written := fp.written.map (· ++ bytes.take a.room) }
  else { fp with written := none }

/-- `f_close(&fp)`. -/
def fClose (a : SaveAnswers) (fp : Fil) (vol : Files) : Files :=
  if a.fClose = .ok then Function.update vol fp.path (some (fp.written.getD a.residue))
  else Function.update vol fp.path (some a.residue)

def executeActualSave (a : SaveAnswers) (path : CStr) (vol : Files) (e : Editor) : Editor × Files :=
  if a.fOpen = .ok then
    let (fp, vol) := fOpenCreate path vol
    let fp := fWrite a fp (e.textBuffer.slice 0 e.textLen)
    let e :=
      if a.fWrite = .ok then
        { e with alertState := .success, alertMessage := "File written securely to disk." }
      else { e with alertState := .error, alertMessage := "Storage write cycle failed." }
    (e, fClose a fp vol)
  else ({ e with alertState := .error, alertMessage := "Cannot open path for writing." }, vol)

-- ---------------------------------------------------------------------------
-- The text area
-- ---------------------------------------------------------------------------

/-- `nk_edit_string_zero_terminated(.., buffer, max, ..)` on an array of `size` bytes, with
the text typed by the user if there is any. -/
def nkEditBytes (size max : Nat) (typed : Option (List UInt8)) (buffer : Mem) : Mem :=
  match typed with
  | none => buffer.write8 (min (max - 1) (min (buffer.strlen size) (max - 1))) 0
  | some text => (buffer.blit 0 (text.take max)).write8 (min (max - 1) (text.take max).length) 0

/-- The text area of a frame, and the recomputation of `text_len`. -/
def textArea (typed : Option (List UInt8)) (e : Editor) : Editor :=
  let buffer := nkEditBytes maxTextLen (maxTextLen - 1) typed e.textBuffer
  { e with textBuffer := buffer, textLen := buffer.strlen maxTextLen }

end Nao.NaoEdit
