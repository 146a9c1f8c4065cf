import Nao.FatFs.Volume
import Nao.Lib.Mem
import Nao.Lib.Traced

/-!
# The ANI loader — definitions

`parse_cur_frame`, `ani_init`, `ani_load`, `ani_play`, `ani_stop` and `ani_update` of
`ani_loader.c`.

All offsets and sizes are 32-bit: a sum that the code stores or compares is taken modulo
`2 ^ 32`, and so is the index behind `file_data`, since an address is 32 bits wide. What a
read finds outside the file is not known; it is a parameter (`File.outside`).

A run records the array cells it touches and the turns of its two loops (`Event`).
-/

namespace Nao.Ani

open SysLib FatFs

def aniMaxFrames : Nat := 16

def aniMaxCursorW : Nat := 32

def aniMaxCursorH : Nat := 32

/-- `ani_frame_t`. -/
structure Frame where
  durationJiffies : Nat
  width           : Nat
  height          : Nat
  hotspotX        : Int
  hotspotY        : Int
  pixels          : Mem

/-- The animation: `ani_frames`, `ani_frame_count`, `ani_active`, `ani_current_frame` and
`ani_frame_start_tick`. -/
structure State where
  frames         : Nat → Frame
  frameCount     : Nat
  active         : Bool
  currentFrame   : Nat
  frameStartTick : Nat

/-- The static variables at boot. -/
def State.boot : State :=
  { frames := fun _ => { durationJiffies := 0, width := 0, height := 0, hotspotX := 0
                         hotspotY := 0, pixels := fun _ => 0 }
    frameCount := 0, active := false, currentFrame := 0, frameStartTick := 0 }

/-- `ani_init`. -/
def aniInit (ani : State) : State :=
  { ani with frameCount := 0, active := false, currentFrame := 0, frameStartTick := 0 }

/-- A four-character code. -/
def fourcc (a b c d : Char) : List UInt8 := [a, b, c, d].map fun ch => UInt8.ofNat ch.toNat

/-- What a load does, besides computing. -/
inductive Event where
  | read (index : Nat)
  | seqWrite (index : Nat)
  | frameWrite (index : Nat)
  | pixelWrite (index : Nat)
  /-- A call of `parse_cur_frame`, for the icon of `size` bytes at `cur`. -/
  | icon (cur size : Nat)
  /-- A turn of the chunk loop. -/
  | chunk (id : List UInt8) (offset size : Nat)
  /-- A turn of the loop over a LIST, with `ani_frame_count` before and after it. -/
  | sub (id : List UInt8) (offset size frames frames' : Nat)
  deriving DecidableEq

-- ---------------------------------------------------------------------------
-- Reading the file
-- ---------------------------------------------------------------------------

/-- The file in `ani_file_buf`, and the memory around it by its index from `file_data`. -/
structure File where
  bytes   : List UInt8
  outside : Nat → UInt8

/-- `file_size`. -/
def File.size (f : File) : Nat := f.bytes.length

def File.get (f : File) (i : Nat) : UInt8 := f.bytes.getD i (f.outside i)

/-- `file_data[i]`. -/
def fileData (f : File) (i : Nat) : Traced Event UInt8 := do
  Traced.tell (.read (i % 2 ^ 32))
  pure (f.get (i % 2 ^ 32))

@[simp] theorem all_fileData {P : Event → Prop} {f : File} {i : Nat} :
    (fileData f i).All P ↔ P (.read (i % 2 ^ 32)) := by
  simp [fileData]

theorem forall_lt_two {p : Nat → Prop} : (∀ k, k < 2 → p k) ↔ p 0 ∧ p 1 := by
  simp only [Nat.forall_lt_succ_right, Nat.not_lt_zero, IsEmpty.forall_iff, implies_true, true_and]

theorem forall_lt_four {p : Nat → Prop} : (∀ k, k < 4 → p k) ↔ p 0 ∧ p 1 ∧ p 2 ∧ p 3 := by
  simp only [Nat.forall_lt_succ_right, Nat.not_lt_zero, IsEmpty.forall_iff, implies_true, true_and,
    and_assoc]

/-- `read_le16(file_data + i)`. -/
def readLe16 (f : File) (i : Nat) : Traced Event Nat := do
  let b0 ← fileData f i
  let b1 ← fileData f (i + 1)
  pure (b0.toNat + 2 ^ 8 * b1.toNat)

theorem all_readLe16 {P : Event → Prop} {f : File} {i : Nat} :
    (readLe16 f i).All P ↔ ∀ k, k < 2 → P (.read ((i + k) % 2 ^ 32)) := by
  rw [forall_lt_two]
  simp [readLe16]

/-- `read_le32(file_data + i)`. -/
def readLe32 (f : File) (i : Nat) : Traced Event Nat := do
  let b0 ← fileData f i
  let b1 ← fileData f (i + 1)
  let b2 ← fileData f (i + 2)
  let b3 ← fileData f (i + 3)
  pure (b0.toNat + 2 ^ 8 * b1.toNat + 2 ^ 16 * b2.toNat + 2 ^ 24 * b3.toNat)

theorem all_readLe32 {P : Event → Prop} {f : File} {i : Nat} :
    (readLe32 f i).All P ↔ ∀ k, k < 4 → P (.read ((i + k) % 2 ^ 32)) := by
  rw [forall_lt_four]
  simp [readLe32]

theorem readLe32_lt (f : File) (i : Nat) : (readLe32 f i).val < 2 ^ 32 := by
  have hByte (j : Nat) : (fileData f j).val.toNat < 2 ^ 8 := UInt8.toNat_lt _
  have h0 := hByte i
  have h1 := hByte (i + 1)
  have h2 := hByte (i + 2)
  have h3 := hByte (i + 3)
  simp only [readLe32, Traced.val_bind, Traced.val_pure]
  omega

/-- `chunk_id`, `sub_id`. -/
def readId (f : File) (i : Nat) : Traced Event (List UInt8) := do
  let b0 ← fileData f i
  let b1 ← fileData f (i + 1)
  let b2 ← fileData f (i + 2)
  let b3 ← fileData f (i + 3)
  pure [b0, b1, b2, b3]

theorem all_readId {P : Event → Prop} {f : File} {i : Nat} :
    (readId f i).All P ↔ ∀ k, k < 4 → P (.read ((i + k) % 2 ^ 32)) := by
  rw [forall_lt_four]
  simp [readId]

/-- `file_data[i] == id[0] && file_data[i + 1] == id[1] && ..`. -/
def hasId (f : File) : Nat → List UInt8 → Traced Event Bool
  | _, [] => pure true
  | i, b :: bs => do
    if (← fileData f i) = b then hasId f (i + 1) bs else pure false

-- ---------------------------------------------------------------------------
-- parse_cur_frame
-- ---------------------------------------------------------------------------

/-- `(int16_t)w`. -/
def toInt16 (w : Nat) : Int := if w < 2 ^ 15 then w else (w : Int) - 2 ^ 16

/-- `frame->pixels[i] = v`. -/
def setPixel (pixels : Mem) (i : Nat) (v : UInt8) : Traced Event Mem := do
  Traced.tell (.pixelWrite i)
  pure (pixels.write8 i v)

/-- The loop that clears `frame->pixels`. -/
def clearPixels (pixels : Mem) : Traced Event Mem :=
  Traced.forTo (fun i px => setPixel px i 0) (aniMaxCursorW * aniMaxCursorH * 4) pixels

/-- The copying loops: `width` bytes for a pixel in the file, the rows from the last to the
first. `start` is the index of the pixel data, and `alpha` gets the index of a pixel. -/
def copyPixels (f : File) (start stride cw ch width : Nat) (alpha : Nat → Traced Event UInt8)
    (pixels : Mem) : Traced Event Mem :=
  Traced.forTo (fun y px =>
    Traced.forTo (fun x px => do
      let src := start + (ch - 1 - y) * stride + x * width
      let dst := (y * cw + x) * 4
      let px ← setPixel px dst (← fileData f src)
      let px ← setPixel px (dst + 1) (← fileData f (src + 1))
      let px ← setPixel px (dst + 2) (← fileData f (src + 2))
      setPixel px (dst + 3) (← alpha src)) cw px) ch pixels

/-- The end of `parse_cur_frame`: clear the pixels and copy those of the file, for the two
depths there are. -/
def decodePixels (f : File) (start stride bpp : Nat) (frame : Frame) :
    Traced Event (Bool × Frame) := do
  let px ← clearPixels frame.pixels
  if bpp = 32 then
    let px ← copyPixels f start stride frame.width frame.height 4
      (fun src => fileData f (src + 3)) px
    return (true, { frame with pixels := px })
  else if bpp = 24 then
    let px ← copyPixels f start stride frame.width frame.height 3 (fun _ => pure 255) px
    return (true, { frame with pixels := px })
  else return (false, { frame with pixels := px })

/-- `row_stride`: the bytes of a row, made a multiple of four. -/
def rowStride (cw bpp : Nat) : Nat :=
  let bytesPerPixel := (bpp + 7) / 8
  (cw * bytesPerPixel + 3) / 4 * 4

/-- The bitmap of an icon, from `data_offset` on. `row_stride * ch` stays below `2 ^ 24` and
does not wrap. -/
def parseDib (f : File) (cur curSize dataOffset : Nat) (frame : Frame) :
    Traced Event (Bool × Frame) := do
  if curSize < (dataOffset + 40) % 2 ^ 32 then return (false, frame)
  let dib := cur + dataOffset
  let dibHeaderSize ← readLe32 f dib
  if dibHeaderSize < 40 then return (false, frame)
  let bpp ← readLe16 f (dib + 14)
  let pixelStart := (dataOffset + dibHeaderSize) % 2 ^ 32
  if curSize < pixelStart then return (false, frame)
  let stride := rowStride frame.width bpp
  if curSize < (pixelStart + stride * frame.height) % 2 ^ 32 then return (false, frame)
  decodePixels f (cur + pixelStart) stride bpp frame

/-- `cur_data[6] ? cur_data[6] : 256`: a side of the picture, from a byte of the header. -/
def side (b : UInt8) : Nat := if b ≠ 0 then b.toNat else 256

theorem side_bounds (b : UInt8) : 0 < side b ∧ side b ≤ 256 := by
  have hByte := b.toNat_lt
  unfold side
  split
  · next hb =>
    have hNat : b.toNat ≠ 0 := fun h => hb (UInt8.toNat_inj.mp h)
    omega
  · omega

/-- `parse_cur_frame(file_data + cur, cur_size, frame)`. -/
def parseCurFrame (f : File) (cur curSize : Nat) (frame : Frame) : Traced Event (Bool × Frame) := do
  if curSize < 22 then return (false, frame)
  let type ← readLe16 f (cur + 2)
  if type ≠ 2 then return (false, frame)
  let b6 ← fileData f (cur + 6)
  let b7 ← fileData f (cur + 7)
  let hx ← readLe16 f (cur + 10)
  let hy ← readLe16 f (cur + 12)
  let dataOffset ← readLe32 f (cur + 18)
  parseDib f cur curSize dataOffset
    { frame with
      width := min (side b6) aniMaxCursorW, height := min (side b7) aniMaxCursorH
      hotspotX := toInt16 hx, hotspotY := toInt16 hy }

-- ---------------------------------------------------------------------------
-- ani_load
-- ---------------------------------------------------------------------------

/-- The end of a chunk: `offset + 8 + size`, made even. -/
def chunkEnd (offset size : Nat) : Nat :=
  let e := (offset + 8 + size) % 2 ^ 32
  if e % 2 = 1 then (e + 1) % 2 ^ 32 else e

/-- An icon: parse it into the next frame and count it. -/
def loadFrame (f : File) (cur size rate : Nat) (ani : State) : Traced Event State := do
  Traced.tell (.frameWrite ani.frameCount)
  Traced.tell (.icon cur size)
  let (ok, frame) ← parseCurFrame f cur size (ani.frames ani.frameCount)
  if ok then
    pure { ani with
      frames := Function.update ani.frames ani.frameCount { frame with durationJiffies := rate }
      frameCount := ani.frameCount + 1 }
  else pure { ani with frames := Function.update ani.frames ani.frameCount frame }

/-- What is done with a sub-chunk of a LIST. -/
def subBody (f : File) (id : List UInt8) (cur size rate : Nat) (ani : State) :
    Traced Event State :=
  if id = fourcc 'i' 'c' 'o' 'n' then loadFrame f cur size rate ani else pure ani

/-- A turn of the loop over the sub-chunks of a LIST, at `sub_offset`. -/
def listTurn (f : File) (listEnd rate : Nat) (s : Nat × State) :
    Traced Event (Turn (Nat × State) State) :=
  if (s.1 + 8) % 2 ^ 32 ≤ listEnd ∧ s.2.frameCount < aniMaxFrames then do
    let id ← readId f s.1
    let subSize ← readLe32 f (s.1 + 4)
    let ani ← subBody f id (s.1 + 8) subSize rate s.2
    Traced.tell (.sub id s.1 subSize s.2.frameCount ani.frameCount)
    pure (.again (chunkEnd s.1 subSize, ani))
  else pure (.exit s.2)

def listLoop (f : File) (listEnd rate fuel : Nat) (s : Nat × State) : Traced Event (Option State) :=
  Traced.whileLoop (fun _ s => some <$> listTurn f listEnd rate s) fuel s

/-- The local variables of `ani_load` and the animation. -/
structure Load where
  offset     : Nat
  anihRate   : Nat
  anihFrames : Nat
  anihSteps  : Nat
  seqBuffer  : Mem
  seqCount   : Nat
  ani        : State

def anihChunk (f : File) (chunkSize : Nat) (s : Load) : Traced Event Load :=
  if 36 ≤ chunkSize ∧ (s.offset + 8 + 36) % 2 ^ 32 ≤ f.size then do
    let frames ← readLe32 f (s.offset + 8 + 4)
    let steps ← readLe32 f (s.offset + 8 + 8)
    let rate ← readLe32 f (s.offset + 8 + 20)
    pure { s with
      anihFrames := frames, anihSteps := steps, anihRate := if rate = 0 then 60 else rate }
  else pure s

def seqChunk (f : File) (chunkSize : Nat) (s : Load) : Traced Event Load := do
  let seqCount := min (chunkSize / 4) 256
  let seqBuffer ← Traced.forTo (fun i buffer => do
    let v ← readLe32 f (s.offset + 8 + i * 4)
    Traced.tell (.seqWrite i)
    pure (buffer.write8 i (UInt8.ofNat v))) seqCount s.seqBuffer
  pure { s with seqBuffer := seqBuffer, seqCount := seqCount }

def listChunk (f : File) (fuel chunkSize : Nat) (s : Load) : Traced Event (Option Load) := do
  let listStart := (s.offset + 8) % 2 ^ 32
  let ani ← listLoop f (chunkEnd s.offset chunkSize) s.anihRate fuel ((listStart + 4) % 2 ^ 32, s.ani)
  pure (ani.map fun ani => { s with ani := ani })

def iconChunk (f : File) (chunkSize : Nat) (s : Load) : Traced Event Load :=
  if s.ani.frameCount < aniMaxFrames then do
    let ani ← loadFrame f (s.offset + 8) chunkSize s.anihRate s.ani
    pure { s with ani := ani }
  else pure s

/-- What is done with a chunk, by its id. -/
def chunkBody (f : File) (fuel : Nat) (id : List UInt8) (chunkSize : Nat) (s : Load) :
    Traced Event (Option Load) :=
  if id = fourcc 'a' 'n' 'i' 'h' then some <$> anihChunk f chunkSize s
  else if id = fourcc 's' 'e' 'q' ' ' then some <$> seqChunk f chunkSize s
  else if id = fourcc 'L' 'I' 'S' 'T' then listChunk f fuel chunkSize s
  else if id = fourcc 'i' 'c' 'o' 'n' then some <$> iconChunk f chunkSize s
  else pure (some s)

/-- `offset = chunk_end; if (offset >= file_size) break;`. -/
def nextChunk (f : File) (chunkEnd : Nat) (s : Load) : Turn Load Load :=
  if f.size ≤ chunkEnd then .exit { s with offset := chunkEnd }
  else .again { s with offset := chunkEnd }

/-- A turn of the chunk loop. -/
def chunkTurn (f : File) (fuel : Nat) (s : Load) : Traced Event (Option (Turn Load Load)) :=
  if (s.offset + 8) % 2 ^ 32 ≤ f.size then do
    let id ← readId f s.offset
    let chunkSize ← readLe32 f (s.offset + 4)
    Traced.tell (.chunk id s.offset chunkSize)
    let s' ← chunkBody f fuel id chunkSize s
    pure (s'.map (nextChunk f (chunkEnd s.offset chunkSize)))
  else pure (some (.exit s))

/-- The answers of FatFs while the file is opened and read. -/
structure LoadAnswers where
  fOpen : FResult
  fRead : FResult
  br    : Nat

/-- The loader's variables before the first chunk; `seq_buffer` is not initialised. -/
def Load.start (seqBuffer : Mem) (ani : State) : Load :=
  { offset := 12, anihRate := 60, anihFrames := 0, anihSteps := 0, seqBuffer := seqBuffer
    seqCount := 0, ani := ani }

/-- What `ani_load` checks before the first chunk. -/
def accepts (a : LoadAnswers) (f : File) : Traced Event Bool := do
  if a.fOpen ≠ .ok then return false
  if 65536 < f.size then return false
  if a.fRead ≠ .ok ∨ a.br ≠ f.size then return false
  if f.size < 12 then return false
  if !(← hasId f 0 (fourcc 'R' 'I' 'F' 'F')) then return false
  let _riffSize ← readLe32 f 4
  hasId f 8 (fourcc 'A' 'C' 'O' 'N')

/-- `ani_load`: the value returned and the animation. -/
def aniLoad (a : LoadAnswers) (f : File) (seqBuffer : Mem) (ani : State) (fuel : Nat) :
    Traced Event (Option (Bool × State)) := do
  let ani := aniInit ani
  if !(← accepts a f) then return some (false, ani)
  let s ← Traced.whileLoop (chunkTurn f) fuel (Load.start seqBuffer ani)
  return s.map fun s => (s.ani.frameCount ≠ 0, s.ani)

-- ---------------------------------------------------------------------------
-- Playing
-- ---------------------------------------------------------------------------

/-- `ani_speed_percentage`. -/
def aniSpeedPercentage : Nat := 1600

def jiffiesToTicks (jiffies : Nat) : Nat :=
  if jiffies = 0 then 0
  else
    let adjusted := jiffies * 100 % 2 ^ 32 / aniSpeedPercentage
    let adjusted := if adjusted = 0 then 1 else adjusted
    let ticks := (adjusted * 18 + 30) % 2 ^ 32 / 60
    if ticks = 0 then 1 else ticks

/-- `ani_play`, when `timer_ticks` is `timer`. -/
def aniPlay (timer : BitVec 32) (ani : State) : State :=
  if ani.frameCount = 0 then ani
  else { ani with active := true, currentFrame := 0, frameStartTick := timer.toNat }

def aniStop (ani : State) : State := { ani with active := false, currentFrame := 0 }

/-- The durations of the frames, in ticks. -/
def State.durations (ani : State) : List Nat :=
  (List.range ani.frameCount).map fun i => jiffiesToTicks (ani.frames i).durationJiffies

/-- The loop that adds the durations up. -/
def totalDuration (durations : List Nat) : Nat :=
  durations.foldl (fun total d => (total + d) % 2 ^ 32) 0

/-- The loop that looks for the frame, from frame `i` on with `accum` ticks before it. -/
def pickFrame (modElapsed : Nat) : (i accum : Nat) → List Nat → Option Nat
  | _, _, [] => none
  | i, accum, d :: ds =>
    let accum := (accum + d) % 2 ^ 32
    if modElapsed < accum then some i else pickFrame modElapsed (i + 1) accum ds

/-- The frame `ani_update` selects when `elapsed` ticks have passed. -/
def State.frameAt (ani : State) (elapsed : Nat) : Nat :=
  let total := totalDuration ani.durations
  if total = 0 then 0
  else (pickFrame (elapsed % total) 0 0 ani.durations).getD (ani.frameCount - 1)

/-- `ani_update(current_tick)`. -/
def aniUpdate (currentTick : BitVec 32) (ani : State) : State :=
  if !ani.active || ani.frameCount = 0 then ani
  else { ani with
    currentFrame := ani.frameAt (currentTick - BitVec.ofNat 32 ani.frameStartTick).toNat }

end Nao.Ani
